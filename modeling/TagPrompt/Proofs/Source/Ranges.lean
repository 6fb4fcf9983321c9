import TagPrompt.Source.Memory

/-! The bytes of a range. They are the bytes of a content whose positions lie in the range, whether
they are counted from the start of the range or cut out between its ends. A source serves a content
if its reads end with these bytes; a range that ends before it starts has none of them. -/

namespace TagPrompt

namespace ByteRange

/-- The bytes of a content whose positions lie in the range. -/
def positioned (range : ByteRange) (content : Bytes) : Bytes :=
  (content.zipIdx.filter fun placed => range.start ≤ placed.2 ∧ placed.2 < range.stop).map Prod.fst

variable {range : ByteRange} {content : Bytes}

/-- The first byte stands at position `first`. -/
theorem positioned_from (start stop first : Nat) (content : Bytes) :
    ((content.zipIdx first).filter fun placed => start ≤ placed.2 ∧ placed.2 < stop).map Prod.fst =
      (content.take (stop - first)).drop (start - first) := by
  induction content generalizing first with
  | nil => simp
  | cons byte content ih =>
      rw [List.zipIdx_cons, List.filter_cons]
      by_cases hstop : stop ≤ first
      · have hnone : stop - first = 0 := Nat.sub_eq_zero_of_le hstop
        have hnext : stop - (first + 1) = 0 := by omega
        rw [if_neg (by simp; omega), ih, hnone, hnext, List.take_zero, List.take_zero,
          List.drop_nil, List.drop_nil]
      · have htake : stop - first = stop - (first + 1) + 1 := by omega
        rw [htake, List.take_succ_cons]
        by_cases hstart : start ≤ first
        · have hinside : start - first = 0 := Nat.sub_eq_zero_of_le hstart
          have hnext : start - (first + 1) = 0 := by omega
          rw [if_pos (by simp; omega), List.map_cons, ih, hinside, hnext, List.drop_zero,
            List.drop_zero]
        · have hdrop : start - first = start - (first + 1) + 1 := by omega
          rw [if_neg (by simp; omega), ih, hdrop, List.drop_succ_cons]

theorem positioned_eq (range : ByteRange) (content : Bytes) :
    range.positioned content = (content.take range.stop).drop range.start :=
  positioned_from range.start range.stop 0 content

theorem positioned_of_isEmpty (h : range.isEmpty = true) (content : Bytes) :
    range.positioned content = [] := by
  have hstop : range.stop ≤ range.start := of_decide_eq_true h
  rw [positioned_eq]
  apply List.drop_eq_nil_of_le
  exact Nat.le_trans (List.length_take_le ..) hstop

theorem length_positioned_le (range : ByteRange) (content : Bytes) :
    (range.positioned content).length ≤ content.length := by
  rw [positioned_eq, List.length_drop, List.length_take]
  omega

theorem cut_eq_positioned (range : ByteRange) (content : Bytes) :
    range.cut content = range.positioned content := by
  rw [positioned_eq, List.drop_take]
  rfl

theorem clamped_eq_positioned (range : ByteRange) (content : Bytes) :
    range.clamped content = range.positioned content := by
  have htake : content.take (min range.stop content.length) = content.take range.stop := by
    rw [List.take_eq_take_iff]
    omega
  rw [positioned_eq, clamped, htake]
  by_cases hstart : range.start ≤ content.length
  · rw [Nat.min_eq_left hstart]
  · have hlength : (content.take range.stop).length ≤ content.length := List.length_take_le' ..
    rw [List.drop_eq_nil_of_le (by omega), List.drop_eq_nil_of_le (by omega)]

theorem clamped_eq_cut (range : ByteRange) (content : Bytes) :
    range.clamped content = range.cut content := by
  rw [clamped_eq_positioned, cut_eq_positioned]

/-- A range whose ends are in order can be sliced. -/
theorem slice?_of_le (h : range.start ≤ range.stop) (content : Bytes) :
    range.slice? content = some (range.cut content) := by
  rw [slice?, if_pos (by omega), clamped_eq_cut]

/-- A range that starts inside a content and ends before its start cannot be sliced. -/
theorem slice?_of_inverted (h : range.stop < range.start) (hinside : range.start ≤ content.length) :
    range.slice? content = none := by
  rw [slice?, if_neg (by omega)]

theorem length_cut (range : ByteRange) (content : Bytes) :
    (range.cut content).length = min range.length (content.length - range.start) := by
  rw [cut, List.length_take, List.length_drop]

theorem length_cut_of_le {range : ByteRange} {content : Bytes}
    (h : range.stop ≤ content.length) :
    (range.cut content).length = range.length := by
  rw [length_cut, length]
  omega

theorem cut_of_inverted (h : range.stop < range.start) (content : Bytes) :
    range.cut content = [] := by
  rw [cut, length, Nat.sub_eq_zero_of_le (Nat.le_of_lt h), List.take_zero]

end ByteRange

/-! ### Serving -/

/-- A read of the range within the limit ends with the bytes of the content that lie in it. -/
def ByteSource.ServesAt (source : ByteSource) (content : Bytes) (limit : Millis)
    (range : ByteRange) : Prop :=
  (source.readWithin limit range).reading = .bytes (range.cut content)

/-- Every read of a range whose ends are in order ends within the limit, with the bytes of the
content that lie in the range. -/
def ByteSource.Serves (source : ByteSource) (content : Bytes) (limit : Millis) : Prop :=
  ∀ range : ByteRange, range.start ≤ range.stop → source.ServesAt content limit range

/-- No read of a range that ends before it starts gives bytes: it ends with none, or crashes. -/
def ByteSource.NothingInverted (source : ByteSource) (limit : Millis) : Prop :=
  ∀ range : ByteRange, range.stop < range.start →
    (source.readWithin limit range).reading = .bytes [] ∨
      (source.readWithin limit range).reading = .crashed

/-! ### Sources in memory -/

namespace MemorySource

variable {m : MemorySource} {limit : Millis} {range : ByteRange} {bytes : Bytes}

theorem reading_of_completes (h : m.completes limit = true) (range : ByteRange) :
    (m.source.readWithin limit range).reading =
      (range.slice? m.content).elim .crashed .bytes := by
  simp only [completes, Bool.and_eq_true, Bool.not_eq_true', decide_eq_true_eq] at h
  obtain ⟨⟨hcrash, hfail⟩, hdelay⟩ := h
  have htime : ¬limit < m.duration := by
    rw [duration, hcrash, if_neg Bool.false_ne_true]
    exact Nat.not_lt.mpr hdelay
  simp only [ByteSource.readWithin, source, if_neg htime, reading, hcrash, hfail,
    if_neg Bool.false_ne_true]
  cases range.slice? m.content <;> rfl

theorem serves (h : m.completes limit = true) : m.source.Serves m.content limit := by
  intro range hordered
  rw [ByteSource.ServesAt, reading_of_completes h, ByteRange.slice?_of_le hordered,
    Option.elim_some]

theorem nothingInverted (h : m.completes limit = true) : m.source.NothingInverted limit := by
  intro range hinverted
  rw [reading_of_completes h, ByteRange.slice?, ByteRange.clamped_eq_cut,
    ByteRange.cut_of_inverted hinverted]
  split
  · exact .inl rfl
  · exact .inr rfl

/-- A read that ends with bytes is one of a source that completes it. -/
theorem completes_of_reading (h : (m.source.readWithin limit range).reading = .bytes bytes) :
    m.completes limit = true := by
  rw [ByteSource.readWithin, source] at h
  cases hcrash : m.crashing with
  | true => simp [duration, reading, hcrash] at h
  | false =>
      cases hfail : m.failing with
      | true =>
          split at h
          · cases h
          · simp [reading, hcrash, hfail] at h
      | false =>
          split at h
          · cases h
          · rename_i hlate
            rw [duration, hcrash, if_neg Bool.false_ne_true] at hlate
            simp [completes, hcrash, hfail, Nat.not_lt.mp hlate]

/-- A read that starts inside the content and ends with bytes has served them. -/
theorem servesAt_of_reading (h : (m.source.readWithin limit range).reading = .bytes bytes)
    (hinside : range.start ≤ m.content.length) :
    range.start ≤ range.stop ∧ m.source.ServesAt m.content limit range := by
  have hordered : range.start ≤ range.stop := by
    refine Nat.le_of_not_lt fun hinverted => ?_
    rw [reading_of_completes (completes_of_reading h),
      ByteRange.slice?_of_inverted hinverted hinside] at h
    cases h
  exact ⟨hordered, serves (completes_of_reading h) range hordered⟩

end MemorySource
end TagPrompt
