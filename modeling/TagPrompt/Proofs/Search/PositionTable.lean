import TagPrompt.Proofs.Search.Selection
import TagPrompt.Proofs.Source.Ranges

/-! Reading the position table. A source that serves a table gives every entry inside it all of its
slots, so over such a source the positions of every known tag are found. -/

namespace TagPrompt

/-! ### Slots -/

theorem slotValues_slotBytes_append (x : Offset) (rest : Bytes) :
    slotValues (slotBytes x ++ rest) = x :: slotValues rest := by
  have hbyte : ∀ n, n < 256 → n.toUInt8.toNat = n := fun _ hn => UInt8.toNat_ofNat_of_lt' hn
  have hx : x.toNat < 0x100000000 := x.toNat_lt
  have hvalue : ((x.toNat / 0x1000000 * 256 + x.toNat / 0x10000 % 256) * 256 +
      x.toNat / 0x100 % 256) * 256 + x.toNat % 256 = x.toNat := by
    omega
  simp only [slotBytes, List.cons_append, List.nil_append, slotValues]
  rw [slotValue, hbyte _ (by omega), hbyte _ (by omega), hbyte _ (by omega), hbyte _ (by omega),
    hvalue]
  exact congrArg (· :: slotValues rest) (UInt32.ofNat_toNat)

theorem slotValues_flatMap_slotBytes_append (offsets : List Offset) (rest : Bytes) :
    slotValues (offsets.flatMap slotBytes ++ rest) = offsets ++ slotValues rest := by
  induction offsets with
  | nil => rfl
  | cons x offsets ih =>
      rw [List.flatMap_cons, List.append_assoc, slotValues_slotBytes_append, ih, List.cons_append]

theorem slotValues_flatMap_slotBytes (offsets : List Offset) :
    slotValues (offsets.flatMap slotBytes) = offsets := by
  have happend := slotValues_flatMap_slotBytes_append offsets []
  have hnone : slotValues [] = [] := rfl
  rwa [List.append_nil, hnone, List.append_nil] at happend

theorem length_flatMap_slotBytes (offsets : List Offset) :
    (offsets.flatMap slotBytes).length = IndexEntry.slotWidth * offsets.length := by
  induction offsets with
  | nil => rfl
  | cons x offsets ih =>
      rw [List.flatMap_cons, List.length_append, ih, List.length_cons, Nat.mul_succ, Nat.add_comm]
      rfl

/-! ### Entries -/

/-- The slots of an entry lie in the table. -/
structure IndexEntry.Inside (entry : IndexEntry) (table : Bytes) : Prop where
  ordered : entry.start ≤ entry.stop
  covered : IndexEntry.slotWidth * entry.stop.toNat ≤ table.length

instance (entry : IndexEntry) (table : Bytes) : Decidable (entry.Inside table) :=
  decidable_of_iff
    (entry.start ≤ entry.stop ∧ IndexEntry.slotWidth * entry.stop.toNat ≤ table.length)
    ⟨fun h => ⟨h.1, h.2⟩, fun h => ⟨h.ordered, h.covered⟩⟩

/-- The set of the offsets that a table has in the slots of an entry. -/
def IndexEntry.setIn (entry : IndexEntry) (table : Bytes) : PositionSet :=
  decodePositions (entry.byteRange.cut table)

theorem IndexEntry.byteRange_ordered {entry : IndexEntry} (h : entry.start ≤ entry.stop) :
    entry.byteRange.start ≤ entry.byteRange.stop :=
  Nat.mul_le_mul_left slotWidth (UInt32.le_iff_toNat_le.mp h)

/-- The ends of an entry are numbers of bytes without wrapping. -/
theorem IndexEntry.byteRange_lt (entry : IndexEntry) :
    entry.byteRange.start < UInt64.size ∧ entry.byteRange.stop < UInt64.size := by
  have hstart := entry.start.toNat_lt
  have hstop := entry.stop.toNat_lt
  simp only [byteRange, slotWidth, UInt64.size]
  omega

theorem IndexEntry.toNat_byteCount {entry : IndexEntry} (h : entry.start ≤ entry.stop) :
    entry.byteCount.toNat = entry.byteRange.length := by
  obtain ⟨hstart, hstop⟩ := entry.byteRange_lt
  have hordered := byteRange_ordered h
  rw [byteCount, UInt64.toNat_sub, UInt64.toNat_ofNat_of_lt' hstart,
    UInt64.toNat_ofNat_of_lt' hstop, ByteRange.length]
  simp only [UInt64.size] at hstart hstop
  omega

/-- An entry that ends before it starts asks for nearly all the bytes that can be counted. -/
theorem IndexEntry.toNat_byteCount_of_inverted {entry : IndexEntry} (h : entry.stop < entry.start) :
    entry.byteCount.toNat = UInt64.size - slotWidth * (entry.start.toNat - entry.stop.toNat) := by
  obtain ⟨hstart, hstop⟩ := entry.byteRange_lt
  have hinverted : entry.stop.toNat < entry.start.toNat := UInt32.lt_iff_toNat_lt.mp h
  rw [byteCount, UInt64.toNat_sub, UInt64.toNat_ofNat_of_lt' hstart,
    UInt64.toNat_ofNat_of_lt' hstop]
  simp only [byteRange, slotWidth, UInt64.size] at *
  omega

/-- At least as many bytes are asked for as are in the slots. -/
theorem IndexEntry.length_byteRange_le (entry : IndexEntry) :
    entry.byteRange.length ≤ entry.byteCount.toNat := by
  rcases UInt32.le_total entry.start entry.stop with hordered | hinverted
  · exact Nat.le_of_eq (toNat_byteCount hordered).symm
  · have hnone : entry.byteRange.length = 0 :=
      Nat.sub_eq_zero_of_le (Nat.mul_le_mul_left slotWidth (UInt32.le_iff_toNat_le.mp hinverted))
    rw [hnone]
    exact Nat.zero_le _

theorem IndexEntry.le_of_isEmpty {entry : IndexEntry} (h : entry.isEmpty = true) :
    entry.start ≤ entry.stop := by
  rw [isEmpty, beq_iff_eq] at h
  exact UInt32.le_of_eq h

theorem IndexEntry.length_byteRange_of_isEmpty {entry : IndexEntry} (h : entry.isEmpty = true) :
    entry.byteRange.length = 0 := by
  rw [isEmpty, beq_iff_eq] at h
  rw [byteRange, h, ByteRange.length, Nat.sub_self]

theorem IndexEntry.setIn_of_isEmpty {entry : IndexEntry} (h : entry.isEmpty = true)
    (table : Bytes) :
    entry.setIn table = .empty := by
  rw [setIn, ByteRange.cut, length_byteRange_of_isEmpty h, List.take_zero]
  rfl

/-- Fetching comes to what the bytes in the slots of an entry do; a tag without slots has none. -/
theorem fetchPositions_of_servesAt {source : ByteSource} {table : Bytes} {limit : Millis}
    {entry : IndexEntry}
    (hserves : ∀ range, readFor? entry = some range → source.ServesAt table limit range) :
    (fetchPositions source limit entry).1 =
      fetchedOfBytes entry (entry.byteRange.cut table) := by
  cases hempty : entry.isEmpty with
  | true =>
      have hread : readFor? entry = none := if_pos hempty
      have hlength : (entry.byteRange.cut table).length = entry.byteCount.toNat := by
        rw [IndexEntry.toNat_byteCount (IndexEntry.le_of_isEmpty hempty), ByteRange.length_cut,
          IndexEntry.length_byteRange_of_isEmpty hempty, Nat.zero_min]
      rw [fetchPositions, hread, fetchedOfBytes, if_pos hlength, ← IndexEntry.setIn,
        IndexEntry.setIn_of_isEmpty hempty]
  | false =>
      have hread : readFor? entry = some entry.byteRange := if_neg (by simp [hempty])
      rw [fetchPositions, hread]
      dsimp only
      rw [hserves _ hread, fetchedOfReading]

/-- The only read for an entry is that of its slots. -/
theorem eq_byteRange_of_readFor? {entry : IndexEntry} {range : ByteRange}
    (h : readFor? entry = some range) : range = entry.byteRange := by
  obtain ⟨-, hrange⟩ := Option.ite_none_left_eq_some.mp h
  exact (Option.some.inj hrange).symm

/-- A source that serves a table serves the slots of an entry that does not end before it starts. -/
theorem ByteSource.Serves.slots {source : ByteSource} {table : Bytes} {limit : Millis}
    {entry : IndexEntry} (hserves : source.Serves table limit)
    (hordered : entry.start ≤ entry.stop) (range : ByteRange)
    (hread : readFor? entry = some range) : source.ServesAt table limit range := by
  rw [eq_byteRange_of_readFor? hread]
  exact hserves _ (IndexEntry.byteRange_ordered hordered)

theorem IndexEntry.Inside.length_cut {entry : IndexEntry} {table : Bytes}
    (h : entry.Inside table) : (entry.byteRange.cut table).length = entry.byteCount.toNat := by
  rw [toNat_byteCount h.ordered]
  exact ByteRange.length_cut_of_le h.covered

theorem fetchPositions_of_serves {source : ByteSource} {table : Bytes} {limit : Millis}
    {entry : IndexEntry} (hserves : source.Serves table limit) (hinside : entry.Inside table) :
    (fetchPositions source limit entry).1 = .positions (entry.setIn table) := by
  rw [fetchPositions_of_servesAt (hserves.slots hinside.ordered), fetchedOfBytes,
    if_pos hinside.length_cut]
  rfl

namespace Resolver

/-- The table is served in time and covers the entries of all tags. -/
structure Covered (r : Resolver) (table : Bytes) : Prop where
  serves : r.positions.Serves table r.limit
  inside : ∀ tag entry, r.index.get? tag = some entry → entry.Inside table

/-- The set of a tag in a table, empty for a tag without an entry. -/
def setIn (r : Resolver) (table : Bytes) (tag : Text) : PositionSet :=
  match r.index.get? tag with
  | some entry => entry.setIn table
  | none => .empty

theorem covered_of_entries {r : Resolver} {table : Bytes}
    (hserves : r.positions.Serves table r.limit)
    (hinside : ∀ entry ∈ r.index.entries, entry.Inside table) : r.Covered table where
  serves := hserves
  inside _ entry hentry := hinside entry (List.mem_of_find?_eq_some hentry)

theorem finds_of_covered {r : Resolver} {table : Bytes} {q : Query} (h : r.Covered table)
    (hknows : r.index.Knows q) :
    ∀ tag ∈ q.wanted ++ q.unwanted, r.Finds tag (r.setIn table tag) := by
  intro tag htag
  obtain ⟨entry, hentry⟩ := hknows tag htag
  refine ⟨entry, hentry, ?_⟩
  rw [fetchPositions_of_serves h.serves (h.inside tag entry hentry), setIn, hentry]

end Resolver
end TagPrompt
