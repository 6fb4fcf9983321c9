import TagPrompt.Proofs.Search.PositionTable
import TagPrompt.Proofs.Text.Split
import TagPrompt.Proofs.Text.Utf8
import TagPrompt.Search.CorpusLine

/-! Reading a line of the corpus. Bytes that begin with the line of a prompt give back that prompt,
less a carriage return at its end, and bytes without a line end give none. So the corpus gives the
prompt back at the offset of its line exactly if its window reaches beyond the line, whatever else
is in the window; but a window whose end wraps ends before its offset, and nothing is in it. -/

namespace TagPrompt.Corpus

variable {prompt : Text}

/-- A line end in the bytes of a prompt is one in the prompt. -/
theorem lineFeed_not_mem_encode (h : '\n' ∉ prompt) : lineFeed ∉ Utf8.encode prompt :=
  fun hbyte => h (Utf8.mem_of_mem_encode hbyte (by decide))

theorem getLast?_encode_iff :
    (Utf8.encode prompt).getLast? = some carriageReturn ↔ prompt.getLast? = some '\r' := by
  rcases List.eq_nil_or_concat prompt with rfl | ⟨front, c, rfl⟩
  · exact ⟨nofun, nofun⟩
  · rw [List.concat_eq_append]
    constructor
    · intro hlast
      have hc : c = '\r' := Utf8.eq_ofNat_of_getLast?_encode hlast (by decide)
      rw [hc, List.getLast?_concat]
    · intro hlast
      rw [List.getLast?_concat, Option.some.injEq] at hlast
      rw [hlast, Utf8.encode_append]
      exact List.getLast?_concat

theorem dropLast_encode (prompt : Text) :
    (if (Utf8.encode prompt).getLast? = some carriageReturn then (Utf8.encode prompt).dropLast
      else Utf8.encode prompt) = Utf8.encode prompt.withoutReturn := by
  by_cases h : prompt.getLast? = some '\r'
  · obtain ⟨front, rfl⟩ := List.getLast?_eq_some_iff.mp h
    rw [if_pos (getLast?_encode_iff.mpr h), Text.withoutReturn_concat, Utf8.encode_append]
    exact List.dropLast_concat
  · rw [if_neg (mt getLast?_encode_iff.mp h), Text.withoutReturn_of_ne h]

theorem takeWhile_line (h : '\n' ∉ prompt) (rest : Bytes) :
    (Utf8.encode prompt ++ lineFeed :: rest).takeWhile (· ≠ lineFeed) = Utf8.encode prompt := by
  have hline : ∀ b ∈ Utf8.encode prompt, decide (b ≠ lineFeed) = true := by
    intro b hb
    refine decide_eq_true ?_
    rintro rfl
    exact lineFeed_not_mem_encode h hb
  rw [List.takeWhile_append_of_pos hline, List.takeWhile_cons_of_neg (by simp), List.append_nil]

theorem firstLine?_line (h : '\n' ∉ prompt) (rest : Bytes) :
    firstLine? (Utf8.encode prompt ++ lineFeed :: rest) =
      some (Utf8.encode prompt.withoutReturn) := by
  have hlength : (Utf8.encode prompt).length ≠ (Utf8.encode prompt ++ lineFeed :: rest).length := by
    rw [List.length_append, List.length_cons]
    omega
  rw [firstLine?, takeWhile_line h, if_neg hlength, dropLast_encode]

theorem promptOfBytes_line (corpus : Corpus) (offset : Offset) (h : '\n' ∉ prompt) (rest : Bytes) :
    corpus.promptOfBytes offset (Utf8.encode prompt ++ lineFeed :: rest) =
      .prompt prompt.withoutReturn := by
  rw [promptOfBytes, firstLine?_line h]
  dsimp only
  rw [Utf8.decode_encode]

/-- No line end is found in the window at an offset. -/
def noLineAt (corpus : Corpus) (offset : Offset) : PromptRead :=
  .failed (.malformed (.noLineEnd corpus.window.toNat offset.toNat corpus.source.location))

theorem promptOfBytes_of_no_end (corpus : Corpus) (offset : Offset) {bytes : Bytes}
    (h : lineFeed ∉ bytes) :
    corpus.promptOfBytes offset bytes = corpus.noLineAt offset := by
  have hall : bytes.takeWhile (· ≠ lineFeed) = bytes := by
    apply List.takeWhile_eq_self_iff.mpr
    intro b hb
    refine decide_eq_true ?_
    rintro rfl
    exact h hb
  have hnone : firstLine? bytes = none := by rw [firstLine?, hall, if_pos rfl]
  rw [promptOfBytes, hnone]
  rfl

variable {corpus : Corpus} {offset : Offset} {before after content : Bytes}

/-! ### The window at an offset -/

/-- The window at an offset ends at a position that can be counted. -/
def WindowFits (corpus : Corpus) (offset : Offset) : Prop :=
  offset.toNat + corpus.window.toNat < UInt64.size

instance (corpus : Corpus) (offset : Offset) : Decidable (corpus.WindowFits offset) :=
  inferInstanceAs (Decidable (_ < _))

/-- Only windows of nearly all positions do not fit. -/
theorem windowFits_of_le (h : corpus.window.toNat ≤ UInt64.size - UInt32.size) (offset : Offset) :
    corpus.WindowFits offset := by
  have hoffset := offset.toNat_lt
  simp only [WindowFits, UInt64.size, UInt32.size] at h ⊢
  omega

theorem rangeAt_of_fits (h : corpus.WindowFits offset) :
    corpus.rangeAt offset = ⟨offset.toNat, offset.toNat + corpus.window.toNat⟩ := by
  rw [rangeAt, UInt64.toNat_add, UInt32.toNat_toUInt64, Nat.mod_eq_of_lt h]

theorem rangeAt_ordered (h : corpus.WindowFits offset) :
    (corpus.rangeAt offset).start ≤ (corpus.rangeAt offset).stop := by
  rw [rangeAt_of_fits h]
  exact Nat.le_add_right offset.toNat corpus.window.toNat

/-- A window whose end wraps ends before its offset. -/
theorem rangeAt_inverted (h : ¬corpus.WindowFits offset) :
    (corpus.rangeAt offset).stop < (corpus.rangeAt offset).start := by
  have hoffset := offset.toNat_lt
  have hwindow := corpus.window.toNat_lt
  rw [rangeAt, UInt64.toNat_add, UInt32.toNat_toUInt64]
  simp only [WindowFits, UInt64.size, not_lt] at h ⊢
  omega

/-- The bytes that are read for a line begin with the line, or are the beginning of its prompt. -/
theorem cut_rangeAt (hfits : corpus.WindowFits offset) (hoffset : offset.toNat = before.length) :
    (corpus.rangeAt offset).cut (before ++ (Utf8.encode prompt ++ lineFeed :: after)) =
      (Utf8.encode prompt ++ lineFeed :: after).take corpus.window.toNat := by
  rw [rangeAt_of_fits hfits, ByteRange.cut, ByteRange.length, Nat.add_sub_cancel_left, hoffset,
    List.drop_left]

/-- The prompt of a line is read exactly if the window has room for it and for the line end. -/
theorem promptAt_line
    (hserves : corpus.source.ServesAt (before ++ (Utf8.encode prompt ++ lineFeed :: after))
      corpus.limit (corpus.rangeAt offset))
    (hfits : corpus.WindowFits offset) (hoffset : offset.toNat = before.length)
    (hline : '\n' ∉ prompt) :
    corpus.promptAt offset =
      if (Utf8.encode prompt).length < corpus.window.toNat then .prompt prompt.withoutReturn
      else corpus.noLineAt offset := by
  rw [promptAt, hserves, cut_rangeAt hfits hoffset]
  dsimp only
  split_ifs with hwindow
  · obtain ⟨beyond, hbeyond⟩ := Nat.exists_eq_add_of_lt hwindow
    rw [hbeyond, Nat.add_assoc, List.take_length_add_append, List.take_succ_cons]
    exact promptOfBytes_line corpus offset hline _
  · rw [List.take_append_of_le_length (Nat.not_lt.mp hwindow)]
    exact promptOfBytes_of_no_end corpus offset fun hfeed =>
      lineFeed_not_mem_encode hline (List.mem_of_mem_take hfeed)

/-- In a window that ends before its offset there is no line. -/
theorem promptAt_of_not_fits (hnothing : corpus.source.NothingInverted corpus.limit)
    (h : ¬corpus.WindowFits offset) :
    corpus.promptAt offset = corpus.noLineAt offset ∨ corpus.promptAt offset = .crashed := by
  rcases hnothing _ (rangeAt_inverted h) with hread | hread
  · left
    rw [promptAt, hread]
    exact promptOfBytes_of_no_end corpus offset List.not_mem_nil
  · right
    rw [promptAt, hread]

/-- Behind the end of the corpus there is no line. -/
theorem promptAt_beyond
    (hserves : corpus.source.ServesAt content corpus.limit (corpus.rangeAt offset))
    (hoffset : content.length ≤ offset.toNat) :
    corpus.promptAt offset = corpus.noLineAt offset := by
  have hbehind : content.drop (corpus.rangeAt offset).start = [] := List.drop_eq_nil_of_le hoffset
  rw [promptAt, hserves, ByteRange.cut, hbehind, List.take_nil]
  exact promptOfBytes_of_no_end corpus offset List.not_mem_nil

end TagPrompt.Corpus
