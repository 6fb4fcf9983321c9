import Mathlib.Data.List.Nodup
import TagPrompt.CorpusLayout

/-! The lines of a laid out corpus. As long as the corpus has fewer bytes than there are offsets,
the offset of a line is the number of bytes before it, so later lines have greater offsets and a
line is known by its offset. -/

namespace TagPrompt.CorpusLayout

variable {position : Nat} {prompts : List Text} {line line' : Offset × Text}

/-! ### From a position on -/

theorem map_snd_linesFrom (position : Nat) (prompts : List Text) :
    (linesFrom position prompts).map Prod.snd = prompts := by
  induction prompts generalizing position with
  | nil => rfl
  | cons prompt prompts ih => rw [linesFrom, List.map_cons, ih]

theorem exists_split_of_mem_linesFrom
    (hsize : position + (prompts.flatMap lineBytes).length < UInt32.size)
    (hline : line ∈ linesFrom position prompts) :
    ∃ before after, prompts.flatMap lineBytes = before ++ (lineBytes line.2 ++ after) ∧
      line.1.toNat = position + before.length := by
  induction prompts generalizing position with
  | nil => exact absurd hline List.not_mem_nil
  | cons prompt prompts ih =>
      rw [List.flatMap_cons, List.length_append] at hsize
      rw [linesFrom, List.mem_cons] at hline
      rcases hline with rfl | hline
      · have hposition : position < UInt32.size := by omega
        exact ⟨[], prompts.flatMap lineBytes, List.flatMap_cons,
          UInt32.toNat_ofNat_of_lt' hposition⟩
      · obtain ⟨before, after, hsplit, hoffset⟩ := ih (by omega) hline
        refine ⟨lineBytes prompt ++ before, after, ?_, ?_⟩
        · rw [List.flatMap_cons, hsplit, List.append_assoc]
        · rw [hoffset, List.length_append, Nat.add_assoc]

theorem lineBytes_length_pos (prompt : Text) : 0 < (lineBytes prompt).length := by
  rw [lineBytes, List.length_append, List.length_singleton]
  exact Nat.succ_pos _

theorem pairwise_linesFrom (hsize : position + (prompts.flatMap lineBytes).length < UInt32.size) :
    (linesFrom position prompts).Pairwise fun line line' => line.1 < line'.1 := by
  induction prompts generalizing position with
  | nil => exact List.Pairwise.nil
  | cons prompt prompts ih =>
      rw [List.flatMap_cons, List.length_append, ← Nat.add_assoc] at hsize
      refine List.Pairwise.cons (fun line hline => ?_) (ih hsize)
      obtain ⟨before, -, -, hoffset⟩ := exists_split_of_mem_linesFrom hsize hline
      have hposition : position.toUInt32.toNat = position :=
        UInt32.toNat_ofNat_of_lt' (show position < UInt32.size by omega)
      have hpos := lineBytes_length_pos prompt
      rw [UInt32.lt_iff_toNat_lt, hposition, hoffset]
      omega

/-! ### From the start -/

theorem map_snd_lines (prompts : List Text) : (ofPrompts prompts).lines.map Prod.snd = prompts :=
  map_snd_linesFrom 0 prompts

/-- Every prompt has its line, and the line has its offset. -/
theorem exists_line_of_getElem? {prompt : Text} {i : Nat} (h : prompts[i]? = some prompt) :
    ∃ offset, (ofPrompts prompts).offsets[i]? = some offset ∧
      (offset, prompt) ∈ (ofPrompts prompts).lines := by
  rw [← map_snd_lines prompts, List.getElem?_map, Option.map_eq_some_iff] at h
  obtain ⟨line, hline, rfl⟩ := h
  refine ⟨line.1, ?_, List.mem_of_getElem? hline⟩
  rw [offsets, List.getElem?_map, hline, Option.map_some]

theorem corpus_ofPrompts (prompts : List Text) :
    (ofPrompts prompts).corpus = prompts.flatMap lineBytes := by
  rw [corpus, ← List.flatMap_map, map_snd_lines]

/-- A line stands in the corpus after as many bytes as its offset says. -/
theorem exists_split_of_mem_lines (hsize : (ofPrompts prompts).corpus.length < UInt32.size)
    (hline : line ∈ (ofPrompts prompts).lines) :
    ∃ before after, (ofPrompts prompts).corpus = before ++ (lineBytes line.2 ++ after) ∧
      line.1.toNat = before.length := by
  rw [corpus_ofPrompts, ← Nat.zero_add (List.length _)] at hsize
  obtain ⟨before, after, hsplit, hoffset⟩ := exists_split_of_mem_linesFrom hsize hline
  rw [Nat.zero_add] at hoffset
  exact ⟨before, after, (corpus_ofPrompts prompts).trans hsplit, hoffset⟩

theorem lines_ascending (hsize : (ofPrompts prompts).corpus.length < UInt32.size) :
    (ofPrompts prompts).lines.Pairwise fun line line' => line.1 < line'.1 := by
  rw [corpus_ofPrompts, ← Nat.zero_add (List.length _)] at hsize
  exact pairwise_linesFrom hsize

/-! ### Where a line starts -/

/-- The number of bytes before the line of a prompt. -/
def lineStart (prompts : List Text) (i : Nat) : Nat :=
  ((prompts.take i).flatMap lineBytes).length

theorem getElem?_linesFrom (position : Nat) (prompts : List Text) (i : Nat) :
    (linesFrom position prompts)[i]? =
      prompts[i]?.map fun prompt => ((position + lineStart prompts i).toUInt32, prompt) := by
  induction prompts generalizing position i with
  | nil => rfl
  | cons prompt prompts ih =>
      rw [linesFrom]
      cases i with
      | zero => rfl
      | succ i =>
          rw [List.getElem?_cons_succ, List.getElem?_cons_succ, ih, lineStart, lineStart,
            List.take_succ_cons, List.flatMap_cons, List.length_append, Nat.add_assoc]

theorem lineStart_le_length_corpus (prompts : List Text) (i : Nat) :
    lineStart prompts i ≤ (ofPrompts prompts).corpus.length := by
  have hsplit : (prompts.take i).flatMap lineBytes ++ (prompts.drop i).flatMap lineBytes =
      (ofPrompts prompts).corpus := by
    rw [← List.flatMap_append, List.take_append_drop, corpus_ofPrompts]
  rw [lineStart, ← hsplit, List.length_append]
  exact Nat.le_add_right _ _

theorem mem_lines_iff (hsize : (ofPrompts prompts).corpus.length < UInt32.size) :
    line ∈ (ofPrompts prompts).lines ↔
      ∃ i, prompts[i]? = some line.2 ∧ line.1.toNat = lineStart prompts i := by
  rw [List.mem_iff_getElem?]
  refine exists_congr fun i => ?_
  have hstart : lineStart prompts i < UInt32.size :=
    Nat.lt_of_le_of_lt (lineStart_le_length_corpus prompts i) hsize
  obtain ⟨offset, prompt⟩ := line
  rw [ofPrompts, getElem?_linesFrom, Nat.zero_add, Option.map_eq_some_iff]
  constructor
  · rintro ⟨_, hprompt, rfl, rfl⟩
    exact ⟨hprompt, UInt32.toNat_ofNat_of_lt' hstart⟩
  · rintro ⟨hprompt, hoffset⟩
    refine ⟨prompt, hprompt, ?_⟩
    rw [← hoffset]
    exact congrArg (·, prompt) (UInt32.ofNat_toNat)

/-! ### Some of the lines -/

theorem map_snd_filter_lines (prompts : List Text) (p : Text → Bool) :
    ((ofPrompts prompts).lines.filter fun line => p line.2).map Prod.snd = prompts.filter p := by
  conv_rhs => rw [← map_snd_lines prompts, List.filter_map]
  rfl

theorem map_fst_filter_lines_ascending
    (hsize : (ofPrompts prompts).corpus.length < UInt32.size) (p : Offset × Text → Bool) :
    (((ofPrompts prompts).lines.filter p).map Prod.fst).Pairwise (· < ·) :=
  List.pairwise_map.mpr ((lines_ascending hsize).filter p)

theorem eq_of_offset_eq (hsize : (ofPrompts prompts).corpus.length < UInt32.size)
    (hline : line ∈ (ofPrompts prompts).lines) (hline' : line' ∈ (ofPrompts prompts).lines)
    (hoffset : line.1 = line'.1) : line = line' := by
  have hnodup : ((ofPrompts prompts).lines.map Prod.fst).Nodup :=
    List.pairwise_map.mpr ((lines_ascending hsize).imp fun hlt => UInt32.ne_of_lt hlt)
  exact List.inj_on_of_nodup_map hnodup hline hline' hoffset

end TagPrompt.CorpusLayout
