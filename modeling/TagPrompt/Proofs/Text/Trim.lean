import Mathlib.Data.List.DropRight
import TagPrompt.Text.Basic

/-! Trimming. A trimmed text is an infix of the text that begins and ends with no blank, so trimming
twice is trimming once, and blanks at either side make no difference. -/

namespace TagPrompt.Text

theorem trimStart_isSuffix (t : Text) : trimStart t <:+ t := List.dropWhile_suffix isBlank

theorem trimEnd_isPrefix (t : Text) : trimEnd t <+: t := List.rdropWhile_prefix isBlank t

theorem trim_isInfix (t : Text) : trim t <:+: t :=
  (trimEnd_isPrefix (trimStart t)).isInfix.trans (trimStart_isSuffix t).isInfix

theorem mem_of_mem_trim {c : Char} {t : Text} (h : c ∈ trim t) : c ∈ t := (trim_isInfix t).mem h

theorem trimStart_trimStart (t : Text) : trimStart (trimStart t) = trimStart t :=
  List.dropWhile_idempotent isBlank t

theorem trimEnd_trimEnd (t : Text) : trimEnd (trimEnd t) = trimEnd t :=
  List.rdropWhile_idempotent isBlank t

/-- What is cut off at the end does not uncover a blank in front. -/
theorem trimStart_trim (t : Text) : trimStart (trim t) = trim t := by
  have hstart := trimStart_trimStart t
  obtain ⟨rest, hrest⟩ := trimEnd_isPrefix (trimStart t)
  unfold trim
  cases hword : trimEnd (trimStart t) with
  | nil => rfl
  | cons c word =>
      rw [hword] at hrest
      rw [← hrest, List.cons_append, trimStart, List.dropWhile_cons] at hstart
      rw [trimStart, List.dropWhile_cons]
      split at hstart
      · have hlength := (List.dropWhile_suffix isBlank (l := word ++ rest)).length_le
        rw [hstart, List.length_cons] at hlength
        omega
      · rename_i hblank
        rw [if_neg hblank]

theorem trim_trim (t : Text) : trim (trim t) = trim t := by
  rw [trim, trimStart_trim, trim, trimEnd_trimEnd]

theorem trim_cons {c : Char} (h : isBlank c = true) (t : Text) : trim (c :: t) = trim t := by
  rw [trim, trimStart, List.dropWhile_cons_of_pos h, ← trimStart, ← trim]

theorem trim_concat {c : Char} (h : isBlank c = true) (t : Text) : trim (t ++ [c]) = trim t := by
  unfold trim trimStart
  rw [List.dropWhile_append]
  cases hrest : t.dropWhile isBlank with
  | nil =>
      rw [List.isEmpty_nil, if_pos rfl, List.dropWhile_cons_of_pos h, List.dropWhile_nil]
  | cons d rest =>
      rw [List.isEmpty_cons, if_neg Bool.false_ne_true]
      exact List.rdropWhile_concat_pos isBlank _ c h

theorem trim_append_of_blank_front {blanks : Text} (h : ∀ c ∈ blanks, isBlank c = true) (t : Text) :
    trim (blanks ++ t) = trim t := by
  induction blanks with
  | nil => rfl
  | cons c blanks ih =>
      obtain ⟨hc, hblanks⟩ := List.forall_mem_cons.mp h
      rw [List.cons_append, trim_cons hc, ih hblanks]

theorem trim_append_of_blank_back {blanks : Text} (h : ∀ c ∈ blanks, isBlank c = true) (t : Text) :
    trim (t ++ blanks) = trim t := by
  induction blanks generalizing t with
  | nil => rw [List.append_nil]
  | cons c blanks ih =>
      obtain ⟨hc, hblanks⟩ := List.forall_mem_cons.mp h
      rw [List.append_cons, ih hblanks, trim_concat hc]

theorem trim_of_blank {blanks : Text} (h : ∀ c ∈ blanks, isBlank c = true) : trim blanks = [] := by
  have htrim := trim_append_of_blank_front h []
  rwa [List.append_nil] at htrim

/-! ### One side at a time -/

theorem trimEnd_cons (c : Char) (t : Text) :
    trimEnd (c :: t) = if isBlank c = true ∧ trimEnd t = [] then [] else c :: trimEnd t := by
  unfold trimEnd
  rw [List.reverse_cons, List.dropWhile_append]
  cases hrest : t.reverse.dropWhile isBlank with
  | nil => cases hc : isBlank c <;> simp [hc]
  | cons d rest => simp

theorem trimEnd_trimStart (t : Text) : trimEnd (trimStart t) = trimStart (trimEnd t) := by
  induction t with
  | nil => rfl
  | cons c t ih =>
      rw [trimEnd_cons]
      cases hc : isBlank c with
      | true =>
          rw [trimStart, List.dropWhile_cons_of_pos hc, ← trimStart, ih]
          split_ifs with hend
          · rw [hend.2]
          · rw [trimStart, trimStart, List.dropWhile_cons_of_pos hc]
      | false =>
          have hc' : ¬isBlank c = true := Bool.eq_false_iff.mp hc
          rw [if_neg (by simp), trimStart, trimStart, List.dropWhile_cons_of_neg hc',
            List.dropWhile_cons_of_neg hc', trimEnd_cons, if_neg (by simp [hc])]

theorem trim_trimEnd (t : Text) : trim (trimEnd t) = trim t := by
  rw [trim, ← trimEnd_trimStart, trimEnd_trimEnd, ← trim]

theorem trim_cons_of_not_blank {c : Char} (h : isBlank c = false) (t : Text) :
    trim (c :: t) = c :: trimEnd t := by
  rw [trim, trimStart, List.dropWhile_cons_of_neg (Bool.eq_false_iff.mp h), trimEnd_cons,
    if_neg (by simp [h])]

end TagPrompt.Text
