import Mathlib.Data.List.TakeDrop
import TagPrompt.Proofs.Text.Trim

/-! Cutting at a separator and joining with it. Pieces without the separator come back from the text
they are joined to, so joining is injective on them. -/

namespace TagPrompt.Text

/-! ### Cutting -/

theorem after?_append (lead rest : Text) : after? lead (lead ++ rest) = some rest := by
  induction lead with
  | nil => rfl
  | cons c lead ih => rw [List.cons_append, after?, if_pos rfl, ih]

theorem after?_eq_some_iff {lead t rest : Text} : after? lead t = some rest ↔ t = lead ++ rest := by
  induction lead generalizing t with
  | nil => simp [after?]
  | cons c lead ih =>
      cases t with
      | nil => simp [after?]
      | cons d t =>
          rw [after?]
          split_ifs with hc
          · simp [ih, hc]
          · simp [Ne.symm hc]

theorem span_append {p : Char → Bool} {front : Text} (h : ∀ c ∈ front, p c = true) {c : Char}
    (hc : p c = false) (rest : Text) : (front ++ c :: rest).span p = (front, c :: rest) := by
  rw [List.span_eq_takeWhile_dropWhile, List.takeWhile_append_of_pos h,
    List.dropWhile_append_of_pos h, List.takeWhile_cons_of_neg (Bool.eq_false_iff.mp hc),
    List.dropWhile_cons_of_neg (Bool.eq_false_iff.mp hc), List.append_nil]

theorem split_separator (separator : Char) (rest : Text) :
    split separator (separator :: rest) = [] :: split separator rest := by
  rw [split, if_pos rfl]

theorem split_ne_nil (separator : Char) (t : Text) : split separator t ≠ [] := by
  cases t with
  | nil => exact List.cons_ne_nil [] []
  | cons c rest =>
      rw [split]
      split_ifs
      · exact List.cons_ne_nil [] _
      · split <;> exact List.cons_ne_nil _ _

theorem split_cons {separator c : Char} (h : c ≠ separator) {rest piece : Text}
    {pieces : List Text} (hrest : split separator rest = piece :: pieces) :
    split separator (c :: rest) = (c :: piece) :: pieces := by
  rw [split, if_neg h, hrest]

/-- Characters without the separator go to the front of the first piece. -/
theorem split_append {separator : Char} {front : Text} (h : separator ∉ front)
    {rest piece : Text} {pieces : List Text} (hrest : split separator rest = piece :: pieces) :
    split separator (front ++ rest) = (front ++ piece) :: pieces := by
  induction front with
  | nil => exact hrest
  | cons c front ih =>
      obtain ⟨hc, hfront⟩ := List.ne_and_not_mem_of_not_mem_cons h
      exact split_cons hc.symm (ih hfront)

theorem split_of_not_mem {separator : Char} {t : Text} (h : separator ∉ t) :
    split separator t = [t] := by
  have hsplit := split_append h (show split separator [] = [[]] from rfl)
  rwa [List.append_nil] at hsplit

theorem not_mem_of_mem_split {separator : Char} {t piece : Text} (h : piece ∈ split separator t) :
    separator ∉ piece := by
  induction t generalizing piece with
  | nil =>
      obtain rfl := List.mem_singleton.mp h
      exact List.not_mem_nil
  | cons c t ih =>
      by_cases hc : c = separator
      · rw [hc, split_separator] at h
        rcases List.mem_cons.mp h with rfl | h
        · exact List.not_mem_nil
        · exact ih h
      · obtain ⟨first, rest, hrest⟩ := List.exists_cons_of_ne_nil (split_ne_nil separator t)
        rw [hrest] at ih
        rw [split_cons hc hrest] at h
        rcases List.mem_cons.mp h with rfl | h
        · exact List.not_mem_cons_of_ne_of_not_mem (Ne.symm hc) (ih List.mem_cons_self)
        · exact ih (List.mem_cons_of_mem first h)

theorem length_split (separator : Char) (t : Text) :
    (split separator t).length = t.count separator + 1 := by
  induction t with
  | nil => rfl
  | cons c t ih =>
      by_cases hc : c = separator
      · rw [hc, split_separator, List.length_cons, ih, List.count_cons_self]
      · obtain ⟨first, rest, hrest⟩ := List.exists_cons_of_ne_nil (split_ne_nil separator t)
        rw [hrest] at ih
        rw [split_cons hc hrest, List.count_cons_of_ne hc, ← ih, List.length_cons, List.length_cons]

theorem length_split_le (separator : Char) (t : Text) :
    (split separator t).length ≤ t.length + 1 := by
  rw [length_split]
  exact Nat.succ_le_succ List.count_le_length

theorem split_append_separator {separator : Char} {front : Text} (h : separator ∉ front)
    (rest : Text) :
    split separator (front ++ separator :: rest) = front :: split separator rest := by
  have hsplit := split_append h (split_separator separator rest)
  rwa [List.append_nil] at hsplit

/-! ### Joining -/

theorem join_cons_cons (separator piece next : Text) (rest : List Text) :
    join separator (piece :: next :: rest) = piece ++ separator ++ join separator (next :: rest) :=
  rfl

theorem mem_of_mem_join {separator : Text} {pieces : List Text} {c : Char}
    (h : c ∈ join separator pieces) : c ∈ separator ∨ ∃ piece ∈ pieces, c ∈ piece := by
  induction pieces with
  | nil => exact absurd h List.not_mem_nil
  | cons piece pieces ih =>
      cases pieces with
      | nil => exact Or.inr ⟨piece, List.mem_cons_self, h⟩
      | cons next rest =>
          rw [join_cons_cons, List.mem_append, List.mem_append] at h
          rcases h with (h | h) | h
          · exact Or.inr ⟨piece, List.mem_cons_self, h⟩
          · exact Or.inl h
          · rcases ih h with h | ⟨found, hfound, h⟩
            · exact Or.inl h
            · exact Or.inr ⟨found, List.mem_cons_of_mem piece hfound, h⟩

theorem join_split (separator : Char) (t : Text) :
    join [separator] (split separator t) = t := by
  induction t with
  | nil => rfl
  | cons c rest ih =>
      obtain ⟨piece, pieces, hrest⟩ := List.exists_cons_of_ne_nil (split_ne_nil separator rest)
      rw [hrest] at ih
      by_cases hc : c = separator
      · rw [hc, split_separator, hrest, join_cons_cons, ih]
        rfl
      · rw [split_cons hc hrest]
        cases pieces with
        | nil => exact congrArg (c :: ·) ih
        | cons next pieces =>
            rw [join_cons_cons] at ih ⊢
            rw [← ih, List.cons_append, List.cons_append]

theorem split_join {separator : Char} {piece : Text} {pieces : List Text}
    (h : ∀ p ∈ piece :: pieces, separator ∉ p) :
    split separator (join [separator] (piece :: pieces)) = piece :: pieces := by
  induction pieces generalizing piece with
  | nil => exact split_of_not_mem (h piece List.mem_cons_self)
  | cons next rest ih =>
      obtain ⟨hpiece, hrest⟩ := List.forall_mem_cons.mp h
      rw [join_cons_cons, List.append_assoc, List.singleton_append, split_append_separator hpiece,
        ih hrest]

theorem join_cons_ne_nil {separator piece : Text} (h : piece ≠ []) (pieces : List Text) :
    join separator (piece :: pieces) ≠ [] := by
  cases pieces with
  | nil => exact h
  | cons next rest =>
      rw [join_cons_cons]
      simp [h]

/-- Pieces that are not empty and free of the separator are known by the text they are joined to. -/
theorem join_injective {separator : Char} {pieces pieces' : List Text}
    (hne : ∀ p ∈ pieces, p ≠ []) (hne' : ∀ p ∈ pieces', p ≠ [])
    (hfree : ∀ p ∈ pieces, separator ∉ p) (hfree' : ∀ p ∈ pieces', separator ∉ p)
    (h : join [separator] pieces = join [separator] pieces') : pieces = pieces' := by
  cases pieces with
  | nil =>
      cases pieces' with
      | nil => rfl
      | cons piece' rest' =>
          exact absurd h.symm (join_cons_ne_nil (hne' piece' List.mem_cons_self) rest')
  | cons piece rest =>
      cases pieces' with
      | nil => exact absurd h (join_cons_ne_nil (hne piece List.mem_cons_self) rest)
      | cons piece' rest' => rw [← split_join hfree, ← split_join hfree', h]

/-! ### The parts between commas

A carriage return at the end of a text is blank, so the trimmed parts are the same with it and
without it. -/

/-- The comma-separated parts of a text, trimmed, blank parts included. -/
def trimmedParts (t : Text) : List Text := (split ',' t).map trim

/-- A text without the carriage return at its end, if there is one. -/
def withoutReturn (t : Text) : Text := if t.getLast? = some '\r' then t.dropLast else t

theorem mem_parts {t part : Text} : part ∈ parts t ↔ part ∈ trimmedParts t ∧ part ≠ [] := by
  rw [parts, List.mem_filter, trimmedParts, Bool.not_eq_true', List.isEmpty_eq_false_iff]

/-- A character that is no separator goes to the end of the last piece. -/
theorem split_concat {separator c : Char} (h : c ≠ separator) (t : Text) :
    ∃ front last, split separator t = front ++ [last] ∧
      split separator (t ++ [c]) = front ++ [last ++ [c]] := by
  induction t with
  | nil => exact ⟨[], [], rfl, split_cons h (show split separator [] = [[]] from rfl)⟩
  | cons d t ih =>
      obtain ⟨front, last, ht, htc⟩ := ih
      by_cases hd : d = separator
      · subst hd
        refine ⟨[] :: front, last, ?_, ?_⟩
        · rw [split_separator, ht, List.cons_append]
        · rw [List.cons_append, split_separator, htc, List.cons_append]
      · cases front with
        | nil => exact ⟨[], d :: last, split_cons hd ht, split_cons hd htc⟩
        | cons piece pieces =>
            exact ⟨(d :: piece) :: pieces, last, split_cons hd ht, split_cons hd htc⟩

theorem trimmedParts_concat {c : Char} (hcomma : c ≠ ',') (hblank : isBlank c = true) (t : Text) :
    trimmedParts (t ++ [c]) = trimmedParts t := by
  obtain ⟨front, last, ht, htc⟩ := split_concat hcomma t
  rw [trimmedParts, trimmedParts, ht, htc, List.map_append, List.map_append, List.map_singleton,
    List.map_singleton, trim_concat hblank]

theorem withoutReturn_concat (t : Text) : withoutReturn (t ++ ['\r']) = t := by
  rw [withoutReturn, List.getLast?_concat, if_pos rfl, List.dropLast_concat]

theorem withoutReturn_of_ne {t : Text} (h : t.getLast? ≠ some '\r') : withoutReturn t = t := by
  rw [withoutReturn, if_neg h]

theorem trimmedParts_withoutReturn (t : Text) :
    trimmedParts (withoutReturn t) = trimmedParts t := by
  by_cases h : t.getLast? = some '\r'
  · obtain ⟨front, rfl⟩ := List.getLast?_eq_some_iff.mp h
    rw [withoutReturn_concat, trimmedParts_concat (by decide) (by decide)]
  · rw [withoutReturn_of_ne h]

end TagPrompt.Text
