import Mathlib.Tactic.SplitIfs
import TagPrompt.Expansion.Group

/-! Expanding groups. The expansion of a text is given by its first character: it stands for itself,
unless it opens a group that closes. So what follows a text has no part in the expansion of the text,
as long as it opens and closes no group. -/

namespace TagPrompt

variable {σ : Type} [ChoiceSource σ] {text ending rest : Text} {c : Char}

/-! ### Reading a group -/

namespace ChoiceGroup

theorem readFrom_of_not_mem (hclose : '>' ∉ text) (depth : Nat) (held : Text) (done : List Text) :
    readFrom depth held done text = none := by
  induction text generalizing depth held done with
  | nil => rfl
  | cons c rest ih =>
      obtain ⟨hc, hrest⟩ := not_or.mp (mt List.mem_cons.mpr hclose)
      simp only [readFrom, if_neg (Ne.symm hc)]
      split_ifs
      · exact ih hrest _ _ _
      · exact ih hrest _ _ _
      · exact ih hrest _ _ _

/-- Text behind a group stays behind it; it closes no group that the text leaves open. -/
theorem readFrom_append (hclose : '>' ∉ ending) (depth : Nat) (held : Text) (done : List Text)
    (text : Text) :
    readFrom depth held done (text ++ ending) =
      (readFrom depth held done text).map fun group => { group with after := group.after ++ ending }
      := by
  induction text generalizing depth held done with
  | nil => exact readFrom_of_not_mem hclose depth held done
  | cons c rest ih =>
      simp only [List.cons_append, readFrom]
      split_ifs
      · exact ih _ _ _
      · cases depth with
        | zero => cases done.reverse <;> rfl
        | succ inner => exact ih _ _ _
      · exact ih _ _ _
      · exact ih _ _ _

end ChoiceGroup

/-! ### One character after another -/

theorem expandGroups_nil (s : σ) : expandGroups [] s = ([], s) := by
  rw [expandGroups]

theorem expandGroups_cons (hc : c ≠ '<') (rest : Text) (s : σ) :
    expandGroups (c :: rest) s = (c :: (expandGroups rest s).1, (expandGroups rest s).2) := by
  rw [expandGroups, if_neg hc]

/-- A group that never closes ends the expansion. -/
theorem expandGroups_open (h : ChoiceGroup.read? rest = none) (s : σ) :
    expandGroups ('<' :: rest) s = ('<' :: rest, s) := by
  rw [expandGroups, if_pos rfl]
  split
  · rfl
  · rename_i group hgroup
    rw [h] at hgroup
    cases hgroup

/-- The expansion goes on with the chosen alternative in place of the group. -/
theorem expandGroups_group {group : ChoiceGroup} (h : ChoiceGroup.read? rest = some group) (s : σ) :
    expandGroups ('<' :: rest) s =
      expandGroups ((ChoiceSource.pickOne group.first group.more s).1 ++ group.after)
        (ChoiceSource.pickOne group.first group.more s).2 := by
  rw [expandGroups, if_pos rfl]
  split
  · rename_i hnone
    rw [h] at hnone
    cases hnone
  · rename_i group' hgroup
    rw [h] at hgroup
    cases hgroup
    rfl

/-! ### What follows a text -/

theorem expandGroups_of_not_mem (hopen : '<' ∉ text) (s : σ) : expandGroups text s = (text, s) := by
  induction text with
  | nil => exact expandGroups_nil s
  | cons c rest ih =>
      obtain ⟨hc, hrest⟩ := not_or.mp (mt List.mem_cons.mpr hopen)
      rw [expandGroups_cons (Ne.symm hc), ih hrest]

theorem read?_append (hclose : '>' ∉ ending) (rest : Text) :
    ChoiceGroup.read? (rest ++ ending) =
      (ChoiceGroup.read? rest).map fun group => { group with after := group.after ++ ending } :=
  ChoiceGroup.readFrom_append hclose 0 [] [] rest

/-- What opens and closes no group stays behind the expansion of the text before it. -/
theorem expandGroups_append (hopen : '<' ∉ ending) (hclose : '>' ∉ ending) (text : Text) (s : σ) :
    expandGroups (text ++ ending) s =
      ((expandGroups text s).1 ++ ending, (expandGroups text s).2) := by
  fun_induction expandGroups text s with
  | case1 s => exact expandGroups_of_not_mem hopen s
  | case2 s rest hnone =>
      have hread : ChoiceGroup.read? (rest ++ ending) = none := by
        rw [read?_append hclose, hnone, Option.map_none]
      exact expandGroups_open hread s
  | case3 s rest group hgroup choice _ ih =>
      have hread : ChoiceGroup.read? (rest ++ ending) =
          some { group with after := group.after ++ ending } := by
        rw [read?_append hclose, hgroup, Option.map_some]
      rw [List.cons_append, expandGroups_group hread, ← List.append_assoc]
      exact ih
  | case4 s c rest hc expanded s' hrest ih =>
      rw [List.cons_append, expandGroups_cons hc, ih, hrest, List.cons_append]

end TagPrompt
