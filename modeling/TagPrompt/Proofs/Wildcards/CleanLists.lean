import Mathlib.Logic.Relation
import TagPrompt.Proofs.Text.Split
import TagPrompt.Proofs.Wildcards.ListingOrder

/-! Clean lists. Lists come from the lines of texts alone, whether a name is given a text or a
directory is loaded, so whatever has been done to a store, each line in it is trimmed, not empty,
and on one line. -/

namespace TagPrompt

/-- A line as a list has it. -/
structure Text.IsListLine (line : Text) : Prop where
  ne_nil : line ≠ []
  trim_eq : Text.trim line = line
  oneLine : '\n' ∉ line

theorem Text.isListLine_of_mem_lines {line t : Text} (h : line ∈ Text.lines t) :
    line.IsListLine := by
  obtain ⟨htrimmed, hblank⟩ := List.mem_filter.mp h
  obtain ⟨piece, hpiece, rfl⟩ := List.mem_map.mp htrimmed
  rw [Bool.not_eq_true', List.isEmpty_eq_false_iff] at hblank
  refine ⟨hblank, Text.trim_trim piece, ?_⟩
  exact fun hfeed => Text.not_mem_of_mem_split hpiece (Text.mem_of_mem_trim hfeed)

namespace Wildcards

variable {files : FileTree} {directory name line : Text} {file : Bytes} {names : List Bytes}
  {w w' : Wildcards}

/-- All lines of all lists are as lists have them. -/
def IsClean (w : Wildcards) : Prop := ∀ named ∈ w.lists, ∀ line ∈ named.2, line.IsListLine

/-- What is done to a store: a name is given the lines of a text, or the lists of a directory take
the place of all others. A directory that does not load changes nothing. -/
inductive Step : Wildcards → Wildcards → Prop
  | insert (w : Wildcards) (name text : Text) : Step w (w.insert name text)
  | load (w : Wildcards) {files : FileTree} {directory : Text} {w' : Wildcards}
      (h : Loading files directory (.ok w')) : Step w w'

theorem isClean_empty : empty.IsClean := fun _ h => absurd h List.not_mem_nil

theorem IsClean.insert (h : w.IsClean) (name text : Text) : (w.insert name text).IsClean := by
  intro named hnamed
  rcases List.mem_cons.mp hnamed with rfl | hnamed
  · exact fun line hline => Text.isListLine_of_mem_lines hline
  · exact h named (List.mem_of_mem_filter hnamed)

theorem IsClean.addFile (h : w.IsClean) (hadd : addFile files directory w file = .ok w') :
    w'.IsClean := by
  cases hstem : stemText? file with
  | none =>
      cases (addFile_of_no_stem hstem w).symm.trans hadd
      exact h
  | some stem =>
      cases hread : files.readText (pathOf directory stem) with
      | error fault => exact nomatch (addFile_of_fault hstem hread w).symm.trans hadd
      | ok text =>
          cases (addFile_of_text hstem hread w).symm.trans hadd
          exact h.insert (placeholderOf stem) text

theorem IsClean.foldlM (h : w.IsClean)
    (hadd : names.foldlM (Wildcards.addFile files directory) w = .ok w') : w'.IsClean := by
  induction names generalizing w with
  | nil =>
      cases hadd
      exact h
  | cons file names ih =>
      rw [List.foldlM_cons] at hadd
      cases hfile : Wildcards.addFile files directory w file with
      | error fault =>
          rw [hfile] at hadd
          cases hadd
      | ok next =>
          rw [hfile] at hadd
          exact ih (h.addFile hfile) hadd

theorem Step.isClean (hstep : Step w w') (h : w.IsClean) : w'.IsClean := by
  cases hstep with
  | insert name text => exact h.insert name text
  | load hloading =>
      generalize houtcome : Except.ok w' = outcome at hloading
      cases hloading with
      | missing _ =>
          cases houtcome
          exact isClean_empty
      | refused _ _ => cases houtcome
      | listed _ _ => exact isClean_empty.foldlM houtcome.symm

theorem isClean_of_steps (h : Relation.ReflTransGen Step empty w) : w.IsClean := by
  induction h with
  | refl => exact isClean_empty
  | tail _ hstep ih => exact hstep.isClean ih

/-! ### Choosing -/

/-- What is chosen is a line of the list of the name. -/
theorem exists_list_of_choose {σ : Type} [ChoiceSource σ] {s : σ}
    (h : (w.choose name s).1 = some line) : ∃ list, (name, list) ∈ w.lists ∧ line ∈ list := by
  rw [choose] at h
  cases hget : w.get? name with
  | none =>
      rw [hget] at h
      cases h
  | some list =>
      obtain ⟨before, behind, hsplit, -⟩ := List.lookup_eq_some_iff.mp hget
      refine ⟨list, by simp [hsplit], ?_⟩
      rw [hget, Option.getD_some] at h
      cases list with
      | nil => cases h
      | cons first more =>
          cases h
          exact List.get_mem _ _

theorem IsClean.of_choose {σ : Type} [ChoiceSource σ] {s : σ} (hclean : w.IsClean)
    (h : (w.choose name s).1 = some line) : line.IsListLine := by
  obtain ⟨list, hlist, hline⟩ := exists_list_of_choose h
  exact hclean _ hlist line hline

end Wildcards
end TagPrompt
