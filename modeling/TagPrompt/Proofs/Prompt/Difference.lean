import TagPrompt.Generation.Filtering
import TagPrompt.Proofs.Prompt.Removal

/-! Removal as a difference of multisets. A tag stays if as many tags of its text stand in front of
it as the list has entries with that text, so of each text the earliest tags go. This counts entries
and does not ask for their order, so lists can be gone through in any order, each of them and one
after another. -/

namespace TagPrompt

namespace Prompt

variable {p : Prompt} {tag : Tag} {listed listed' : List Text} {lists lists' : List (List Text)}

/-- The tags that stand behind as many tags of their text as the list has entries with it. -/
def survivors (p : Prompt) (listed : List Text) : Prompt :=
  (p.zipIdx.filter fun placed =>
    listed.count placed.1.text ≤ (p.texts.take placed.2).count placed.1.text).map Prod.fst

/-! ### Which tags stay -/

/-- The first tag goes for an entry with its text; the other entries are left for the rest. -/
theorem remove_cons (tag : Tag) (p : Prompt) (listed : List Text) :
    remove (tag :: p) listed =
      if tag.text ∈ listed then p.remove (listed.erase tag.text) else tag :: p.remove listed := by
  induction listed generalizing p with
  | nil => rfl
  | cons text listed ih =>
      have hstep : remove (tag :: p) (text :: listed) =
          remove (removeOne (tag :: p) text) listed := rfl
      rw [hstep, removeOne, List.eraseP_cons]
      by_cases htext : tag.text = text
      · subst htext
        simp
      · have hne : (tag.text == text) = false := beq_false_of_ne htext
        have hne' : (text == tag.text) = false := beq_false_of_ne (Ne.symm htext)
        rw [hne, cond_false, ih, List.erase_cons, hne', if_neg Bool.false_ne_true]
        simp only [List.mem_cons, htext, false_or]
        rfl

/-- Behind a front that some entries have been used up for, the tags that stay are found by counting
in the whole prompt. -/
theorem remove_eq_filter (front p : Prompt)
    (hleft : ∀ text, listed'.count text = listed.count text - front.texts.count text) :
    p.remove listed' =
      ((p.zipIdx front.length).filter fun placed =>
        listed.count placed.1.text ≤
          ((front ++ p).texts.take placed.2).count placed.1.text).map Prod.fst := by
  induction p generalizing front listed' with
  | nil => exact List.sublist_nil.mp (remove_sublist [] listed')
  | cons tag rest ih =>
      have hfront : (front ++ tag :: rest).texts.take front.length = front.texts := by
        rw [texts, List.map_append, List.take_left' (List.length_map _), texts]
      have hnext : front ++ tag :: rest = (front ++ [tag]) ++ rest := by simp
      have hmove : front.length + 1 = (front ++ [tag]).length := by simp
      have hcount : ∀ text, (front ++ [tag]).texts.count text =
          front.texts.count text + if tag.text = text then 1 else 0 := by
        intro text
        rw [texts, List.map_append, List.count_append, ← texts, List.map_singleton,
          List.count_singleton]
        simp only [beq_iff_eq]
      have hmem : tag.text ∈ listed' ↔ ¬listed.count tag.text ≤ front.texts.count tag.text := by
        rw [← List.count_pos_iff, hleft]
        omega
      rw [remove_cons, List.zipIdx_cons, List.filter_cons, hfront, hmove]
      by_cases hlisted : tag.text ∈ listed'
      · rw [if_pos hlisted, if_neg (by simpa using hmem.mp hlisted), hnext]
        apply ih
        intro text
        rw [List.count_erase, hleft, hcount]
        simp only [beq_iff_eq]
        omega
      · have hstays := not_not.mp (mt hmem.mpr hlisted)
        rw [if_neg hlisted, if_pos (by simpa using hstays), List.map_cons, hnext, ih]
        intro text
        rw [hleft, hcount]
        split_ifs with htext
        · subst htext
          omega
        · rfl

theorem remove_eq_survivors (p : Prompt) (listed : List Text) :
    p.remove listed = p.survivors listed :=
  remove_eq_filter [] p fun _ => rfl

/-! ### The order of the entries -/

theorem remove_perm (h : listed.Perm listed') (p : Prompt) :
    p.remove listed = p.remove listed' := by
  simp only [remove_eq_survivors, survivors, h.count_eq]

theorem foldl_remove_perm (h : lists.Perm lists') (p : Prompt) :
    lists.foldl remove p = lists'.foldl remove p := by
  rw [foldl_remove, foldl_remove, remove_perm h.flatten]

end Prompt

/-- The lists by which a found prompt is filtered, in the order in which they go. -/
def filterLists (options : GenerationOptions) (categories : Categories) (around : Surroundings) :
    List (List Text) :=
  removedLists options categories ++
    [ratings.map RatingNames.long, categories.bad, around.beginning.texts, around.ending.texts,
      around.negative.texts]

theorem filterFound_eq_foldl (options : GenerationOptions) (categories : Categories)
    (around : Surroundings) (found : Prompt) :
    filterFound options categories around found =
      (filterLists options categories around).foldl Prompt.remove
        (keepWhitelisted categories found) := by
  rw [filterLists, List.foldl_append]
  rfl

/-- **Removal is a difference of multisets.** Of each text, a list takes as many tags from a prompt
as it has entries, or all that there are, and those are the earliest ones; the others keep their
order and their levels. The order of the entries has no part in this, so a found prompt is filtered
alike in whatever order the lists go. -/
theorem removal_is_difference (p : Prompt) (listed : List Text) :
    (∀ text, (p.remove listed).texts.count text = p.texts.count text - listed.count text) ∧
      p.remove listed = p.survivors listed ∧
      (p.remove listed).Sublist p ∧
      (∀ listed', listed'.Perm listed → p.remove listed' = p.remove listed) ∧
      ∀ options categories around (lists : List (List Text)),
        lists.Perm (filterLists options categories around) →
          lists.foldl Prompt.remove (keepWhitelisted categories p) =
            filterFound options categories around p := by
  refine ⟨Prompt.count_remove p listed, Prompt.remove_eq_survivors p listed,
    Prompt.remove_sublist p listed, fun listed' h => Prompt.remove_perm h p,
    fun options categories around lists h => ?_⟩
  rw [filterFound_eq_foldl]
  exact Prompt.foldl_remove_perm h _

/-- The earliest tags of a text go, whichever entries come first. -/
example :
    let p : Prompt := [⟨['a'], 1⟩, ⟨['b'], 0⟩, ⟨['a'], -1⟩, ⟨['a'], 2⟩]
    p.remove [['a'], ['c'], ['a']] = [⟨['b'], 0⟩, ⟨['a'], 2⟩] := by
  decide

end TagPrompt
