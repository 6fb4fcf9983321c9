import Mathlib.Data.List.Count
import TagPrompt.Prompt.Basic

/-! What removal leaves of a prompt. Every entry of a list deletes at most one tag, the first that
still has its text, so a prompt keeps those of its tags by which a text occurs in it more often than
in the list. Removing by several lists is removing by all their entries. -/

namespace TagPrompt.Prompt

variable {p : Prompt} {listed : List Text} {text : Text}

theorem texts_removeOne (p : Prompt) (text : Text) :
    (p.removeOne text).texts = p.texts.erase text := by
  induction p with
  | nil => rfl
  | cons tag p ih =>
      rw [texts, texts, removeOne, List.eraseP_cons, List.map_cons, List.erase_cons]
      cases tag.text == text with
      | true => rfl
      | false => exact congrArg (tag.text :: ·) ih

theorem texts_remove (p : Prompt) (listed : List Text) :
    (p.remove listed).texts = p.texts.diff listed := by
  induction listed generalizing p with
  | nil => rfl
  | cons text listed ih =>
      calc (p.remove (text :: listed)).texts
        _ = ((p.removeOne text).remove listed).texts := rfl
        _ = (p.removeOne text).texts.diff listed := ih _
        _ = (p.texts.erase text).diff listed := by rw [texts_removeOne]
        _ = p.texts.diff (text :: listed) := (List.diff_cons ..).symm

theorem remove_append (p : Prompt) (listed listed' : List Text) :
    p.remove (listed ++ listed') = (p.remove listed).remove listed' :=
  List.foldl_append

theorem foldl_remove (p : Prompt) (lists : List (List Text)) :
    lists.foldl remove p = p.remove lists.flatten := by
  induction lists generalizing p with
  | nil => rfl
  | cons listed lists ih => rw [List.foldl_cons, ih, List.flatten_cons, remove_append]

/-- Of each text, as many tags are left as the list has fewer entries. -/
theorem count_remove (p : Prompt) (listed : List Text) (text : Text) :
    (p.remove listed).texts.count text = p.texts.count text - listed.count text := by
  rw [texts_remove, List.count_diff]

theorem remove_sublist (p : Prompt) (listed : List Text) : (p.remove listed).Sublist p := by
  induction listed generalizing p with
  | nil => exact List.Sublist.refl p
  | cons text listed ih => exact (ih (p.removeOne text)).trans List.eraseP_sublist

theorem texts_keepListed (p : Prompt) (listed : List Text) :
    (p.keepListed listed).texts = p.texts.filter listed.contains := by
  rw [texts, texts, keepListed, List.filter_map]
  rfl

theorem mem_texts_iff : text ∈ p.texts ↔ p.mentions text = true := by
  simp only [texts, mentions, List.mem_map, List.any_eq_true, beq_iff_eq]

end TagPrompt.Prompt
