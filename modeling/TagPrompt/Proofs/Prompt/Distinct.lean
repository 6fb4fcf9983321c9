import Mathlib.Data.List.Nodup
import Mathlib.Tactic.SplitIfs
import TagPrompt.Prompt.Basic

/-! Dropping repeated tags. What stays of a prompt are the tags that stand where their texts occur
first, so every text stays once, with the level that it has there. -/

namespace TagPrompt.Prompt

/-- The tags that stand where their texts occur first. -/
def firstOccurrences (p : Prompt) : Prompt :=
  (p.zipIdx.filter fun placed => p.texts.idxOf placed.1.text == placed.2).map Prod.fst

variable {p : Prompt} {seen : List Text} {tag : Tag} {text : Text}

/-! ### What stays -/

/-- A tag stays if it is the first one with its text, and the text has not been seen. -/
theorem mem_distinctFrom_iff :
    tag ∈ distinctFrom seen p ↔
      tag.text ∉ seen ∧ p.find? (fun other => other.text == tag.text) = some tag := by
  induction p generalizing seen with
  | nil => simp [distinctFrom]
  | cons first rest ih =>
      rw [distinctFrom, List.find?_cons]
      by_cases hseen : first.text ∈ seen
      · rw [if_pos (List.contains_iff_mem.mpr hseen), ih]
        apply and_congr_right
        intro hnew
        have hne : (first.text == tag.text) = false := by
          apply beq_false_of_ne
          intro heq
          exact hnew (heq ▸ hseen)
        rw [hne]
      · rw [if_neg (mt List.contains_iff_mem.mp hseen), List.mem_cons, ih]
        by_cases heq : first.text = tag.text
        · simp [← heq, hseen, eq_comm]
        · have hne : tag ≠ first := by
            rintro rfl
            exact heq rfl
          simp [hne, Ne.symm heq, beq_false_of_ne heq]

theorem mem_distinct_iff :
    tag ∈ p.distinct ↔ p.find? (fun other => other.text == tag.text) = some tag := by
  simp [distinct, mem_distinctFrom_iff]

theorem mem_texts_distinct : text ∈ p.distinct.texts ↔ text ∈ p.texts := by
  simp only [texts, List.mem_map]
  constructor
  · rintro ⟨tag, htag, rfl⟩
    exact ⟨tag, List.mem_of_find?_eq_some (mem_distinct_iff.mp htag), rfl⟩
  · rintro ⟨tag, htag, rfl⟩
    have hsome : (p.find? fun other => other.text == tag.text).isSome :=
      List.find?_isSome.mpr ⟨tag, htag, beq_self_eq_true tag.text⟩
    obtain ⟨first, hfirst⟩ := Option.isSome_iff_exists.mp hsome
    have heq : first.text = tag.text := by simpa using List.find?_some hfirst
    exact ⟨first, mem_distinct_iff.mpr (heq ▸ hfirst), heq⟩

theorem nodup_texts_distinctFrom (seen : List Text) (p : Prompt) :
    (distinctFrom seen p).texts.Nodup := by
  induction p generalizing seen with
  | nil => exact List.nodup_nil
  | cons first rest ih =>
      rw [distinctFrom]
      split_ifs with hseen
      · exact ih seen
      · rw [texts, List.map_cons, List.nodup_cons]
        refine ⟨fun hmem => ?_, ih (first.text :: seen)⟩
        obtain ⟨tag, htag, heq⟩ := List.mem_map.mp hmem
        exact (mem_distinctFrom_iff.mp htag).1 (heq ▸ List.mem_cons_self)

theorem nodup_texts_distinct (p : Prompt) : p.distinct.texts.Nodup := nodup_texts_distinctFrom [] p

theorem distinctFrom_of_nodup (hnodup : p.texts.Nodup) (hseen : ∀ text ∈ p.texts, text ∉ seen) :
    distinctFrom seen p = p := by
  induction p generalizing seen with
  | nil => rfl
  | cons first rest ih =>
      rw [texts, List.map_cons] at hnodup hseen
      obtain ⟨hfirst, hrest⟩ := List.nodup_cons.mp hnodup
      obtain ⟨hnew, hnews⟩ := List.forall_mem_cons.mp hseen
      rw [distinctFrom, if_neg (mt List.contains_iff_mem.mp hnew), ih hrest]
      intro text htext
      apply mt List.mem_cons.mp
      rintro (rfl | hmem)
      · exact hfirst htext
      · exact hnews text htext hmem

/-- Only a prompt that repeats no text has nothing to drop. -/
theorem distinct_eq_self_iff : p.distinct = p ↔ p.texts.Nodup := by
  constructor
  · intro h
    rw [← h]
    exact nodup_texts_distinct p
  · intro h
    exact distinctFrom_of_nodup h fun _ _ => List.not_mem_nil

/-! ### Where it stood -/

/-- Behind a front with the texts that have been seen, the tags that stay are those at the first
places of their texts in the whole prompt. -/
theorem distinctFrom_eq_filter (front p : Prompt)
    (hseen : ∀ text, text ∈ seen ↔ text ∈ front.texts) :
    distinctFrom seen p =
      ((p.zipIdx front.length).filter fun placed =>
        (front ++ p).texts.idxOf placed.1.text == placed.2).map Prod.fst := by
  induction p generalizing front seen with
  | nil => rfl
  | cons first rest ih =>
      have htexts : (front ++ first :: rest).texts = front.texts ++ first.text :: texts rest := by
        simp [texts]
      have hnext : front ++ first :: rest = (front ++ [first]) ++ rest := by simp
      have hmove : front.length + 1 = (front ++ [first]).length := by simp
      have hlength : front.texts.length = front.length := List.length_map ..
      have hseen' : ∀ text, text ∈ first.text :: seen ↔ text ∈ (front ++ [first]).texts := by
        intro text
        rw [List.mem_cons, hseen, texts, texts, List.map_append, List.mem_append, or_comm]
        simp
      rw [distinctFrom, List.zipIdx_cons, List.filter_cons, hmove]
      by_cases hmem : first.text ∈ front.texts
      · have hbefore : (front ++ first :: rest).texts.idxOf first.text ≠ front.length := by
          rw [htexts, List.idxOf_append_of_mem hmem, ← hlength]
          exact Nat.ne_of_lt (List.idxOf_lt_length_of_mem hmem)
        rw [if_pos (List.contains_iff_mem.mpr ((hseen _).mpr hmem)),
          if_neg (by simpa using hbefore), hnext]
        apply ih
        intro text
        rw [← hseen', List.mem_cons]
        refine ⟨Or.inr, ?_⟩
        rintro (rfl | h)
        · exact (hseen _).mpr hmem
        · exact h
      · have hhere : (front ++ first :: rest).texts.idxOf first.text = front.length := by
          rw [htexts, List.idxOf_append_of_notMem hmem, List.idxOf_cons_self, Nat.add_zero, hlength]
        rw [if_neg (mt List.contains_iff_mem.mp (mt (hseen _).mp hmem)),
          if_pos (by simpa using hhere), List.map_cons, hnext, ih _ hseen']

theorem distinct_eq_firstOccurrences (p : Prompt) : p.distinct = p.firstOccurrences :=
  distinctFrom_eq_filter [] p fun _ => Iff.rfl

end TagPrompt.Prompt
