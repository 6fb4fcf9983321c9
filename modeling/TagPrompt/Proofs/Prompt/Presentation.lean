import Mathlib.Data.Prod.Lex
import TagPrompt.Proofs.Prompt.Arranging
import TagPrompt.Proofs.Prompt.StableSort

/-! The presentation order as a sort. A tag belongs to the part of the first list that has it, and
within the part to the first place where the list has it. Moving tags out list by list brings them in
this order and changes nothing else, although the quality tags are moved out before the tags of no
list and put behind them. -/

namespace TagPrompt

namespace Prompt

/-- The parts of a presented prompt, from front to back. -/
inductive Part
  | count
  | character
  | copyright
  | artist
  | uncategorised
  | quality
  deriving DecidableEq, Repr

namespace Part

def place : Part → Nat
  | count => 0
  | character => 1
  | copyright => 2
  | artist => 3
  | uncategorised => 4
  | quality => 5

theorem place_injective : Function.Injective place := by
  intro part part' h
  cases part <;> cases part' <;> simp_all [place]

instance : LinearOrder Part := LinearOrder.lift' place place_injective

/-- What may stand in front of the entries of a part. -/
def lead : Part → Text
  | artist => artistLead
  | _ => []

end Part

/-- Whether a list has a tag, with `lead` in front of its text or without. -/
def listedIn (lead : Text) (entries : List Text) (tag : Tag) : Bool :=
  entries.contains (Text.strip lead tag.text)

end Prompt

namespace Categories

open Prompt (Part)

/-- The list of a part; the tags of no list have none. -/
def entries (categories : Categories) : Part → List Text
  | .count => categories.count
  | .character => categories.character
  | .copyright => categories.copyright
  | .artist => categories.artist
  | .uncategorised => []
  | .quality => categories.quality

/-- Whether the list of a part has a tag. -/
def lists (categories : Categories) (part : Part) (tag : Tag) : Bool :=
  Prompt.listedIn part.lead (categories.entries part) tag

/-- The first of some parts whose list has a tag. -/
def firstOf (categories : Categories) (parts : List Part) (tag : Tag) : Part :=
  (parts.find? fun part => categories.lists part tag).getD .uncategorised

/-- The part of a presented prompt that a tag belongs to. -/
def partOf (categories : Categories) (tag : Tag) : Part :=
  categories.firstOf [.count, .character, .copyright, .artist, .quality] tag

/-- The part of a tag, and its first place in the list of that part. -/
def rank (categories : Categories) (tag : Tag) : Part ×ₗ Nat :=
  let part := categories.partOf tag
  toLex (part, (categories.entries part).idxOf (Text.strip part.lead tag.text))

end Categories

namespace Prompt

variable {ρ : Type} [LinearOrder ρ] {rank : Tag → ρ} {categories : Categories} {lead : Text}
  {entries : List Text} {p : Prompt} {part : Part} {front : List Part}

/-! ### One list -/

theorem listedIn_cons (entry : Text) (tag : Tag) :
    listedIn lead (entry :: entries) tag = (answers lead entry tag || listedIn lead entries tag) :=
  List.contains_cons

theorem moveOut_left (lead : Text) (entries : List Text) (p : Prompt) :
    (moveOut lead entries p).2 = p.filter fun tag => !listedIn lead entries tag := by
  induction entries generalizing p with
  | nil => exact (List.filter_true p).symm
  | cons entry entries ih =>
      simp only [moveOut, List.partition_eq_filter_filter, ih, List.filter_filter, listedIn_cons,
        Bool.not_or, Bool.and_comm, Function.comp_apply]

theorem idxOf_of_answers {entry : Text} {tag : Tag} (h : answers lead entry tag = true) :
    (entry :: entries).idxOf (Text.strip lead tag.text) = 0 := by
  rw [eq_of_beq h, List.idxOf_cons_self]

theorem idxOf_of_not_answers {entry : Text} {tag : Tag} (h : answers lead entry tag = false) :
    (entry :: entries).idxOf (Text.strip lead tag.text) =
      entries.idxOf (Text.strip lead tag.text) + 1 :=
  List.idxOf_cons_ne entries (Ne.symm (ne_of_beq_false h))

theorem listedIn_of_answers {entry : Text} {tag : Tag} (h : answers lead entry tag = true) :
    listedIn lead (entry :: entries) tag = true := by
  rw [listedIn_cons, h, Bool.true_or]

theorem listedIn_of_not_answers {entry : Text} {tag : Tag} (h : answers lead entry tag = false) :
    listedIn lead (entry :: entries) tag = listedIn lead entries tag := by
  rw [listedIn_cons, h, Bool.false_or]

theorem filter_answers (lead entry : Text) (entries : List Text) (p : Prompt) :
    (p.filter (listedIn lead (entry :: entries))).filter (answers lead entry) =
      p.filter (answers lead entry) := by
  rw [List.filter_filter]
  apply List.filter_congr
  intro tag _
  simpa using listedIn_of_answers

theorem filter_not_answers (lead entry : Text) (entries : List Text) (p : Prompt) :
    (p.filter (listedIn lead (entry :: entries))).filter (fun tag => !answers lead entry tag) =
      (p.filter fun tag => !answers lead entry tag).filter (listedIn lead entries) := by
  rw [List.filter_filter, List.filter_filter]
  apply List.filter_congr
  intro tag _
  cases htag : answers lead entry tag with
  | true => simp
  | false => simp [listedIn_of_not_answers htag]

/-- The tags moved out come in the order of their places in the list. -/
theorem isStableSort_moveOut
    (h : ∀ s ∈ p, ∀ t ∈ p, listedIn lead entries s = true → listedIn lead entries t = true →
      (rank s < rank t ↔ entries.idxOf (Text.strip lead s.text) <
        entries.idxOf (Text.strip lead t.text))) :
    IsStableSort rank (p.filter (listedIn lead entries)) (moveOut lead entries p).1 := by
  induction entries generalizing p with
  | nil =>
      have hnone : p.filter (listedIn lead []) = [] := List.filter_false p
      rw [hnone]
      exact .of_not_lt (by simp)
  | cons entry entries ih =>
      simp only [moveOut, List.partition_eq_filter_filter]
      refine IsStableSort.append (answers lead entry) ?_ ?_ ?_
      · intro s hs t ht hanswers hother
        obtain ⟨hs, hlisted⟩ := List.mem_filter.mp hs
        obtain ⟨ht, hlisted'⟩ := List.mem_filter.mp ht
        rw [h s hs t ht hlisted hlisted', idxOf_of_answers hanswers, idxOf_of_not_answers hother]
        exact Nat.succ_pos _
      · rw [filter_answers]
        apply IsStableSort.of_not_lt
        intro s hs t ht
        obtain ⟨hs, hanswers⟩ := List.mem_filter.mp hs
        obtain ⟨ht, hanswers'⟩ := List.mem_filter.mp ht
        rw [h s hs t ht (listedIn_of_answers hanswers) (listedIn_of_answers hanswers'),
          idxOf_of_answers hanswers, idxOf_of_answers hanswers']
        exact Nat.lt_irrefl 0
      · rw [filter_not_answers]
        apply ih
        intro s hs t ht hlisted hlisted'
        obtain ⟨hs, hother⟩ := List.mem_filter.mp hs
        obtain ⟨ht, hother'⟩ := List.mem_filter.mp ht
        rw [Bool.not_eq_true'] at hother hother'
        rw [← listedIn_of_not_answers hother] at hlisted
        rw [← listedIn_of_not_answers hother'] at hlisted'
        rw [h s hs t ht hlisted hlisted', idxOf_of_not_answers hother, idxOf_of_not_answers hother']
        exact Nat.succ_lt_succ_iff

/-! ### List after list -/

/-- A prompt presented part by part, where `front` are the parts in front of the tags of no list. -/
def presented (categories : Categories) : (front : List Part) → Prompt → Prompt
  | [], p =>
      let (qualities, left) := moveOut Part.quality.lead (categories.entries .quality) p
      left ++ qualities
  | part :: front, p =>
      let (taken, left) := moveOut part.lead (categories.entries part) p
      taken ++ presented categories front left

theorem reorder_eq_presented (categories : Categories) (p : Prompt) :
    p.reorder categories = presented categories [.count, .character, .copyright, .artist] p := by
  simp only [reorder, presented, List.append_assoc]
  rfl

theorem firstOf_cons (part : Part) (parts : List Part) (tag : Tag) :
    categories.firstOf (part :: parts) tag =
      if categories.lists part tag = true then part else categories.firstOf parts tag := by
  rw [Categories.firstOf, List.find?_cons]
  cases categories.lists part tag <;> rfl

theorem firstOf_mem (categories : Categories) (parts : List Part) (tag : Tag) :
    categories.firstOf parts tag = .uncategorised ∨ categories.firstOf parts tag ∈ parts := by
  induction parts with
  | nil => exact .inl rfl
  | cons part parts ih =>
      rw [firstOf_cons]
      split
      · exact .inr List.mem_cons_self
      · exact ih.imp_right (List.mem_cons_of_mem part)

theorem rank_lt_of_partOf_lt {s t : Tag} (h : categories.partOf s < categories.partOf t) :
    categories.rank s < categories.rank t :=
  Prod.Lex.toLex_lt_toLex.mpr (.inl h)

theorem rank_lt_iff {s t : Tag} (hs : categories.partOf s = part) (ht : categories.partOf t = part) :
    categories.rank s < categories.rank t ↔
      (categories.entries part).idxOf (Text.strip part.lead s.text) <
        (categories.entries part).idxOf (Text.strip part.lead t.text) := by
  simp only [Categories.rank, Prod.Lex.toLex_lt_toLex, hs, ht, lt_irrefl, false_or, true_and]

theorem isStableSort_taken
    (h : ∀ tag ∈ p, categories.lists part tag = true → categories.partOf tag = part) :
    IsStableSort categories.rank (p.filter (categories.lists part))
      (moveOut part.lead (categories.entries part) p).1 :=
  isStableSort_moveOut fun s hs t ht hlisted hlisted' =>
    rank_lt_iff (h s hs hlisted) (h t ht hlisted')

/-- The tags of no list stay in front of the quality tags that are taken out from among them. -/
theorem isStableSort_qualities
    (hp : ∀ tag ∈ p, categories.partOf tag = categories.firstOf [.quality] tag) :
    IsStableSort categories.rank p (presented categories [] p) := by
  have hquality : ∀ tag ∈ p, categories.lists .quality tag = true →
      categories.partOf tag = .quality := by
    intro tag htag hlisted
    rw [hp tag htag, firstOf_cons, if_pos hlisted]
  have hnone : ∀ tag ∈ p, (!categories.lists .quality tag) = true →
      categories.partOf tag = .uncategorised := by
    intro tag htag hother
    rw [hp tag htag, firstOf_cons, if_neg (by simpa using hother)]
    rfl
  simp only [presented, moveOut_left]
  refine IsStableSort.append (fun tag => !categories.lists .quality tag) ?_ ?_ ?_
  · intro s hs t ht hother hlisted
    apply rank_lt_of_partOf_lt
    rw [hnone s hs hother, hquality t ht (by simpa using hlisted)]
    decide
  · apply IsStableSort.of_not_lt
    intro s hs t ht
    obtain ⟨hs, hother⟩ := List.mem_filter.mp hs
    obtain ⟨ht, hother'⟩ := List.mem_filter.mp ht
    rw [rank_lt_iff (hnone s hs hother) (hnone t ht hother')]
    exact Nat.lt_irrefl 0
  · simp only [Bool.not_not]
    exact isStableSort_taken hquality

/-- A prompt whose tags are in no list before those of `front` is sorted by taking the parts of
`front` out in order. -/
theorem isStableSort_presented
    (hp : ∀ tag ∈ p, categories.partOf tag = categories.firstOf (front ++ [.quality]) tag)
    (hfront : (front ++ [Part.uncategorised, Part.quality]).Pairwise (· < ·)) :
    IsStableSort categories.rank p (presented categories front p) := by
  induction front generalizing p with
  | nil => exact isStableSort_qualities hp
  | cons part front ih =>
      obtain ⟨hbefore, hrest⟩ := List.pairwise_cons.mp hfront
      have hlisted : ∀ tag ∈ p, categories.lists part tag = true → categories.partOf tag = part := by
        intro tag htag hlisted
        rw [hp tag htag, List.cons_append, firstOf_cons, if_pos hlisted]
      have hother : ∀ tag ∈ p, categories.lists part tag = false →
          categories.partOf tag = categories.firstOf (front ++ [.quality]) tag := by
        intro tag htag hother
        rw [hp tag htag, List.cons_append, firstOf_cons, if_neg (by simp [hother])]
      simp only [presented, moveOut_left]
      refine IsStableSort.append _ ?_ (isStableSort_taken hlisted) ?_
      · -- a tag that is left belongs to a part behind, or to none
        intro s hs t ht hs' ht'
        apply rank_lt_of_partOf_lt
        rw [hlisted s hs hs', hother t ht ht']
        apply hbefore
        have hmem := firstOf_mem categories (front ++ [.quality]) t
        simp only [List.append_eq, List.mem_append, List.mem_cons, List.not_mem_nil,
          or_false] at hmem ⊢
        tauto
      · apply ih _ hrest
        intro tag htag
        obtain ⟨htag, hnot⟩ := List.mem_filter.mp htag
        exact hother tag htag (by simpa using hnot)

theorem isStableSort_reorder (categories : Categories) (p : Prompt) :
    IsStableSort categories.rank p (p.reorder categories) := by
  rw [reorder_eq_presented]
  exact isStableSort_presented (fun _ _ => rfl) (by decide)

/-- **Presentation is a stable sort.** Presenting a prompt is sorting it stably by rank, which is the
part of the first list that has the tag, and the first place where that list has it. So it is a
permutation, presenting twice is presenting once, and prompts are presented alike exactly when they
hold, of every rank, the same tags in the same order. -/
theorem reordering_is_stable_sort (categories : Categories) (p : Prompt) :
    p.reorder categories = p.mergeSort (fun s t => categories.rank s ≤ categories.rank t) ∧
      (p.reorder categories).Perm p ∧
      (p.reorder categories).reorder categories = p.reorder categories ∧
      ∀ q : Prompt, p.reorder categories = q.reorder categories ↔
        ∀ r, atRank categories.rank r p = atRank categories.rank r q := by
  have hsort : ∀ q : Prompt, IsStableSort categories.rank q (q.reorder categories) :=
    isStableSort_reorder categories
  refine ⟨?_, reorder_perm categories p, ?_, fun q => (hsort p).eq_iff (hsort q)⟩
  · exact ((hsort p).eq_iff (isStableSort_mergeSort categories.rank p)).mpr fun _ => rfl
  · exact ((hsort _).eq_iff (hsort p)).mpr (hsort p).atRank_eq

end Prompt

end TagPrompt
