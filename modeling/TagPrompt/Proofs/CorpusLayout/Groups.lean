import Mathlib.Data.List.Nodup
import TagPrompt.CorpusLayout
import TagPrompt.Proofs.Text.Order

/-! Grouping the lines of a corpus by their tags. Noting a tag at an offset adds that to what the
groups note and nothing else, and keeps the groups in ascending order of their tags, so that no tag
has two groups. Along lines whose offsets ascend, the offsets of every group ascend too. -/

namespace TagPrompt.CorpusLayout

/-- The groups note an offset for a tag. -/
def Notes (groups : List (Text × List Offset)) (tag : Text) (x : Offset) : Prop :=
  ∃ offsets, (tag, offsets) ∈ groups ∧ x ∈ offsets

variable {groups : List (Text × List Offset)} {offsets : List Offset} {tag known t : Text}
  {offset x : Offset}

/-! ### One note -/

/-- Noting a tag adds the offset to the group of the tag, unless it is there, or puts a new group
between others. -/
theorem note_cases (tag : Text) (offset : Offset) (groups : List (Text × List Offset)) :
    (∃ before offsets after, groups = before ++ (tag, offsets) :: after ∧
      note tag offset groups = before ++
        (tag, if offsets.contains offset then offsets else offsets ++ [offset]) :: after) ∨
    ∃ before after, groups = before ++ after ∧
      note tag offset groups = before ++ (tag, [offset]) :: after := by
  induction groups with
  | nil => exact Or.inr ⟨[], [], rfl, rfl⟩
  | cons group groups ih =>
      obtain ⟨known, offsets⟩ := group
      rw [note]
      by_cases hsame : tag = known
      · rw [if_pos hsame, hsame]
        exact Or.inl ⟨[], offsets, groups, rfl, rfl⟩
      · rw [if_neg hsame]
        split_ifs
        · exact Or.inr ⟨[], (known, offsets) :: groups, rfl, rfl⟩
        · rcases ih with ⟨before, found, after, hgroups, hnote⟩ | ⟨before, after, hgroups, hnote⟩
          · refine Or.inl ⟨(known, offsets) :: before, found, after, ?_, ?_⟩
            · rw [hgroups, List.cons_append]
            · rw [hnote, List.cons_append]
          · refine Or.inr ⟨(known, offsets) :: before, after, ?_, ?_⟩
            · rw [hgroups, List.cons_append]
            · rw [hnote, List.cons_append]

/-! ### What is noted -/

theorem not_notes_nil : ¬Notes [] t x := by
  rintro ⟨offsets, hgroup, -⟩
  exact absurd hgroup List.not_mem_nil

theorem notes_cons :
    Notes ((known, offsets) :: groups) t x ↔ t = known ∧ x ∈ offsets ∨ Notes groups t x := by
  simp only [Notes, List.mem_cons, Prod.mk.injEq]
  constructor
  · rintro ⟨found, ⟨rfl, rfl⟩ | hgroup, hx⟩
    · exact Or.inl ⟨rfl, hx⟩
    · exact Or.inr ⟨found, hgroup, hx⟩
  · rintro (⟨rfl, hx⟩ | ⟨found, hgroup, hx⟩)
    · exact ⟨offsets, Or.inl ⟨rfl, rfl⟩, hx⟩
    · exact ⟨found, Or.inr hgroup, hx⟩

theorem notes_append {before after : List (Text × List Offset)} :
    Notes (before ++ after) t x ↔ Notes before t x ∨ Notes after t x := by
  simp only [Notes, List.mem_append, or_and_right, exists_or]

theorem mem_noted :
    x ∈ (if offsets.contains offset then offsets else offsets ++ [offset]) ↔
      x ∈ offsets ∨ x = offset := by
  split_ifs with hcontains
  · rw [List.contains_iff_mem] at hcontains
    refine (or_iff_left_of_imp ?_).symm
    rintro rfl
    exact hcontains
  · rw [List.mem_append, List.mem_singleton]

theorem notes_note (tag : Text) (offset : Offset) (groups : List (Text × List Offset)) :
    Notes (note tag offset groups) t x ↔ Notes groups t x ∨ t = tag ∧ x = offset := by
  rcases note_cases tag offset groups with
    ⟨before, offsets, after, rfl, hnote⟩ | ⟨before, after, rfl, hnote⟩
  · rw [hnote, notes_append, notes_append, notes_cons, notes_cons, mem_noted]
    tauto
  · rw [hnote, notes_append, notes_append, notes_cons, List.mem_singleton]
    tauto

theorem notes_foldl_note (tags : List Text) (offset : Offset) (groups : List (Text × List Offset)) :
    Notes (tags.foldl (fun groups tag => note tag offset groups) groups) t x ↔
      Notes groups t x ∨ t ∈ tags ∧ x = offset := by
  induction tags generalizing groups with
  | nil => exact (or_iff_left fun h => absurd h.1 List.not_mem_nil).symm
  | cons tag tags ih =>
      rw [List.foldl_cons, ih, notes_note, List.mem_cons, or_and_right, or_assoc]

/-- Grouping lines notes every tag of every line at the offset of the line, and nothing else. -/
theorem notes_foldl_noteLine (lines : List (Offset × Text)) (groups : List (Text × List Offset)) :
    Notes (lines.foldl noteLine groups) t x ↔
      Notes groups t x ∨ ∃ line ∈ lines, t ∈ Text.parts line.2 ∧ x = line.1 := by
  induction lines generalizing groups with
  | nil => simp
  | cons line lines ih =>
      rw [List.foldl_cons, ih, noteLine, notes_foldl_note, List.exists_mem_cons_iff, or_assoc]

/-! ### Order -/

def tagsOf (groups : List (Text × List Offset)) : List Text := groups.map Prod.fst

theorem tagsOf_cons (group : Text × List Offset) (groups : List (Text × List Offset)) :
    tagsOf (group :: groups) = group.1 :: tagsOf groups := rfl

/-- One text stands before the other one. -/
def Before (s t : Text) : Prop := Text.precedes s t = true ∧ s ≠ t

theorem Before.trans {s t u : Text} (hst : Before s t) (htu : Before t u) : Before s u := by
  refine ⟨Text.precedes_trans hst.1 htu.1, ?_⟩
  rintro rfl
  exact hst.2 (Text.precedes_antisymm hst.1 htu.1)

/-- Noting places a tag among the others, unless it is there. -/
theorem tagsOf_note (tag known : Text) (offset : Offset) (offsets : List Offset)
    (groups : List (Text × List Offset)) :
    tagsOf (note tag offset ((known, offsets) :: groups)) =
      if tag = known then known :: tagsOf groups
      else if Text.precedes tag known then tag :: known :: tagsOf groups
      else known :: tagsOf (note tag offset groups) := by
  by_cases hsame : tag = known
  · rw [note, if_pos hsame, if_pos hsame, tagsOf_cons]
  · by_cases hbefore : Text.precedes tag known = true
    · rw [note, if_neg hsame, if_neg hsame, if_pos hbefore, if_pos hbefore, tagsOf_cons,
        tagsOf_cons]
    · rw [note, if_neg hsame, if_neg hsame, if_neg hbefore, if_neg hbefore, tagsOf_cons]

theorem mem_tagsOf_note (tag : Text) (offset : Offset) (groups : List (Text × List Offset)) :
    t ∈ tagsOf (note tag offset groups) ↔ t = tag ∨ t ∈ tagsOf groups := by
  rcases note_cases tag offset groups with
    ⟨before, offsets, after, rfl, hnote⟩ | ⟨before, after, rfl, hnote⟩
  all_goals
    simp only [hnote, tagsOf, List.map_append, List.map_cons, List.mem_append, List.mem_cons]
    tauto

theorem pairwise_note (tag : Text) (offset : Offset) (h : (tagsOf groups).Pairwise Before) :
    (tagsOf (note tag offset groups)).Pairwise Before := by
  induction groups with
  | nil => exact List.pairwise_singleton Before tag
  | cons group groups ih =>
      obtain ⟨known, offsets⟩ := group
      rw [tagsOf_cons] at h
      obtain ⟨hknown, hgroups⟩ := List.pairwise_cons.mp h
      rw [tagsOf_note]
      split_ifs with hsame hbefore
      · exact h
      · have htag : Before tag known := ⟨hbefore, hsame⟩
        refine List.pairwise_cons.mpr ⟨fun later hlater => ?_, h⟩
        rcases List.mem_cons.mp hlater with rfl | hlater
        · exact htag
        · exact htag.trans (hknown later hlater)
      · -- the tag goes somewhere behind `known`, so it has to come after it
        have hafter : Text.precedes known tag = true :=
          (Text.precedes_total tag known).resolve_left hbefore
        refine List.pairwise_cons.mpr ⟨fun later hlater => ?_, ih hgroups⟩
        rcases (mem_tagsOf_note tag offset groups).mp hlater with rfl | hlater
        · exact ⟨hafter, Ne.symm hsame⟩
        · exact hknown later hlater

theorem pairwise_foldl_note (tags : List Text) (offset : Offset)
    (h : (tagsOf groups).Pairwise Before) :
    (tagsOf (tags.foldl (fun groups tag => note tag offset groups) groups)).Pairwise Before := by
  induction tags generalizing groups with
  | nil => exact h
  | cons tag tags ih => exact ih (pairwise_note tag offset h)

theorem pairwise_foldl_noteLine (lines : List (Offset × Text))
    (h : (tagsOf groups).Pairwise Before) :
    (tagsOf (lines.foldl noteLine groups)).Pairwise Before := by
  induction lines generalizing groups with
  | nil => exact h
  | cons line lines ih => exact ih (pairwise_foldl_note (Text.parts line.2) line.1 h)

theorem nodup_tagsOf (prompts : List Text) : (tagsOf (ofPrompts prompts).groups).Nodup :=
  (pairwise_foldl_noteLine _ List.Pairwise.nil).imp And.right

/-- So the group of a tag has all that is noted for the tag. -/
theorem notes_iff_of_mem (hnodup : (tagsOf groups).Nodup) (hgroup : (tag, offsets) ∈ groups) :
    Notes groups tag x ↔ x ∈ offsets := by
  constructor
  · rintro ⟨found, hfound, hx⟩
    cases List.inj_on_of_nodup_map hnodup hfound hgroup rfl
    exact hx
  · exact fun hx => ⟨offsets, hgroup, hx⟩

/-! ### Offsets -/

/-- Offsets ascend, none of them goes beyond a bound, and there is at least one. -/
structure RisesTo (bound : Offset) (offsets : List Offset) : Prop where
  ne_nil : offsets ≠ []
  ascending : offsets.Pairwise (· < ·)
  le_bound : ∀ y ∈ offsets, y ≤ bound

variable {bound : Offset} {lines : List (Offset × Text)}

theorem risesTo_singleton (offset : Offset) : RisesTo offset [offset] where
  ne_nil := List.cons_ne_nil offset []
  ascending := List.pairwise_singleton _ offset
  le_bound := List.forall_mem_singleton.mpr UInt32.le_rfl

theorem RisesTo.mono (h : RisesTo bound offsets) (hle : bound ≤ offset) : RisesTo offset offsets :=
  { h with le_bound := fun y hy => UInt32.le_trans (h.le_bound y hy) hle }

/-- The offset of the current line is the greatest so far, so its place is at the end. -/
theorem RisesTo.noted (h : RisesTo offset offsets) :
    RisesTo offset (if offsets.contains offset then offsets else offsets ++ [offset]) := by
  split_ifs with hcontains
  · exact h
  · rw [List.contains_iff_mem] at hcontains
    refine ⟨List.append_ne_nil_of_left_ne_nil h.ne_nil [offset], ?_, ?_⟩
    · refine List.pairwise_append.mpr ⟨h.ascending, List.pairwise_singleton _ offset, ?_⟩
      intro y hy z hz
      obtain rfl := List.mem_singleton.mp hz
      refine UInt32.lt_of_le_of_ne (h.le_bound y hy) ?_
      rintro rfl
      exact hcontains hy
    · intro y hy
      rcases List.mem_append.mp hy with hy | hy
      · exact h.le_bound y hy
      · exact UInt32.le_of_eq (List.mem_singleton.mp hy)

theorem risesTo_note (tag : Text) (h : ∀ group ∈ groups, RisesTo offset group.2) :
    ∀ group ∈ note tag offset groups, RisesTo offset group.2 := by
  rcases note_cases tag offset groups with
    ⟨before, offsets, after, rfl, hnote⟩ | ⟨before, after, rfl, hnote⟩
  · obtain ⟨hbefore, hoffsets, hafter⟩ := List.forall_mem_append.mp h |>.imp_right
      List.forall_mem_cons.mp
    rw [hnote, List.forall_mem_append, List.forall_mem_cons]
    exact ⟨hbefore, hoffsets.noted, hafter⟩
  · obtain ⟨hbefore, hafter⟩ := List.forall_mem_append.mp h
    rw [hnote, List.forall_mem_append, List.forall_mem_cons]
    exact ⟨hbefore, risesTo_singleton offset, hafter⟩

theorem risesTo_foldl_note (tags : List Text) (h : ∀ group ∈ groups, RisesTo offset group.2) :
    ∀ group ∈ tags.foldl (fun groups tag => note tag offset groups) groups,
      RisesTo offset group.2 := by
  induction tags generalizing groups with
  | nil => exact h
  | cons tag tags ih => exact ih (risesTo_note tag h)

/-- Along ascending lines, no offset of a group goes beyond the last line. -/
theorem exists_risesTo_foldl_noteLine
    (hlines : lines.Pairwise fun line line' => line.1 < line'.1)
    (hbound : ∀ line ∈ lines, bound ≤ line.1) (h : ∀ group ∈ groups, RisesTo bound group.2) :
    ∃ last, ∀ group ∈ lines.foldl noteLine groups, RisesTo last group.2 := by
  induction lines generalizing bound groups with
  | nil => exact ⟨bound, h⟩
  | cons line lines ih =>
      obtain ⟨hlater, hlines⟩ := List.pairwise_cons.mp hlines
      have hle : bound ≤ line.1 := hbound line List.mem_cons_self
      exact ih hlines (fun line' hline' => UInt32.le_of_lt (hlater line' hline'))
        (risesTo_foldl_note _ fun group hgroup => (h group hgroup).mono hle)

end TagPrompt.CorpusLayout
