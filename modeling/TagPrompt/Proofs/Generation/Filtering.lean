import Mathlib.Data.List.Nodup
import Mathlib.Tactic.MkIffOfInductiveProp
import TagPrompt.Generation.Generator
import TagPrompt.Source.Memory
import TagPrompt.Proofs.Prompt.Removal

/-! What filtering leaves of a found prompt. The whitelist keeps or drops every occurrence of a tag;
all other filters are one removal by all their entries. So filtering keeps no unwanted tag unless the
found prompt repeats it more often than it is listed. -/

namespace TagPrompt

/-- The whitelist has a text, or is empty. -/
def Categories.Allows (categories : Categories) (text : Text) : Prop :=
  categories.whitelist = [] ∨ text ∈ categories.whitelist

instance (categories : Categories) (text : Text) : Decidable (categories.Allows text) :=
  inferInstanceAs (Decidable (_ ∨ _))

/-- Why a tag of a found prompt is unwanted. -/
@[mk_iff]
inductive Unwanted (options : GenerationOptions) (categories : Categories) (around : Surroundings)
    (text : Text) : Prop
  | notAllowed (h : ¬categories.Allows text)
  | artist (hon : options.removeArtist = true) (h : text ∈ categories.artist)
  | character (hon : options.removeCharacter = true) (h : text ∈ categories.character)
  | characteristic (hon : options.removeCharacteristic = true)
      (h : text ∈ categories.characteristic)
  | attire (hon : options.removeAttire = true) (h : text ∈ categories.clothes)
  | copyright (hon : options.removeCopyright = true) (h : text ∈ categories.copyright)
  | ornament (hon : options.removeOrnament = true) (h : text ∈ categories.ornament)
  | emotion (hon : options.removeEmotion = true) (h : text ∈ categories.emotions)
  | rating (h : text ∈ ratings.map RatingNames.long)
  | bad (h : text ∈ categories.bad)
  | inBeginning (h : text ∈ around.beginning.texts)
  | inEnding (h : text ∈ around.ending.texts)
  | inNegative (h : text ∈ around.negative.texts)
  | censored (hasked : uncensoredTag ∈ around.beginning.texts ∨ uncensoredTag ∈ around.ending.texts)
      (h : text ∈ categories.censor)

/-- All entries of the lists in effect, by which tags of a found prompt are removed. -/
def removals (options : GenerationOptions) (categories : Categories) (around : Surroundings) :
    List Text :=
  (removedLists options categories).flatten ++ ratings.map RatingNames.long ++ categories.bad ++
    around.beginning.texts ++ around.ending.texts ++ around.negative.texts ++
    if around.beginning.mentions uncensoredTag || around.ending.mentions uncensoredTag then
      categories.censor
    else []

variable {options : GenerationOptions} {categories : Categories} {around : Surroundings}
  {text : Text}

/-! ### The whitelist -/

theorem keepWhitelisted_sublist (categories : Categories) (p : Prompt) :
    (keepWhitelisted categories p).Sublist p := by
  rw [keepWhitelisted]
  split_ifs
  · exact List.Sublist.refl p
  · exact List.filter_sublist

theorem count_keepWhitelisted (categories : Categories) (p : Prompt) (text : Text) :
    (keepWhitelisted categories p).texts.count text =
      if categories.Allows text then p.texts.count text else 0 := by
  rw [keepWhitelisted]
  cases hwhitelist : categories.whitelist with
  | nil => rw [List.isEmpty_nil, if_pos rfl, if_pos (.inl hwhitelist)]
  | cons first rest =>
      rw [List.isEmpty_cons, if_neg Bool.false_ne_true, Prompt.texts_keepListed, ← hwhitelist]
      split_ifs with hallows
      · have hmem : text ∈ categories.whitelist :=
          hallows.resolve_left (by rw [hwhitelist]; exact List.cons_ne_nil _ _)
        exact List.count_filter (List.contains_iff_mem.mpr hmem)
      · have hmem : text ∉ categories.whitelist := fun h => hallows (.inr h)
        refine List.count_eq_zero.mpr fun h => hmem ?_
        exact List.contains_iff_mem.mp (List.mem_filter.mp h).2

/-! ### The removals -/

theorem mem_removals_iff :
    text ∈ removals options categories around ↔
      (∃ list ∈ removedLists options categories, text ∈ list) ∨
        text ∈ ratings.map RatingNames.long ∨ text ∈ categories.bad ∨
        text ∈ around.beginning.texts ∨ text ∈ around.ending.texts ∨ text ∈ around.negative.texts ∨
        ((uncensoredTag ∈ around.beginning.texts ∨ uncensoredTag ∈ around.ending.texts) ∧
          text ∈ categories.censor) := by
  have hcensor : (text ∈ if around.beginning.mentions uncensoredTag ||
        around.ending.mentions uncensoredTag then categories.censor else []) ↔
      (uncensoredTag ∈ around.beginning.texts ∨ uncensoredTag ∈ around.ending.texts) ∧
        text ∈ categories.censor := by
    rw [Prompt.mem_texts_iff, Prompt.mem_texts_iff, ← Bool.or_eq_true]
    split_ifs with hasked
    · exact ⟨fun h => ⟨hasked, h⟩, fun h => h.2⟩
    · exact ⟨fun h => absurd h List.not_mem_nil, fun h => absurd h.1 hasked⟩
  simp only [removals, List.mem_append, List.mem_flatten, hcensor, or_assoc]

theorem mem_removedLists_iff :
    (∃ list ∈ removedLists options categories, text ∈ list) ↔
      (options.removeArtist = true ∧ text ∈ categories.artist) ∨
        (options.removeCharacter = true ∧ text ∈ categories.character) ∨
        (options.removeCharacteristic = true ∧ text ∈ categories.characteristic) ∨
        (options.removeAttire = true ∧ text ∈ categories.clothes) ∨
        (options.removeCopyright = true ∧ text ∈ categories.copyright) ∨
        (options.removeOrnament = true ∧ text ∈ categories.ornament) ∨
        (options.removeEmotion = true ∧ text ∈ categories.emotions) := by
  have hlisted : ∀ removals : List (Bool × List Text),
      (∃ list ∈ removals.filterMap fun removal => if removal.1 then some removal.2 else none,
        text ∈ list) ↔ ∃ removal ∈ removals, removal.1 = true ∧ text ∈ removal.2 := by
    intro removals
    simp only [List.mem_filterMap, Option.ite_none_right_eq_some, Option.some.injEq]
    constructor
    · rintro ⟨list, ⟨removal, hmem, hon, rfl⟩, htext⟩
      exact ⟨removal, hmem, hon, htext⟩
    · rintro ⟨removal, hmem, hon, htext⟩
      exact ⟨removal.2, ⟨removal, hmem, hon, rfl⟩, htext⟩
  rw [removedLists, hlisted]
  simp only [List.exists_mem_cons_iff, List.not_mem_nil, false_and, exists_false, or_false]

theorem unwanted_iff_mem_removals :
    Unwanted options categories around text ↔
      ¬categories.Allows text ∨ text ∈ removals options categories around := by
  rw [unwanted_iff, mem_removals_iff, mem_removedLists_iff]
  simp only [or_assoc]

/-! ### What is left -/

theorem filtered_eq (g : Generator) (around : Surroundings) (found : Prompt) :
    g.filtered around found =
      (keepWhitelisted g.categories found).remove (removals g.options g.categories around) := by
  rw [Generator.filtered, filterCensoring, filterFound, Prompt.foldl_remove, removals]
  simp only [← Prompt.remove_append]
  split_ifs
  · rfl
  · rw [List.append_nil]

theorem filtered_sublist (g : Generator) (around : Surroundings) (found : Prompt) :
    (g.filtered around found).Sublist found := by
  rw [filtered_eq]
  exact (Prompt.remove_sublist _ _).trans (keepWhitelisted_sublist _ _)

theorem count_filtered (g : Generator) (around : Surroundings) (found : Prompt) (text : Text) :
    (g.filtered around found).texts.count text =
      if g.categories.Allows text then
        found.texts.count text - (removals g.options g.categories around).count text
      else 0 := by
  rw [filtered_eq, Prompt.count_remove, count_keepWhitelisted]
  split_ifs
  · rfl
  · exact Nat.zero_sub _

/-- A text is left where the whitelist allows it and it is found more often than it is listed. -/
theorem mem_filtered_iff (g : Generator) (around : Surroundings) (found : Prompt) (text : Text) :
    text ∈ (g.filtered around found).texts ↔
      g.categories.Allows text ∧
        (removals g.options g.categories around).count text < found.texts.count text := by
  rw [← List.count_pos_iff, count_filtered]
  split_ifs with hallows
  · rw [Nat.sub_pos_iff_lt]
    exact ⟨fun h => ⟨hallows, h⟩, fun h => h.2⟩
  · exact ⟨fun h => absurd h (Nat.lt_irrefl 0), fun h => absurd h.1 hallows⟩

/-- The unwanted tags that are left are those that are listed, but found more often. -/
theorem unwanted_of_mem_filtered_iff (g : Generator) (around : Surroundings) (found : Prompt)
    (text : Text) :
    text ∈ (g.filtered around found).texts ∧ Unwanted g.options g.categories around text ↔
      text ∈ removals g.options g.categories around ∧ g.categories.Allows text ∧
        (removals g.options g.categories around).count text < found.texts.count text := by
  rw [mem_filtered_iff, unwanted_iff_mem_removals]
  constructor
  · rintro ⟨⟨hallows, hcount⟩, hnot | hlisted⟩
    · exact absurd hallows hnot
    · exact ⟨hlisted, hallows, hcount⟩
  · rintro ⟨hlisted, hallows, hcount⟩
    exact ⟨⟨hallows, hcount⟩, .inr hlisted⟩

theorem forall_mem_filtered_iff (g : Generator) (around : Surroundings) (found : Prompt) :
    (∀ tag ∈ g.filtered around found, ¬Unwanted g.options g.categories around tag.text) ↔
      ∀ text ∈ removals g.options g.categories around, g.categories.Allows text →
        found.texts.count text ≤ (removals g.options g.categories around).count text := by
  constructor
  · intro h text hlisted hallows
    by_contra hmore
    obtain ⟨hleft, hunwanted⟩ := (unwanted_of_mem_filtered_iff g around found text).mpr
      ⟨hlisted, hallows, Nat.lt_of_not_le hmore⟩
    obtain ⟨tag, htag, rfl⟩ := List.mem_map.mp hleft
    exact h tag htag hunwanted
  · intro h tag htag hunwanted
    obtain ⟨hlisted, hallows, hcount⟩ :=
      (unwanted_of_mem_filtered_iff g around found tag.text).mp
        ⟨List.mem_map_of_mem htag, hunwanted⟩
    exact absurd (h tag.text hlisted hallows) (Nat.not_le.mpr hcount)

/-- **Filtering keeps unwanted tags that are repeated.** Of each text that the whitelist allows, a
found prompt keeps as many tags as it has more than the lists that are in effect have entries, in
their order. So no unwanted tag is left exactly where no listed text is found more often than it is
listed, as where the tags of the line are distinct, a rating by its long and its short name being
one. -/
theorem filtering_keeps_repeated_tags (g : Generator) (around : Surroundings) (line : Text) :
    let found := g.promptOfLine line
    let left := g.filtered around found
    let listed := removals g.options g.categories around
    left.Sublist found ∧
      (∀ text, left.texts.count text =
        if g.categories.Allows text then found.texts.count text - listed.count text else 0) ∧
      ((∀ tag ∈ left, ¬Unwanted g.options g.categories around tag.text) ↔
        ∀ text ∈ listed, g.categories.Allows text →
          found.texts.count text ≤ listed.count text) ∧
      (found.texts.Nodup → ∀ tag ∈ left, ¬Unwanted g.options g.categories around tag.text) := by
  intro found left listed
  have hleft := forall_mem_filtered_iff g around found
  refine ⟨filtered_sublist g around found, count_filtered g around found, hleft, fun hnodup => ?_⟩
  refine hleft.mpr fun text hlisted _ => ?_
  calc found.texts.count text
    _ ≤ 1 := List.nodup_iff_count_le_one.mp hnodup text
    _ ≤ listed.count text := List.count_pos_iff.mpr hlisted

/-- A line with the short and the long name of its rating keeps the rating. -/
theorem filtering_keeps_rating_of_both_names :
    ¬∀ (g : Generator) (around : Surroundings) (line : Text),
      ∀ tag ∈ g.filtered around (g.promptOfLine line),
        ¬Unwanted g.options g.categories around tag.text := by
  intro h
  let g : Generator :=
    { resolver :=
        { index := .ofEntries [], positions := MemorySource.source { content := [] }, limit := 0 }
      corpus := { source := MemorySource.source { content := [] }, window := 0, limit := 0 }
      wildcards := .empty
      categories := {}
      options := {} }
  have hleft : ⟨"rating:general".toList, 0⟩ ∈ g.filtered ⟨[], [], []⟩
      (g.promptOfLine "1girl, rating:g, rating:general".toList) := by
    decide
  exact h g ⟨[], [], []⟩ _ _ hleft (.rating (by decide))

end TagPrompt
