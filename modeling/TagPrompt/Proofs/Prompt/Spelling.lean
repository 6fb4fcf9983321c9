import Mathlib.Data.List.Nodup
import Mathlib.Tactic.SplitIfs
import TagPrompt.Categories

/-! When the standard vocabulary spells two texts alike. It gives some tags another name, puts a
lead in front of the artists and leaves all else, so two texts meet where both have one new name,
where one is the new name of the other, and where one is the other with the lead. -/

namespace TagPrompt.Prompt

variable {artists : List Text} {x y name : Text}

/-- The second of two different texts is how the standard vocabulary spells the first, or both have
one new name. -/
inductive SpelledAlike (artists : List Text) : Text → Text → Prop
  | bothRenamed {x y name : Text} (hx : (x, name) ∈ standardNames) (hy : (y, name) ∈ standardNames)
      (hne : x ≠ y) : SpelledAlike artists x y
  | renamed {x name : Text} (hx : (x, name) ∈ standardNames) (hname : name ∉ artists) :
      SpelledAlike artists x name
  | led {x : Text} (hx : x ∈ artists) (hkept : ∀ name, (x, name) ∉ standardNames)
      (hled : artistLead ++ x ∉ artists) : SpelledAlike artists x (artistLead ++ x)

/-! ### The names -/

theorem lookup_of_mem (h : (x, name) ∈ standardNames) : standardNames.lookup x = some name := by
  have hall : ∀ names ∈ standardNames, standardNames.lookup names.1 = some names.2 := by decide
  exact hall (x, name) h

theorem mem_of_lookup (h : standardNames.lookup x = some name) : (x, name) ∈ standardNames := by
  obtain ⟨before, behind, heq, -⟩ := List.lookup_eq_some_iff.mp h
  simp [heq]

theorem lookup_eq_none_iff : standardNames.lookup x = none ↔ ∀ name, (x, name) ∉ standardNames := by
  constructor
  · intro h name hmem
    rw [lookup_of_mem hmem] at h
    cases h
  · intro h
    cases hlookup : standardNames.lookup x with
    | none => rfl
    | some name => exact absurd (mem_of_lookup hlookup) (h name)

/-- A new name is not renamed again. -/
theorem lookup_name (h : (x, name) ∈ standardNames) : standardNames.lookup name = none := by
  have hall : ∀ names ∈ standardNames, standardNames.lookup names.2 = none := by decide
  exact hall (x, name) h

/-- No name, old or new, begins with the lead of the artists. -/
theorem ne_led (h : (x, name) ∈ standardNames) : x ≠ artistLead ++ y ∧ name ≠ artistLead ++ y := by
  have hall : ∀ names ∈ standardNames, ¬artistLead <+: names.1 ∧ ¬artistLead <+: names.2 := by
    decide
  obtain ⟨hold, hnew⟩ := hall (x, name) h
  constructor
  · rintro rfl
    exact hold (List.prefix_append _ _)
  · rintro rfl
    exact hnew (List.prefix_append _ _)

theorem led_not_renamed (x : Text) : ∀ name, (artistLead ++ x, name) ∉ standardNames :=
  fun _ h => (ne_led h).1 rfl

/-! ### The spelling of a text -/

theorem standardText_of_renamed (h : (x, name) ∈ standardNames) :
    standardText artists x = name := by
  rw [standardText, lookup_of_mem h]

theorem standardText_of_artist (hkept : ∀ name, (x, name) ∉ standardNames) (h : x ∈ artists) :
    standardText artists x = artistLead ++ x := by
  rw [standardText, lookup_eq_none_iff.mpr hkept]
  exact if_pos (List.contains_iff_mem.mpr h)

theorem standardText_of_other (hkept : ∀ name, (x, name) ∉ standardNames) (h : x ∉ artists) :
    standardText artists x = x := by
  rw [standardText, lookup_eq_none_iff.mpr hkept]
  exact if_neg (mt List.contains_iff_mem.mp h)

theorem SpelledAlike.standardText_eq (h : SpelledAlike artists x y) :
    standardText artists x = standardText artists y := by
  cases h with
  | bothRenamed hx hy hne => rw [standardText_of_renamed hx, standardText_of_renamed hy]
  | renamed hx hname =>
      rw [standardText_of_renamed hx,
        standardText_of_other (lookup_eq_none_iff.mp (lookup_name hx)) hname]
  | led hx hkept hled =>
      rw [standardText_of_artist hkept hx, standardText_of_other (led_not_renamed x) hled]

theorem SpelledAlike.ne (h : SpelledAlike artists x y) : x ≠ y := by
  cases h with
  | bothRenamed hx hy hne => exact hne
  | renamed hx hname =>
      rintro rfl
      exact lookup_eq_none_iff.mp (lookup_name hx) _ hx
  | led hx hkept hled =>
      intro heq
      exact hled (heq ▸ hx)

/-- A text is renamed, or led as an artist, or kept. -/
theorem standardText_cases (artists : List Text) (t : Text) :
    (∃ name, (t, name) ∈ standardNames ∧ standardText artists t = name) ∨
      (∀ name, (t, name) ∉ standardNames) ∧
        (t ∈ artists ∧ standardText artists t = artistLead ++ t ∨
          t ∉ artists ∧ standardText artists t = t) := by
  by_cases hnamed : ∃ name, (t, name) ∈ standardNames
  · obtain ⟨name, hname⟩ := hnamed
    exact .inl ⟨name, hname, standardText_of_renamed hname⟩
  · have hkept : ∀ name, (t, name) ∉ standardNames := not_exists.mp hnamed
    refine .inr ⟨hkept, ?_⟩
    by_cases hartist : t ∈ artists
    · exact .inl ⟨hartist, standardText_of_artist hkept hartist⟩
    · exact .inr ⟨hartist, standardText_of_other hkept hartist⟩

theorem spelledAlike_of_eq (h : standardText artists x = standardText artists y) (hne : x ≠ y) :
    SpelledAlike artists x y ∨ SpelledAlike artists y x := by
  rcases standardText_cases artists x with
    ⟨name, hx, hspelt⟩ | ⟨hx, ⟨hartist, hspelt⟩ | ⟨hartist, hspelt⟩⟩
  · -- the first is renamed: the other has the same new name, or is it
    rw [hspelt] at h
    subst h
    rcases standardText_cases artists y with
      ⟨name', hy, hspelt'⟩ | ⟨hy, ⟨hartist', hspelt'⟩ | ⟨hartist', hspelt'⟩⟩
    · exact .inl (.bothRenamed hx (hspelt' ▸ hy) hne)
    · exact absurd hspelt' (ne_led hx).2
    · rw [hspelt'] at hx
      exact .inl (.renamed hx hartist')
  · rw [hspelt] at h
    rcases standardText_cases artists y with
      ⟨name', hy, hspelt'⟩ | ⟨hy, ⟨hartist', hspelt'⟩ | ⟨hartist', hspelt'⟩⟩
    · exact absurd (hspelt'.symm.trans h.symm) (ne_led hy).2
    · exact absurd (List.append_cancel_left (h.trans hspelt')) hne
    · obtain rfl := h.trans hspelt'
      exact .inl (.led hartist hx hartist')
  · rw [hspelt] at h
    rcases standardText_cases artists y with
      ⟨name', hy, hspelt'⟩ | ⟨hy, ⟨hartist', hspelt'⟩ | ⟨hartist', hspelt'⟩⟩
    · obtain rfl := h.trans hspelt'
      exact .inr (.renamed hy hartist)
    · obtain rfl := h.trans hspelt'
      exact .inr (.led hartist' hy hartist)
    · exact absurd (h.trans hspelt') hne

/-! ### Respelled prompts -/

/-- Texts without repetitions are respelled without repetitions where no two are spelled alike. -/
theorem nodup_map_standardText_iff {texts : List Text} (hnodup : texts.Nodup) :
    (texts.map (standardText artists)).Nodup ↔
      ∀ x ∈ texts, ∀ y ∈ texts, ¬SpelledAlike artists x y := by
  rw [List.nodup_map_iff_inj_on hnodup]
  constructor
  · intro hinj x hx y hy halike
    exact halike.ne (hinj x hx y hy halike.standardText_eq)
  · intro hfree x hx y hy heq
    by_contra hne
    rcases spelledAlike_of_eq heq hne with halike | halike
    · exact hfree x hx y hy halike
    · exact hfree y hy x hx halike

end TagPrompt.Prompt
