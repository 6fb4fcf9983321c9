import Mathlib.Order.Bounds.Basic
import TagPrompt.Proofs.Prompt.Counting

/-! Written prompts have as few commas and brackets as can be. The writer divides neighbours by one
comma and changes the level by as many brackets as the levels differ. A text that is read as these
tags has at least as many of both: a comma between the segments of any two of them, and between the
last characters of neighbours the brackets by which the level has moved. -/

namespace TagPrompt.Prompt

/-- The number of brackets in a text. -/
def brackets (text : Text) : Nat := text.countP fun c => c ∈ ['{', '}', '[', ']']

/-- The number of commas in a text. -/
def commas (text : Text) : Nat := text.count ','

/-- By how much the level changes from tag to tag in all, starting at a level. -/
def variation (level : Int) : Prompt → Nat
  | [] => 0
  | tag :: rest => (tag.level.toInt - level).natAbs + variation tag.level.toInt rest

/-! ### What the writer writes -/

theorem brackets_append (text text' : Text) :
    brackets (text ++ text') = brackets text + brackets text' :=
  List.countP_append

theorem commas_append (text text' : Text) : commas (text ++ text') = commas text + commas text' :=
  List.count_append

theorem brackets_of_isPlain {t : Text} (h : t.IsPlain) : brackets t = 0 := by
  refine List.countP_eq_zero.mpr fun c hc => ?_
  rw [decide_eq_true_eq]
  exact levelChange?_eq_none_iff.mp (not_mem_marks_iff.mp (h.unmarked c hc)).2

theorem commas_of_isPlain {t : Text} (h : t.IsPlain) : commas t = 0 :=
  List.count_eq_zero.mpr fun hc => h.unmarked ',' hc (by decide)

theorem brackets_closing (level target : Int) :
    brackets (closing level target) =
      (min target 0 - level).toNat + (level - max target 0).toNat := by
  simp [brackets, closing, List.countP_append, List.countP_replicate]

theorem brackets_opening (level target : Int) :
    brackets (opening level target) =
      (target - max level 0).toNat + (min level 0 - target).toNat := by
  simp [brackets, opening, List.countP_append, List.countP_replicate]

theorem commas_closing (level target : Int) : commas (closing level target) = 0 := by
  simp [commas, closing, List.count_append, List.count_replicate]

theorem commas_opening (level target : Int) : commas (opening level target) = 0 := by
  simp [commas, opening, List.count_append, List.count_replicate]

theorem brackets_continuation {rest : Prompt} (h : rest.IsPlain) (level : Int) :
    brackets (continuation level rest) = variation level rest := by
  induction rest generalizing level with
  | nil => rfl
  | cons tag rest ih =>
      obtain ⟨htag, hrest⟩ := isPlain_cons.mp h
      have hseparator : brackets separator = 0 := by decide
      simp only [continuation, variation, brackets_append, brackets_closing, brackets_opening,
        hseparator, brackets_of_isPlain htag, ih hrest]
      omega

theorem commas_continuation {rest : Prompt} (h : rest.IsPlain) (level : Int) :
    commas (continuation level rest) = rest.length := by
  induction rest generalizing level with
  | nil => rfl
  | cons tag rest ih =>
      obtain ⟨htag, hrest⟩ := isPlain_cons.mp h
      have hseparator : commas separator = 1 := by decide
      simp only [continuation, commas_append, commas_closing, commas_opening, hseparator,
        commas_of_isPlain htag, ih hrest, List.length_cons]
      omega

theorem brackets_render {p : Prompt} (h : p.IsPlain) : brackets (render p) = variation 0 p := by
  cases p with
  | nil => rfl
  | cons tag rest =>
      obtain ⟨htag, hrest⟩ := isPlain_cons.mp h
      rw [render_cons h, brackets_append, brackets_append, brackets_opening,
        brackets_of_isPlain htag, brackets_continuation hrest, variation]
      omega

theorem commas_render {p : Prompt} (h : p.IsPlain) : commas (render p) = p.length - 1 := by
  cases p with
  | nil => rfl
  | cons tag rest =>
      obtain ⟨htag, hrest⟩ := isPlain_cons.mp h
      rw [render_cons h, commas_append, commas_append, commas_opening, commas_of_isPlain htag,
        commas_continuation hrest, List.length_cons]
      omega

/-! ### What any text has that is read so -/

theorem length_segments (level : Int32) (held : Text) (heldLevel : Int32) (text : Text) :
    (segments level held heldLevel text).length = commas text + 1 := by
  induction text generalizing level held heldLevel with
  | nil => rfl
  | cons c rest ih =>
      by_cases hcomma : c = ','
      · subst hcomma
        simp [segments_comma, ih, commas]
      · have hrest : commas (c :: rest) = commas rest := by simp [commas, hcomma]
        rw [segments, if_neg hcomma, hrest]
        split <;> exact ih ..

theorem length_parse_le (text : Text) (last : LastSegment) :
    (parse text last).length ≤ commas text + 1 := by
  rw [← length_segments 0 [] 0 text]
  cases last with
  | kept => exact List.length_filterMap_le ..
  | dropped => exact (List.length_filterMap_le ..).trans (by simp)

theorem variation_append_le (level : Int) (p q : Prompt) :
    variation level p ≤ variation level (p ++ q) := by
  induction p generalizing level with
  | nil => exact Nat.zero_le _
  | cons tag p ih => exact Nat.add_le_add_left (ih tag.level.toInt) _

theorem brackets_cons_of_change {c : Char} {change : Int} (h : levelChange? c = some change)
    (rest : Text) : brackets (c :: rest) = brackets rest + 1 := by
  have hmem : c ∈ ['{', '}', '[', ']'] := by
    by_contra hmem
    rw [levelChange?_eq_none_iff.mpr hmem] at h
    cases h
  simp only [brackets, List.countP_cons, decide_eq_true hmem, if_pos]

theorem brackets_cons_of_none {c : Char} (h : levelChange? c = none) (rest : Text) :
    brackets (c :: rest) = brackets rest := by
  simpa [brackets, List.countP_cons] using levelChange?_eq_none_iff.mp h

theorem of_tagOfSegment? {held : Text} {heldLevel : Int32} {tag : Tag}
    (h : tagOfSegment? ⟨held.reverse, heldLevel⟩ = some tag) :
    held ≠ [] ∧ tag.level = heldLevel := by
  obtain ⟨hblank, rfl⟩ := tagOfSegment?_eq_some_iff.mp h
  refine ⟨?_, rfl⟩
  rintro rfl
  exact hblank rfl

/-- The tags that are still to come move the level from that of the tag before, `base`, by no more
than the brackets read since that tag, `spent`, and those to come, where counting these does not
overflow. Of the former the brackets behind the last character held are not yet needed by any
tag. -/
theorem variation_segments_le {base : Int} {spent : Nat} {level : Int32} {held : Text}
    {heldLevel : Int32} {text : Text} (hcount : countable level text = true)
    (hlevel : (level.toInt - base).natAbs ≤ spent)
    (hheld : held ≠ [] →
      (heldLevel.toInt - base).natAbs + (level.toInt - heldLevel.toInt).natAbs ≤ spent) :
    variation base ((segments level held heldLevel text).filterMap tagOfSegment?) ≤
      spent + brackets text := by
  -- at a comma `base` becomes the level of the tag read, and what that tag took leaves `spent`
  induction text generalizing base spent level held heldLevel with
  | nil =>
      rw [segments, List.filterMap_cons]
      cases htag : tagOfSegment? ⟨held.reverse, heldLevel⟩ with
      | none => exact Nat.zero_le _
      | some tag =>
          obtain ⟨hsome, hsame⟩ := of_tagOfSegment? htag
          have := hheld hsome
          simp only [List.filterMap_nil, variation, hsame]
          omega
  | cons c rest ih =>
      by_cases hcomma : c = ','
      · subst hcomma
        rw [countable_of_none rfl] at hcount
        rw [segments_comma, List.filterMap_cons, brackets_cons_of_none rfl]
        cases htag : tagOfSegment? ⟨held.reverse, heldLevel⟩ with
        | none => exact ih hcount hlevel fun h => absurd rfl h
        | some tag =>
            obtain ⟨hsome, hsame⟩ := of_tagOfSegment? htag
            have := hheld hsome
            have hnext : variation heldLevel.toInt
                ((segments level [] 0 rest).filterMap tagOfSegment?) ≤
                  spent - (heldLevel.toInt - base).natAbs + brackets rest :=
              ih hcount (by omega) fun h => absurd rfl h
            simp only [variation, hsame]
            omega
      · cases hchange : levelChange? c with
        | some change =>
            have hone := eq_one_or_of_change hchange
            obtain ⟨hsum, hcount⟩ := countable_of_change hchange hcount
            have hnext : variation base
                ((segments (level + .ofInt change) held heldLevel rest).filterMap tagOfSegment?) ≤
                  spent + 1 + brackets rest :=
              ih hcount (by omega) fun h => by
                have := hheld h
                omega
            rw [segments_bracket _ _ _ hchange, brackets_cons_of_change hchange]
            omega
        | none =>
            have hmark := not_mem_marks_iff.mpr ⟨hcomma, hchange⟩
            rw [countable_of_none hchange] at hcount
            rw [segments_unmarked _ _ _ hmark, brackets_cons_of_none hchange]
            exact ih hcount hlevel fun _ => by omega

/-- Dropping the last segment takes tags away at the end only. -/
theorem parse_dropped_isPrefix (text : Text) : parse text .dropped <+: parse text .kept :=
  (List.dropLast_prefix _).filterMap tagOfSegment?

theorem variation_parse?_le {text : Text} {last : LastSegment} {p : Prompt}
    (h : parse? text last = some p) : variation 0 p ≤ brackets text := by
  obtain ⟨hcount, rfl⟩ := parse?_eq_some_iff.mp h
  have hkept : variation 0 (parse text .kept) ≤ brackets text := by
    have hle := @variation_segments_le 0 0 0 [] 0 text hcount le_rfl fun h => absurd rfl h
    rwa [Nat.zero_add] at hle
  cases last with
  | kept => exact hkept
  | dropped =>
      obtain ⟨behind, hbehind⟩ := parse_dropped_isPrefix text
      calc variation 0 (parse text .dropped)
        _ ≤ variation 0 (parse text .dropped ++ behind) := variation_append_le 0 _ behind
        _ = variation 0 (parse text .kept) := by rw [hbehind]
        _ ≤ brackets text := hkept

theorem commas_render_parse_le (text : Text) (last : LastSegment) :
    commas (render (parse text last)) ≤ commas text := by
  rw [commas_render (isPlain_parse text last)]
  exact Nat.sub_le_of_le_add (length_parse_le text last)

theorem brackets_render_le {text : Text} {last : LastSegment} {p : Prompt}
    (h : parse? text last = some p) : brackets (render p) ≤ brackets text := by
  have hplain : p.IsPlain := by
    rw [← (parse?_eq_some_iff.mp h).2]
    exact isPlain_parse text last
  rw [brackets_render hplain]
  exact variation_parse?_le h

end TagPrompt.Prompt
