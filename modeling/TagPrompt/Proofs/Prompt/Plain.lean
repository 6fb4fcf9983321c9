import TagPrompt.Prompt.Reading
import TagPrompt.Proofs.Text.Trim

/-! Plain texts. What stands between the commas of a weight-bracket text, without brackets and
blanks around it, is a plain text, so every tag that is read has one. -/

namespace TagPrompt

namespace Text

/-- The characters that shape a prompt and belong to no tag. -/
def marks : Text := [',', '{', '}', '[', ']']

/-- A text that a tag can have. -/
structure IsPlain (t : Text) : Prop where
  nonempty : t ≠ []
  trimmed : trim t = t
  unmarked : ∀ c ∈ t, c ∉ marks

theorem isPlain_iff {t : Text} :
    t.IsPlain ↔ t ≠ [] ∧ trim t = t ∧ (t.all fun c => decide (c ∉ marks)) = true := by
  simp only [List.all_eq_true, decide_eq_true_eq]
  exact ⟨fun h => ⟨h.1, h.2, h.3⟩, fun h => ⟨h.1, h.2.1, h.2.2⟩⟩

instance (t : Text) : Decidable t.IsPlain := decidable_of_iff _ isPlain_iff.symm

theorem isPlain_trim {t : Text} (hblank : trim t ≠ []) (hmarks : ∀ c ∈ t, c ∉ marks) :
    (trim t).IsPlain where
  nonempty := hblank
  trimmed := trim_trim t
  unmarked c hc := hmarks c (mem_of_mem_trim hc)

end Text

namespace Prompt

/-- Every tag has a plain text; the levels are free. -/
def IsPlain (p : Prompt) : Prop := ∀ tag ∈ p, tag.text.IsPlain

instance (p : Prompt) : Decidable p.IsPlain := List.decidableBAll _ p

theorem isPlain_cons {tag : Tag} {rest : Prompt} :
    IsPlain (tag :: rest) ↔ tag.text.IsPlain ∧ IsPlain rest :=
  List.forall_mem_cons

theorem isPlain_nil : IsPlain [] := fun _ h => absurd h List.not_mem_nil

theorem isPlain_append {p q : Prompt} : IsPlain (p ++ q) ↔ IsPlain p ∧ IsPlain q :=
  List.forall_mem_append

theorem levelChange?_eq_none_iff {c : Char} :
    levelChange? c = none ↔ c ∉ ['{', '}', '[', ']'] := by
  simp only [levelChange?, List.mem_cons, List.not_mem_nil, or_false, not_or]
  split_ifs with hup hdown
  · rcases hup with rfl | rfl <;> simp
  · rcases hdown with rfl | rfl <;> simp
  · simp only [not_or] at hup hdown
    exact ⟨fun _ => ⟨hup.1, hdown.1, hdown.2, hup.2⟩, fun _ => rfl⟩

theorem not_mem_marks_iff {c : Char} : c ∉ Text.marks ↔ c ≠ ',' ∧ levelChange? c = none := by
  rw [levelChange?_eq_none_iff, Text.marks, List.mem_cons, not_or]

/-! ### Reading character by character -/

variable (level : Int32) (held : Text) (heldLevel : Int32)

theorem segments_comma (rest : Text) :
    segments level held heldLevel (',' :: rest) =
      ⟨held.reverse, heldLevel⟩ :: segments level [] 0 rest := by
  rw [segments, if_pos rfl]

theorem segments_bracket {c : Char} {change : Int} (h : levelChange? c = some change)
    (rest : Text) :
    segments level held heldLevel (c :: rest) =
      segments (level + .ofInt change) held heldLevel rest := by
  have hcomma : c ≠ ',' := by
    rintro rfl
    cases h
  rw [segments, if_neg hcomma, h]

theorem segments_unmarked {c : Char} (h : c ∉ Text.marks) (rest : Text) :
    segments level held heldLevel (c :: rest) = segments level (c :: held) level rest := by
  obtain ⟨hcomma, hchange⟩ := not_mem_marks_iff.mp h
  rw [segments, if_neg hcomma, hchange]

/-- A segment holds the characters held so far and unmarked characters of the text. -/
theorem unmarked_of_mem_segments {text : Text} {segment : Tag}
    (hheld : ∀ c ∈ held, c ∉ Text.marks) (h : segment ∈ segments level held heldLevel text) :
    ∀ c ∈ segment.text, c ∉ Text.marks := by
  induction text generalizing level held heldLevel with
  | nil =>
      rw [segments, List.mem_singleton] at h
      subst h
      exact fun c hc => hheld c (List.mem_reverse.mp hc)
  | cons c rest ih =>
      by_cases hcomma : c = ','
      · subst hcomma
        rw [segments_comma, List.mem_cons] at h
        rcases h with rfl | h
        · exact fun c hc => hheld c (List.mem_reverse.mp hc)
        · exact ih level [] 0 (fun c hc => absurd hc List.not_mem_nil) h
      · cases hchange : levelChange? c with
        | some change =>
            rw [segments_bracket level held heldLevel hchange] at h
            exact ih (level + .ofInt change) held heldLevel hheld h
        | none =>
            have hmark := not_mem_marks_iff.mpr ⟨hcomma, hchange⟩
            rw [segments_unmarked level held heldLevel hmark] at h
            refine ih level (c :: held) level (fun d hd => ?_) h
            rcases List.mem_cons.mp hd with rfl | hd
            · exact hmark
            · exact hheld d hd

/-! ### The tags that are read -/

theorem tagOfSegment?_eq_some_iff {segment tag : Tag} :
    tagOfSegment? segment = some tag ↔
      Text.trim segment.text ≠ [] ∧ tag = ⟨Text.trim segment.text, segment.level⟩ := by
  rw [tagOfSegment?]
  split_ifs with hblank
  · rw [List.isEmpty_iff] at hblank
    simp only [hblank, ne_eq, not_true_eq_false, false_and]
  · rw [List.isEmpty_iff] at hblank
    simp only [Option.some.injEq, ne_eq, hblank, not_false_eq_true, true_and, eq_comm]

/-- The segments that become tags, in each way to treat the last one. -/
theorem mem_segments_of_mem_parse {text : Text} {last : LastSegment} {tag : Tag}
    (h : tag ∈ parse text last) :
    ∃ segment ∈ segments 0 [] 0 text, tagOfSegment? segment = some tag := by
  unfold parse at h
  obtain ⟨segment, hsegment, htag⟩ := List.mem_filterMap.mp h
  refine ⟨segment, ?_, htag⟩
  cases last with
  | kept => exact hsegment
  | dropped => exact (List.dropLast_sublist _).subset hsegment

theorem isPlain_parse (text : Text) (last : LastSegment) : (parse text last).IsPlain := by
  intro tag htag
  obtain ⟨segment, hsegment, hread⟩ := mem_segments_of_mem_parse htag
  obtain ⟨hblank, rfl⟩ := tagOfSegment?_eq_some_iff.mp hread
  exact Text.isPlain_trim hblank
    (unmarked_of_mem_segments 0 [] 0 (fun c hc => absurd hc List.not_mem_nil) hsegment)

end Prompt
end TagPrompt
