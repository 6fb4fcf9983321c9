import TagPrompt.Proofs.Prompt.RoundTrip

/-! Appending a tag to a text. Behind a separator, a plain text is one more segment, whatever groups
the text before it leaves open. So it is one more tag where the last segment is kept, and where the
last segment is dropped, it is the one that goes. -/

namespace TagPrompt.Prompt

variable {t : Text}

/-- A comma divides the segments; behind it the level is what the brackets before it come to. -/
theorem exists_segments_comma (level : Int32) (held : Text) (heldLevel : Int32)
    (text tail : Text) :
    ∃ level', segments level held heldLevel (text ++ ',' :: tail) =
      segments level held heldLevel text ++ segments level' [] 0 tail := by
  induction text generalizing level held heldLevel with
  | nil => exact ⟨level, segments_comma level held heldLevel tail⟩
  | cons c rest ih =>
      by_cases hcomma : c = ','
      · subst hcomma
        obtain ⟨level', hrest⟩ := ih level [] 0
        refine ⟨level', ?_⟩
        rw [List.cons_append, segments_comma, segments_comma, hrest, List.cons_append]
      · cases hchange : levelChange? c with
        | some change =>
            obtain ⟨level', hrest⟩ := ih (level + .ofInt change) held heldLevel
            refine ⟨level', ?_⟩
            rw [List.cons_append, segments_bracket _ _ _ hchange, segments_bracket _ _ _ hchange,
              hrest]
        | none =>
            have hmark := not_mem_marks_iff.mpr ⟨hcomma, hchange⟩
            obtain ⟨level', hrest⟩ := ih level (c :: held) level
            refine ⟨level', ?_⟩
            rw [List.cons_append, segments_unmarked _ _ _ hmark, segments_unmarked _ _ _ hmark,
              hrest]

theorem exists_segments_append (ht : t.IsPlain) (text : Text) :
    ∃ level, segments 0 [] 0 (text ++ separator ++ t) =
      segments 0 [] 0 text ++ [⟨' ' :: t, level⟩] := by
  have hmarks : ∀ c ∈ ' ' :: t, c ∉ Text.marks :=
    List.forall_mem_cons.mpr ⟨by decide, ht.unmarked⟩
  obtain ⟨level, hcomma⟩ := exists_segments_comma 0 [] 0 text (' ' :: t)
  have hlast : segments level [] 0 (' ' :: t) = [⟨' ' :: t, level⟩] := by
    have htext : segments level [] 0 (' ' :: t ++ []) =
        segments level ((' ' :: t).reverse ++ []) level [] :=
      segments_text (List.cons_ne_nil ' ' t) hmarks level
    rw [List.append_nil, List.append_nil] at htext
    rw [htext, segments, List.reverse_reverse]
  refine ⟨level, ?_⟩
  rw [← hlast, ← hcomma, separator, List.append_assoc]
  rfl

theorem exists_parse_append (ht : t.IsPlain) (text : Text) :
    ∃ level, parse (text ++ separator ++ t) .kept = parse text .kept ++ [⟨t, level⟩] := by
  obtain ⟨level, hsegments⟩ := exists_segments_append ht text
  have htrim : Text.trim (' ' :: t) = t := by
    rw [Text.trim_cons (by decide), ht.trimmed]
  have hread : tagOfSegment? ⟨' ' :: t, level⟩ = some ⟨t, level⟩ := tagOfSegment?_of_trim ht htrim
  refine ⟨level, ?_⟩
  unfold parse
  rw [hsegments, List.filterMap_append, List.filterMap_cons_some hread, List.filterMap_nil]

/-- The appended tag is dropped in place of what the text ends with. -/
theorem parse_append_dropped (ht : t.IsPlain) (text : Text) :
    parse (text ++ separator ++ t) .dropped = parse text .kept := by
  obtain ⟨level, hsegments⟩ := exists_segments_append ht text
  have hdropped : (segments 0 [] 0 (text ++ separator ++ t)).dropLast = segments 0 [] 0 text := by
    rw [hsegments, List.dropLast_concat]
  exact congrArg (List.filterMap tagOfSegment?) hdropped

end TagPrompt.Prompt
