import TagPrompt.Proofs.CorpusLayout.Reading
import TagPrompt.Proofs.CorpusLayout.Table

/-! Searching a laid out corpus from end to end. The offsets that a search finds are those of the
lines whose prompts have the wanted tags and none of the unwanted ones, and at each of them the
corpus gives the prompt back. -/

namespace TagPrompt

/-- A prompt has every wanted tag and no unwanted one among its trimmed parts. -/
def Query.Matches (q : Query) (prompt : Text) : Prop :=
  (∀ tag ∈ q.wanted, tag ∈ prompt.trimmedParts) ∧ ∀ tag ∈ q.unwanted, tag ∉ prompt.trimmedParts

instance (q : Query) (prompt : Text) : Decidable (q.Matches prompt) :=
  inferInstanceAs (Decidable (_ ∧ _))

theorem Query.matches_withoutReturn (q : Query) (prompt : Text) :
    q.Matches prompt.withoutReturn ↔ q.Matches prompt := by
  rw [Matches, Matches, Text.trimmedParts_withoutReturn]

namespace CorpusLayout

/-- The lines of a corpus whose prompts match a query. -/
def matching (layout : CorpusLayout) (q : Query) : List (Offset × Text) :=
  layout.lines.filter fun line => q.Matches line.2

variable {prompts : List Text} {q : Query} {r : Resolver} {line : Offset × Text}

theorem mem_matching {layout : CorpusLayout} :
    line ∈ layout.matching q ↔ line ∈ layout.lines ∧ q.Matches line.2 := by
  rw [matching, List.mem_filter, decide_eq_true_iff]

theorem map_snd_matching (prompts : List Text) (q : Query) :
    ((ofPrompts prompts).matching q).map Prod.snd = prompts.filter fun p => q.Matches p :=
  map_snd_filter_lines prompts fun p => q.Matches p

theorem matching_ascending (hsize : (ofPrompts prompts).corpus.length < UInt32.size) (q : Query) :
    (((ofPrompts prompts).matching q).map Prod.fst).Pairwise (· < ·) :=
  map_fst_filter_lines_ascending hsize _

/-- A query of tags that are not empty selects the offsets of the matching lines. -/
theorem selects_matching (hsize : (ofPrompts prompts).corpus.length < UInt32.size)
    (hindex : r.index = (ofPrompts prompts).index) (hwanted : q.wanted ≠ [])
    (htags : ∀ tag ∈ q.wanted ++ q.unwanted, tag ≠ []) :
    q.Selects (r.setIn (ofPrompts prompts).positions)
      (((ofPrompts prompts).matching q).map Prod.fst) where
  ascending := matching_ascending hsize q
  mem_iff x := by
    -- lines of one offset are one line, so at an offset the sets of all tags speak of the same prompt
    have hset : ∀ tag ∈ q.wanted ++ q.unwanted, ∀ line ∈ (ofPrompts prompts).lines, x = line.1 →
        (x ∈ r.setIn (ofPrompts prompts).positions tag ↔ tag ∈ line.2.trimmedParts) := by
      intro tag htag line hline hx
      rw [mem_setIn (indexable_of_size hsize) hindex]
      constructor
      · rintro ⟨line', hline', hpart, hx'⟩
        have hsame : line' = line :=
          eq_of_offset_eq hsize hline' hline (hx'.symm.trans hx)
        rw [← hsame]
        exact (Text.mem_parts.mp hpart).1
      · exact fun hpart => ⟨line, hline, Text.mem_parts.mpr ⟨hpart, htags tag htag⟩, hx⟩
    obtain ⟨hin, hout⟩ := List.forall_mem_append.mp hset
    rw [List.mem_map]
    constructor
    · rintro ⟨line, hmatching, rfl⟩
      obtain ⟨hline, hmatch⟩ := mem_matching.mp hmatching
      exact ⟨fun tag htag => (hin tag htag line hline rfl).mpr (hmatch.1 tag htag),
        fun tag htag hx => hmatch.2 tag htag ((hout tag htag line hline rfl).mp hx)⟩
    · rintro ⟨hall, hnone⟩
      obtain ⟨first, hfirst⟩ := List.exists_mem_of_ne_nil q.wanted hwanted
      obtain ⟨line, hline, -, hx⟩ :=
        (mem_setIn (indexable_of_size hsize) hindex).mp (hall first hfirst)
      refine ⟨line, mem_matching.mpr ⟨hline, fun tag htag => ?_, fun tag htag hpart => ?_⟩, hx.symm⟩
      · exact (hin tag htag line hline hx).mp (hall tag htag)
      · exact hnone tag htag ((hout tag htag line hline hx).mpr hpart)

theorem knows_of_occur (hindex : r.index = (ofPrompts prompts).index)
    (htags : ∀ tag ∈ q.wanted ++ q.unwanted, tag ≠ [])
    (hoccur : ∀ tag ∈ q.wanted ++ q.unwanted, ∃ p ∈ prompts, tag ∈ p.trimmedParts) :
    r.index.Knows q := by
  intro tag htag
  obtain ⟨prompt, hprompt, hpart⟩ := hoccur tag htag
  rw [← map_snd_lines prompts, List.mem_map] at hprompt
  obtain ⟨line, hline, rfl⟩ := hprompt
  have hnotes : Notes (ofPrompts prompts).groups tag line.1 :=
    (notes_ofPrompts prompts).mpr ⟨line, hline, Text.mem_parts.mpr ⟨hpart, htags tag htag⟩, rfl⟩
  rw [hindex]
  exact exists_entry_of_notes hnotes

/-- The corpus gives the prompt of every line back, less a carriage return at its end. -/
theorem promptAt_of_mem_lines {corpus : Corpus}
    (hsize : (ofPrompts prompts).corpus.length < UInt32.size)
    (hline : line ∈ (ofPrompts prompts).lines) (hfree : '\n' ∉ line.2)
    (hwindow : (Utf8.encode line.2).length < corpus.window.toNat)
    (hfits : corpus.WindowFits line.1)
    (hserves : corpus.source.ServesAt (ofPrompts prompts).corpus corpus.limit
      (corpus.rangeAt line.1)) :
    corpus.promptAt line.1 = .prompt line.2.withoutReturn := by
  rw [promptAt_eq hsize hserves hfits hline hfree, if_pos hwindow]

theorem offset_le_length_corpus (hsize : (ofPrompts prompts).corpus.length < UInt32.size)
    (hline : line ∈ (ofPrompts prompts).lines) :
    line.1.toNat ≤ (ofPrompts prompts).corpus.length := by
  obtain ⟨before, after, hsplit, hoffset⟩ := exists_split_of_mem_lines hsize hline
  rw [hsplit, hoffset, List.length_append]
  exact Nat.le_add_right before.length _

/-- In memory a read that ends with bytes is all it takes, however wide the window is: where its end
wraps the read crashes. -/
theorem promptAt_of_mem_lines_in_memory {corpus : Corpus} {m : MemorySource} {bytes : Bytes}
    (hsize : (ofPrompts prompts).corpus.length < UInt32.size)
    (hline : line ∈ (ofPrompts prompts).lines) (hfree : '\n' ∉ line.2)
    (hwindow : (Utf8.encode line.2).length < corpus.window.toNat)
    (hsource : corpus.source = m.source) (hcontent : m.content = (ofPrompts prompts).corpus)
    (hread : (corpus.source.readWithin corpus.limit (corpus.rangeAt line.1)).reading =
      .bytes bytes) :
    corpus.promptAt line.1 = .prompt line.2.withoutReturn := by
  have hinside : (corpus.rangeAt line.1).start ≤ m.content.length := by
    rw [hcontent]
    exact offset_le_length_corpus hsize hline
  rw [hsource] at hread
  obtain ⟨hordered, hserves⟩ := MemorySource.servesAt_of_reading hread hinside
  rw [hcontent, ← hsource] at hserves
  have hfits : corpus.WindowFits line.1 := by
    by_contra hwraps
    exact Nat.not_le.mpr (Corpus.rangeAt_inverted hwraps) hordered
  exact promptAt_of_mem_lines hsize hline hfree hwindow hfits hserves

end CorpusLayout
end TagPrompt
