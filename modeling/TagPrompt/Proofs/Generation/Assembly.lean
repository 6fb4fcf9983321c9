import TagPrompt.Proofs.Generation.Stability
import TagPrompt.Proofs.Prompt.Distinct

/-! What a prompt is assembled from. Finishing a prompt drops the tags whose texts stand before
them, changes places and respells texts, one tag at a time, and does nothing else. So an assembled
prompt has the tags of its parts, each text once and with the level of its first place. -/

namespace TagPrompt

variable {σ : Type} [ChoiceSource σ]

namespace Prompt

theorem mapText_id (p : Prompt) : p.mapText id = p := List.map_id p

theorem texts_mapText (f : Text → Text) (p : Prompt) : (p.mapText f).texts = p.texts.map f := by
  simp [texts, mapText]

end Prompt

namespace Generator

variable {g : Generator} {p : Prompt} {tag : Tag} {text : Text}

/-- How the options spell the text of a tag. -/
def respelled (g : Generator) : Text → Text :=
  if g.options.naiStandard then Prompt.standardText g.categories.artist else id

/-! ### Finishing -/

theorem finish_eq (g : Generator) (p : Prompt) :
    g.finish p =
      if g.options.reorder then (p.distinct.reorder g.categories).mapText g.respelled
      else p.distinct.mapText g.respelled := by
  unfold finish respelled
  cases g.options.reorder <;> cases g.options.naiStandard <;>
    simp [Prompt.mapText_id, Prompt.standardize]

theorem finish_of_unordered (h : g.options.reorder = false) (p : Prompt) :
    g.finish p = p.firstOccurrences.mapText g.respelled := by
  rw [finish_eq, h, if_neg Bool.false_ne_true, Prompt.distinct_eq_firstOccurrences]

/-- Finishing keeps the first tag of every text and respells it, in some order. -/
theorem finish_perm (g : Generator) (p : Prompt) :
    (g.finish p).Perm (p.firstOccurrences.mapText g.respelled) := by
  rw [finish_eq, ← Prompt.distinct_eq_firstOccurrences]
  split_ifs
  · exact (Prompt.reorder_perm g.categories p.distinct).map _
  · exact List.Perm.refl _

/-- The first tag of a text keeps its level. -/
theorem mem_finish_of_first (h : p.find? (fun other => other.text == tag.text) = some tag) :
    ⟨g.respelled tag.text, tag.level⟩ ∈ g.finish p := by
  rw [(finish_perm g p).mem_iff, ← Prompt.distinct_eq_firstOccurrences]
  apply List.mem_map.mpr
  exact ⟨tag, Prompt.mem_distinct_iff.mpr h, rfl⟩

theorem mem_texts_finish (h : text ∈ p.texts) : g.respelled text ∈ (g.finish p).texts := by
  obtain ⟨tag, htag, rfl⟩ := List.mem_map.mp (Prompt.mem_texts_distinct.mpr h)
  have hfirst := Prompt.mem_distinct_iff.mp htag
  exact List.mem_map_of_mem (mem_finish_of_first hfirst)

end Generator

/-- **Assembly loses and invents nothing.** Where a prompt is generated, the assembled prompt has
the first tags of the texts of the beginning, of what filtering leaves and of the ending, each
respelled, in this order unless prompts are ordered. So no text of the beginning or the ending is
lost, and those of the beginning have the level that they have there first; what filtering leaves
are tags of the line that was found, in their order. -/
theorem assembly_keeps_first_occurrences (g : Generator) (cache : AnswerCache) (request : Request)
    (s : σ) (out : GeneratedPrompt) (h : (g.generate cache request s).1 = .ok out) :
    let beginning := expand g.wildcards request.beginning s
    let ending := expand g.wildcards request.ending beginning.2
    let front := g.parse beginning.1
    let back := g.parse ending.1
    let around := (g.fragments request s).1.around
    ∃ found, (g.search cache (g.fragments request s).1.search (g.fragments request s).2).1 =
        .ok found ∧
      let left := g.filtered around found
      let assembled := g.assemble around found
      let kept := (front ++ left ++ back).firstOccurrences.mapText g.respelled
      out.prompt = assembled.render ∧ Prompt.parse out.prompt .kept = assembled ∧
        assembled.Perm kept ∧ (g.options.reorder = false → assembled = kept) ∧
        (∀ text ∈ front.texts ++ back.texts, g.respelled text ∈ assembled.texts) ∧
        (∀ tag, front.find? (fun other => other.text == tag.text) = some tag →
          ⟨g.respelled tag.text, tag.level⟩ ∈ assembled) ∧
        left.Sublist found ∧
        (found = [] ∨
          ∃ offset line, g.corpus.promptAt offset = .prompt line ∧
            found = g.promptOfLine line) := by
  intro beginning ending front back around
  obtain ⟨found, trace, hsearch, hprompt, -, -⟩ := Generator.exists_of_generate h
  have hfound := congrArg Prod.fst hsearch
  refine ⟨found, hfound, ?_⟩
  intro left assembled kept
  have hparsed : Prompt.parse out.prompt .kept = assembled := by
    rw [hprompt]
    exact Prompt.parse_render (Generator.isPlain_assembled hfound)
  refine ⟨hprompt, hparsed, g.finish_perm _, fun hunordered => g.finish_of_unordered hunordered _,
    fun text htext => ?_, fun tag htag => ?_, filtered_sublist g around found,
    Generator.exists_line_of_search hfound⟩
  · apply Generator.mem_texts_finish
    rw [Prompt.texts, List.map_append, List.map_append]
    rcases List.mem_append.mp htext with hfront | hback
    · exact List.mem_append_left _ (List.mem_append_left _ hfront)
    · exact List.mem_append_right _ hback
  · apply Generator.mem_finish_of_first
    change (front ++ left ++ back).find? _ = some tag
    rw [List.append_assoc, List.find?_append, htag]
    rfl

/-- A list that names a tag twice, and another one that names it too. -/
theorem assembly_keeps_first_occurrences_overlapping_lists :
    let layout := CorpusLayout.ofPrompts ["1girl, solo, smile, rating:g, rain".toList]
    let g : Generator :=
      { resolver := ⟨layout.index, layout.positionSource.source, 0⟩
        corpus := ⟨layout.corpusSource.source, 60, 0⟩
        wildcards := .empty
        categories :=
          { count := ["1girl".toList, "1girl".toList], character := ["1girl".toList]
            artist := ["wlop".toList], quality := ["masterpiece".toList] }
        options := { naiStandard := true } }
    let request : Request :=
      { beginning := "\x7bmasterpiece\x7d, [wlop], smile, [smile]".toList, search := "1girl".toList
        ending := "rain".toList }
    let out : GeneratedPrompt :=
      { prompt := "1girl, [artist:wlop], smile, solo, rain, \x7bmasterpiece".toList, negative := []
        characters := [] }
    let around := (g.fragments request (Words.cycling [0])).1.around
    (g.generate none request (Words.cycling [0])).1 = .ok out ∧
      ∃ found, (g.search none (g.fragments request (Words.cycling [0])).1.search
          (g.fragments request (Words.cycling [0])).2).1 = .ok found ∧
        (g.assemble around found).Perm
          ((around.beginning ++ g.filtered around found ++ around.ending).firstOccurrences.mapText
            g.respelled) := by
  intro layout g request out around
  have h : (g.generate none request (Words.cycling [0])).1 = .ok out := by decide +kernel
  obtain ⟨found, hfound, -, -, hperm, -⟩ :=
    assembly_keeps_first_occurrences g none request (Words.cycling [0]) out h
  exact ⟨h, found, hfound, hperm⟩

end TagPrompt
