import TagPrompt.Proofs.Generation.Assembly
import TagPrompt.Proofs.Prompt.Spelling

/-! Repeated tags of finished prompts. Repetitions are dropped first and texts are respelled last,
so a finished prompt repeats a tag exactly where the standard vocabulary spells two of its texts
alike. -/

namespace TagPrompt

variable {σ : Type} [ChoiceSource σ]

namespace Generator

theorem texts_finish_perm (g : Generator) (p : Prompt) :
    (g.finish p).texts.Perm (p.distinct.texts.map g.respelled) := by
  have hperm := (finish_perm g p).map Tag.text
  rw [← Prompt.distinct_eq_firstOccurrences] at hperm
  rwa [← Prompt.texts_mapText]

theorem nodup_texts_finish_iff (g : Generator) (p : Prompt) :
    (g.finish p).texts.Nodup ↔
      g.options.naiStandard = false ∨
        ∀ x ∈ p.texts, ∀ y ∈ p.texts, ¬Prompt.SpelledAlike g.categories.artist x y := by
  have hdistinct := Prompt.nodup_texts_distinct p
  rw [(texts_finish_perm g p).nodup_iff, respelled]
  cases g.options.naiStandard with
  | false => simpa using hdistinct
  | true =>
      rw [if_pos rfl, Prompt.nodup_map_standardText_iff hdistinct]
      simp [Prompt.mem_texts_distinct]

end Generator

/-- **Finished prompts repeat what is spelled alike.** Where a prompt is generated, it and the texts
of the characters are written for finished prompts, and dropping repeated tags once more changes
such a prompt exactly where it repeats a text: never where texts are left as they are, and in the
standard vocabulary exactly where this spells two texts of the prompt alike. -/
theorem repeated_tags_are_spelled_alike (g : Generator) (cache : AnswerCache) (request : Request)
    (s : σ) (out : GeneratedPrompt) (h : (g.generate cache request s).1 = .ok out) :
    let around := (g.fragments request s).1.around
    ∃ found trace, g.search cache (g.fragments request s).1.search (g.fragments request s).2 =
        (.ok found, trace) ∧
      let joined := around.beginning ++ g.filtered around found ++ around.ending
      let sources := joined :: g.characterPrompts request.characters trace.choices
      out.prompt :: out.characters = sources.map (fun p => (g.finish p).render) ∧
        ∀ p ∈ sources,
          Prompt.parse (g.finish p).render .kept = g.finish p ∧
            ((g.finish p).distinct = g.finish p ↔ (g.finish p).texts.Nodup) ∧
            ((g.finish p).texts.Nodup ↔
              g.options.naiStandard = false ∨
                ∀ x ∈ p.texts, ∀ y ∈ p.texts,
                  ¬Prompt.SpelledAlike g.categories.artist x y) := by
  intro around
  obtain ⟨found, trace, hsearch, hprompt, -, hcharacters⟩ := Generator.exists_of_generate h
  refine ⟨found, trace, hsearch, ?_⟩
  intro joined sources
  have hassembled : g.assemble around found = g.finish joined := rfl
  constructor
  · rw [hprompt, hcharacters, Generator.characters_eq, List.map_cons, hassembled]
  · intro p hp
    have hplain : (g.finish p).IsPlain := by
      rcases List.mem_cons.mp hp with rfl | hp
      · exact Generator.isPlain_assembled (congrArg Prod.fst hsearch)
      · exact Generator.isPlain_finish (Generator.isPlain_of_mem_characterPrompts hp)
    exact ⟨Prompt.parse_render hplain, Prompt.distinct_eq_self_iff,
      Generator.nodup_texts_finish_iff g p⟩

/-- An artist without and with the lead in the prompt, and two distinct tags of a character. -/
theorem repeated_tags_are_spelled_alike_artist :
    let g : Generator :=
      { resolver :=
          { index := .ofEntries [], positions := MemorySource.source { content := [] }, limit := 0 }
        corpus := { source := MemorySource.source { content := [] }, window := 0, limit := 0 }
        wildcards := .empty
        categories := { artist := ["wlop".toList] }
        options := { naiStandard := true } }
    let request : Request :=
      { beginning := "artist:wlop".toList, ending := "wlop, rain".toList
        characters := ["smile, v, smile".toList] }
    let out : GeneratedPrompt :=
      { prompt := "artist:wlop, artist:wlop, rain".toList, negative := []
        characters := ["smile, peace sign".toList] }
    (g.generate none request (Words.cycling [0])).1 = .ok out ∧
      ∃ p : Prompt, out.prompt = (g.finish p).render ∧
        ((g.finish p).texts.Nodup ↔
          g.options.naiStandard = false ∨
            ∀ x ∈ p.texts, ∀ y ∈ p.texts, ¬Prompt.SpelledAlike g.categories.artist x y) := by
  intro g request out
  have h : (g.generate none request (Words.cycling [0])).1 = .ok out := by decide +kernel
  obtain ⟨found, trace, -, hwritten, hsources⟩ :=
    repeated_tags_are_spelled_alike g none request (Words.cycling [0]) out h
  obtain ⟨hprompt, -⟩ := List.cons.inj hwritten
  exact ⟨h, _, hprompt, (hsources _ List.mem_cons_self).2.2⟩

/-- The tag `v` is respelled to a tag that the prompt has already. -/
theorem generated_prompt_repeats_respelled_tag :
    ¬∀ (g : Generator) (cache : AnswerCache) (request : Request) (s : Words)
      (out : GeneratedPrompt), (g.generate cache request s).1 = .ok out →
        ∀ text ∈ out.prompt :: out.characters, (Prompt.parse text .kept).texts.Nodup := by
  intro hall
  let g : Generator :=
    { resolver :=
        { index := .ofEntries [], positions := MemorySource.source { content := [] }, limit := 0 }
      corpus := { source := MemorySource.source { content := [] }, window := 0, limit := 0 }
      wildcards := .empty
      categories := {}
      options := { naiStandard := true } }
  let request : Request := { beginning := "v, peace sign".toList }
  let out : GeneratedPrompt :=
    { prompt := "peace sign, peace sign".toList, negative := [], characters := [] }
  have h : (g.generate none request (Words.cycling [0])).1 = .ok out := by decide +kernel
  have hnodup := hall g none request (Words.cycling [0]) out h out.prompt List.mem_cons_self
  revert hnodup
  decide

end TagPrompt
