import TagPrompt.Choice.Basic
import TagPrompt.CorpusLayout
import TagPrompt.Proofs.Generation.Filtering
import TagPrompt.Proofs.Prompt.Arranging
import TagPrompt.Proofs.Prompt.RoundTrip

/-! The texts that are generated are stable: reading one and writing what was read gives it back.
Every text is written for tags that come from reading, and no step from reading to writing gives a
tag a text that is not plain. -/

namespace TagPrompt

variable {σ : Type} [ChoiceSource σ]

/-- An operation that gives no tag of a plain prompt a text that is not plain. -/
def KeepsPlain (f : Prompt → Prompt) : Prop := ∀ p : Prompt, p.IsPlain → (f p).IsPlain

/-! ### Ratings -/

theorem isPlain_lengthenRating {t : Text} (h : t.IsPlain) : (lengthenRating t).IsPlain := by
  have hnames : ∀ names ∈ ratings, names.long.IsPlain := by decide
  unfold lengthenRating
  split
  · rename_i names hnames'
    exact hnames names (List.mem_of_find?_eq_some hnames')
  · exact h

theorem Prompt.IsPlain.lengthenRatings {p : Prompt} (h : p.IsPlain) : p.lengthenRatings.IsPlain :=
  h.mapText fun _ ht => isPlain_lengthenRating ht

namespace Generator

variable {g : Generator} {cache : AnswerCache} {request : Request} {s : σ} {p found : Prompt}

/-! ### From reading to writing -/

theorem isPlain_filtered (around : Surroundings) (h : found.IsPlain) :
    (g.filtered around found).IsPlain :=
  h.subset (filtered_sublist g around found).subset

theorem isPlain_finish (h : p.IsPlain) : (g.finish p).IsPlain := by
  have hdistinct := h.distinct
  unfold finish
  split_ifs
  · exact (hdistinct.reorder g.categories).standardize g.categories
  · exact hdistinct.reorder g.categories
  · exact hdistinct.standardize g.categories
  · exact hdistinct

theorem isPlain_fragments (g : Generator) (request : Request) (s : σ) :
    (g.fragments request s).1.around.beginning.IsPlain ∧
      (g.fragments request s).1.around.ending.IsPlain ∧
      (g.fragments request s).1.around.negative.IsPlain :=
  ⟨Prompt.isPlain_parse _ _, Prompt.isPlain_parse _ _, Prompt.isPlain_parse _ _⟩

theorem isPlain_assemble {around : Surroundings} (hbeginning : around.beginning.IsPlain)
    (hending : around.ending.IsPlain) (hfound : found.IsPlain) :
    (g.assemble around found).IsPlain := by
  have hfiltered : (g.filtered around found).IsPlain := isPlain_filtered around hfound
  have hfront := Prompt.isPlain_append.mpr ⟨hbeginning, hfiltered⟩
  exact isPlain_finish (Prompt.isPlain_append.mpr ⟨hfront, hending⟩)

theorem isPlain_promptOfLine (g : Generator) (line : Text) : (g.promptOfLine line).IsPlain :=
  (Prompt.isPlain_parse line g.lastSegment).lengthenRatings

/-- What a search finds is the prompt of a line, or empty. -/
theorem exists_line_of_find {q : Query} (h : (g.find cache q s).1 = .ok found) :
    found = [] ∨
      ∃ offset line, g.corpus.promptAt offset = .prompt line ∧ found = g.promptOfLine line := by
  unfold find at h
  dsimp only at h
  split at h
  · cases h
  · split at h
    · cases h
      exact .inl rfl
    · split at h
      · rename_i hline
        cases h
        exact .inr ⟨_, _, hline, rfl⟩
      · cases h
      · cases h

theorem exists_line_of_search (h : (g.search cache p s).1 = .ok found) :
    found = [] ∨
      ∃ offset line, g.corpus.promptAt offset = .prompt line ∧ found = g.promptOfLine line := by
  unfold search at h
  split at h
  · cases h
    exact .inl rfl
  · exact exists_line_of_find h

theorem isPlain_of_search (h : (g.search cache p s).1 = .ok found) : found.IsPlain := by
  rcases exists_line_of_search h with rfl | ⟨_, line, -, rfl⟩
  · exact Prompt.isPlain_nil
  · exact isPlain_promptOfLine g line

/-- What is read for the characters, one after another. -/
def characterPrompts (g : Generator) : List Text → σ → List Prompt
  | [], _ => []
  | character :: rest, s =>
      (g.read character s).1 :: characterPrompts g rest (g.read character s).2

theorem characters_eq (g : Generator) (characters : List Text) (s : σ) :
    (g.characters characters s).1 =
      (g.characterPrompts characters s).map fun p => (g.finish p).render := by
  induction characters generalizing s with
  | nil => rfl
  | cons character rest ih =>
      rw [characterPrompts, List.map_cons, ← ih]
      rfl

theorem isPlain_of_mem_characterPrompts {characters : List Text}
    (h : p ∈ g.characterPrompts characters s) : p.IsPlain := by
  induction characters generalizing s with
  | nil => exact absurd h List.not_mem_nil
  | cons character rest ih =>
      rcases List.mem_cons.mp h with rfl | h
      · exact Prompt.isPlain_parse _ _
      · exact ih h

theorem exists_of_mem_characters {characters : List Text} {text : Text}
    (h : text ∈ (g.characters characters s).1) : ∃ p : Prompt, p.IsPlain ∧ text = p.render := by
  rw [characters_eq] at h
  obtain ⟨p, hp, rfl⟩ := List.mem_map.mp h
  exact ⟨g.finish p, isPlain_finish (isPlain_of_mem_characterPrompts hp), rfl⟩

theorem exists_of_generate {out : GeneratedPrompt}
    (h : (g.generate cache request s).1 = .ok out) :
    ∃ found trace, g.search cache (g.fragments request s).1.search (g.fragments request s).2 =
        (.ok found, trace) ∧
      out.prompt = (g.assemble (g.fragments request s).1.around found).render ∧
      out.negative = (g.fragments request s).1.around.negative.render ∧
      out.characters = (g.characters request.characters trace.choices).1 := by
  unfold generate at h
  dsimp only at h
  split at h
  · cases h
  · rename_i found trace hsearch
    cases h
    exact ⟨found, trace, hsearch, rfl, rfl, rfl⟩

/-- The tags that a prompt is assembled from are plain, so the prompt is. -/
theorem isPlain_assembled (hsearch : (g.search cache (g.fragments request s).1.search
    (g.fragments request s).2).1 = .ok found) :
    (g.assemble (g.fragments request s).1.around found).IsPlain := by
  obtain ⟨hbeginning, hending, -⟩ := isPlain_fragments g request s
  exact isPlain_assemble hbeginning hending (isPlain_of_search hsearch)

end Generator

/-- **Generated texts are stable.** Where a prompt is generated, each of its texts is what is written
for the tags read from it, and what is read from the prompt are the tags that were assembled. For
whatever the lists of categories hold, every step between reading and writing keeps prompts plain. -/
theorem generated_text_stable (g : Generator) (cache : AnswerCache) (request : Request) (s : σ)
    (out : GeneratedPrompt) (h : (g.generate cache request s).1 = .ok out) :
    (∀ text ∈ out.prompt :: out.negative :: out.characters,
      (Prompt.parse text .kept).render = text) ∧
    (∃ found, (g.search cache (g.fragments request s).1.search (g.fragments request s).2).1 =
        .ok found ∧
      Prompt.parse out.prompt .kept = g.assemble (g.fragments request s).1.around found) ∧
    (∀ p q : Prompt, p.IsPlain → q.IsPlain → Prompt.IsPlain (p ++ q)) ∧
    (∀ listed, KeepsPlain (Prompt.remove · listed) ∧ KeepsPlain (Prompt.keepListed · listed)) ∧
    (∀ lead entries, KeepsPlain (fun p => (p.moveOut lead entries).1) ∧
      KeepsPlain (fun p => (p.moveOut lead entries).2) ∧ KeepsPlain (Prompt.copyOut lead entries)) ∧
    KeepsPlain Prompt.distinct ∧ KeepsPlain Prompt.lengthenRatings ∧
    ∀ categories, KeepsPlain (Prompt.reorder categories) ∧
      KeepsPlain (Prompt.standardize categories) := by
  obtain ⟨found, trace, hsearch, hprompt, hnegative, hcharacters⟩ := Generator.exists_of_generate h
  have hfound := congrArg Prod.fst hsearch
  have hassembled := Generator.isPlain_assembled hfound
  refine ⟨?_, ⟨found, hfound, ?_⟩, fun p q hp hq => Prompt.isPlain_append.mpr ⟨hp, hq⟩,
    fun listed => ⟨fun p hp => hp.remove listed, fun p hp => hp.keepListed listed⟩,
    fun lead entries => ⟨fun p hp => (hp.moveOut lead entries).1,
      fun p hp => (hp.moveOut lead entries).2, fun p hp => hp.copyOut lead entries⟩,
    fun p hp => hp.distinct, fun p hp => hp.lengthenRatings,
    fun categories => ⟨fun p hp => hp.reorder categories, fun p hp => hp.standardize categories⟩⟩
  · have hwritten : ∀ text ∈ out.prompt :: out.negative :: out.characters,
        ∃ p : Prompt, p.IsPlain ∧ text = p.render := by
      intro text htext
      rcases List.mem_cons.mp htext with rfl | htext
      · exact ⟨_, hassembled, hprompt⟩
      rcases List.mem_cons.mp htext with rfl | htext
      · exact ⟨_, (Generator.isPlain_fragments g request s).2.2, hnegative⟩
      · rw [hcharacters] at htext
        exact Generator.exists_of_mem_characters htext
    intro text htext
    obtain ⟨p, hp, rfl⟩ := hwritten text htext
    rw [Prompt.parse_render hp]
  · rw [hprompt, Prompt.parse_render hassembled]

/-- An artist's tag that is respelled, a blank tag in the negative, a group left open. -/
theorem generated_text_stable_respelled :
    let layout := CorpusLayout.ofPrompts ["1girl, rating:g".toList]
    let g : Generator :=
      { resolver := ⟨layout.index, layout.positionSource.source, 0⟩
        corpus := ⟨layout.corpusSource.source, 40, 0⟩
        wildcards := .empty
        categories := { artist := ["wlop".toList] }
        options := { naiStandard := true } }
    let request : Request :=
      { beginning := "[wlop".toList, search := "1girl".toList, negative := "bad, , dark".toList
        characters := ["solo ], smile".toList] }
    let out : GeneratedPrompt :=
      { prompt := "[artist:wlop], 1girl".toList, negative := "bad, dark".toList
        characters := ["solo, \x7bsmile".toList] }
    (g.generate none request (Words.cycling [0])).1 = .ok out ∧
      (∀ text ∈ out.prompt :: out.negative :: out.characters,
        (Prompt.parse text .kept).render = text) ∧
      ∃ found, (g.search none (g.fragments request (Words.cycling [0])).1.search
          (g.fragments request (Words.cycling [0])).2).1 = .ok found ∧
        Prompt.parse out.prompt .kept =
          g.assemble (g.fragments request (Words.cycling [0])).1.around found := by
  intro layout g request out
  have h : (g.generate none request (Words.cycling [0])).1 = .ok out := by decide +kernel
  obtain ⟨hfixed, hread, -⟩ := generated_text_stable g none request (Words.cycling [0]) out h
  exact ⟨h, hfixed, hread⟩

end TagPrompt
