import TagPrompt.Choice.Basic
import TagPrompt.Generation.Generator
import TagPrompt.Proofs.Expansion.Groups
import TagPrompt.Proofs.Expansion.Placeholders
import TagPrompt.Proofs.Prompt.Appending
import TagPrompt.Proofs.Search.QueryTags
import TagPrompt.Source.Memory

/-! Searches restricted to the general rating. The tag of the rating is appended to the text of a
search fragment before that is expanded and read. No expansion of the fragment reaches it and no
group of brackets takes it in, so it is the last segment of the text that is read: one more wanted
tag of the query where last segments are kept, and nothing where they are dropped. -/

namespace TagPrompt

variable {σ : Type} [ChoiceSource σ]

/-- The short name of the general rating. -/
def generalRating : Text := "rating:g".toList

/-! ### Expanding a longer text -/

/-- What has no mark of a group and no underscore stays behind the expansion of the text before it,
and no choice is made for it. -/
theorem expand_append {ending : Text} (hopen : '<' ∉ ending) (hclose : '>' ∉ ending)
    (hunder : '_' ∉ ending) (wildcards : Wildcards) (text : Text) (s : σ) :
    expand wildcards (text ++ ending) s =
      ((expand wildcards text s).1 ++ ending, (expand wildcards text s).2) := by
  simp only [expand, expandGroups_append hopen hclose, expandPlaceholders_append wildcards hunder]

theorem expand_of_not_mem {text : Text} (hopen : '<' ∉ text) (hunder : '_' ∉ text)
    (wildcards : Wildcards) (s : σ) : expand wildcards text s = (text, s) := by
  simp only [expand, expandGroups_of_not_mem hopen, expandPlaceholders_eq_fill,
    fill_of_not_mem wildcards hunder]

/-! ### The query of a request -/

namespace Query

theorem ofPrompt_append (p : Prompt) (tag : Tag) :
    ofPrompt (p ++ [tag]) = (ofPrompt p).addTag tag :=
  List.foldl_concat ..

theorem addTag_of_general (q : Query) (level : Int32) :
    q.addTag ⟨generalRating, level⟩ = q.want generalRating := by
  rfl

theorem generalRating_mem_want (q : Query) : generalRating ∈ (q.want generalRating).wanted :=
  mem_addUnique.mpr (.inr ⟨rfl, by decide⟩)

end Query

namespace Generator

variable {g : Generator} {request : Request}

/-- The choices that are left for the search fragment. -/
def choicesBeforeSearch (g : Generator) (request : Request) (s : σ) : σ :=
  (expandGroups request.negative (g.read request.ending (g.read request.beginning s).2).2).2

/-- The query of the search fragment as the request has it, with its last segment. -/
def ownQuery (g : Generator) (request : Request) (s : σ) : Query :=
  .ofPrompt (Prompt.parse (expand g.wildcards request.search (g.choicesBeforeSearch request s)).1
    .kept).shortenRatings

theorem query_eq (g : Generator) (request : Request) (s : σ) :
    g.query request s = .ofPrompt (g.parse (expand g.wildcards (g.restricted request.search)
      (g.choicesBeforeSearch request s)).1).shortenRatings :=
  rfl

theorem restricted_eq (hnsfw : g.options.removeNsfw = true)
    (hsearch : Text.trim request.search ≠ []) :
    g.restricted request.search = request.search ++ (Prompt.separator ++ generalRating) := by
  rw [restricted, hnsfw, List.isEmpty_eq_false_iff.mpr hsearch]
  rfl

theorem isPlain_generalRating : generalRating.IsPlain := by decide

/-- With the restriction, the rating is wanted besides the fragment's own tags where last segments
are kept, and the fragment's own tags are all that is named where they are dropped. -/
theorem query_of_restricted (hnsfw : g.options.removeNsfw = true)
    (hsearch : Text.trim request.search ≠ []) (s : σ) :
    g.query request s =
      if g.options.legacyTrailingDrop then g.ownQuery request s
      else (g.ownQuery request s).want generalRating := by
  have hexpand : expand g.wildcards (request.search ++ (Prompt.separator ++ generalRating))
      (g.choicesBeforeSearch request s) = _ :=
    expand_append (by decide) (by decide) (by decide) _ _ _
  rw [query_eq, restricted_eq hnsfw hsearch, hexpand, ← List.append_assoc, parse, lastSegment]
  split_ifs with hdrop
  · rw [Prompt.parse_append_dropped isPlain_generalRating, ownQuery]
  · obtain ⟨level, hparse⟩ := Prompt.exists_parse_append isPlain_generalRating
      (expand g.wildcards request.search (g.choicesBeforeSearch request s)).1
    have hshorten : shortenRating generalRating = generalRating := by decide
    rw [hparse, Prompt.shortenRatings, Prompt.mapText, List.map_append, List.map_singleton,
      hshorten, Query.ofPrompt_append, Query.addTag_of_general]
    rfl

/-! ### What is searched for -/

/-- A search leaves behind what answering the query does. -/
structure Searches (g : Generator) (cache : AnswerCache) (q : Query) (trace : Trace σ) : Prop where
  cache_eq : trace.cache = (g.resolver.resolve cache q).cache
  progress_eq : trace.progress = (g.resolver.resolve cache q).progress
  reads_eq : trace.positionReads = (g.resolver.resolve cache q).reads

theorem searches_find (g : Generator) (cache : AnswerCache) (q : Query) (s : σ) :
    g.Searches cache q (g.find cache q s).2 := by
  cases houtcome : (g.resolver.resolve cache q).outcome with
  | error error =>
      simp only [find, houtcome]
      exact ⟨rfl, rfl, rfl⟩
  | ok candidates =>
      cases hpick : ChoiceSource.pick candidates s with
      | mk picked s' =>
          cases picked with
          | none =>
              simp only [find, houtcome, hpick]
              exact ⟨rfl, rfl, rfl⟩
          | some offset =>
              simp only [find, houtcome, hpick]
              cases g.corpus.promptAt offset with
              | prompt line => exact ⟨rfl, rfl, rfl⟩
              | failed error => exact ⟨rfl, rfl, rfl⟩
              | crashed => exact ⟨rfl, rfl, rfl⟩

/-- The query of the request is the one that is answered, whatever comes of it. -/
theorem searches_generate (hon : g.options.searchDisabled = false) (cache : AnswerCache)
    (request : Request) (s : σ) :
    g.Searches cache (g.query request s) (g.generate cache request s).2 := by
  cases hfragments : g.fragments request s with
  | mk fragments s' =>
      have hquery : g.query request s = .ofPrompt fragments.search := by
        rw [query, hfragments]
      have hsearch : g.search cache fragments.search s' = g.find cache (g.query request s) s' := by
        rw [search, hon, hquery]
        rfl
      have hfind := searches_find g cache (g.query request s) s'
      simp only [generate, hfragments, hsearch]
      cases hfound : g.find cache (g.query request s) s' with
      | mk found trace =>
          rw [hfound] at hfind
          cases found with
          | error error => exact hfind
          | ok found => exact ⟨hfind.cache_eq, hfind.progress_eq, hfind.reads_eq⟩

end Generator

/-- **The restriction to the general rating.** A request that searches is answered by its query.
With the restriction, this wants the general rating besides what the fragment itself names, whatever
the fragment leaves open, the options and the choices are, as long as the text after the last comma
is kept; where that is dropped, it is the rating that goes, and the query is the fragment's own. -/
theorem general_rating_wanted_iff (g : Generator) (request : Request) (s : σ)
    (hnsfw : g.options.removeNsfw = true) (hon : g.options.searchDisabled = false)
    (hsearch : Text.trim request.search ≠ []) :
    (∀ cache, g.Searches cache (g.query request s) (g.generate cache request s).2) ∧
      g.query request s =
        (if g.options.legacyTrailingDrop then g.ownQuery request s
          else (g.ownQuery request s).want generalRating) ∧
      (generalRating ∈ (g.query request s).wanted ↔
        g.options.legacyTrailingDrop = false ∨
          generalRating ∈ (g.ownQuery request s).wanted) := by
  have hquery := Generator.query_of_restricted hnsfw hsearch s
  refine ⟨fun cache => Generator.searches_generate hon cache request s, hquery, ?_⟩
  rw [hquery]
  cases hdrop : g.options.legacyTrailingDrop with
  | true => simp
  | false => simp [Query.generalRating_mem_want]

/-- A fragment that leaves a bracket and a choice open. -/
theorem general_rating_wanted_iff_open_groups :
    let g : Generator :=
      { resolver :=
          { index := .ofEntries [], positions := MemorySource.source { content := [] }, limit := 0 }
        corpus := { source := MemorySource.source { content := [] }, window := 0, limit := 0 }
        wildcards := .empty
        categories := {}
        options := { removeNsfw := true } }
    let request : Request := { search := "[1girl, __hair__ <solo|duo".toList }
    let s := Words.cycling [7]
    g.options.removeNsfw = true ∧ g.options.searchDisabled = false ∧
      Text.trim request.search ≠ [] ∧ generalRating ∈ (g.query request s).wanted := by
  intro g request s
  have hsearch : Text.trim request.search ≠ [] := by decide
  obtain ⟨-, -, hwanted⟩ := general_rating_wanted_iff g request s rfl rfl hsearch
  exact ⟨rfl, rfl, hsearch, hwanted.mpr (.inl rfl)⟩

/-- Where the text after the last comma is dropped, the rating of a restricted search is. -/
theorem general_rating_dropped_as_last_segment :
    ¬∀ (g : Generator) (request : Request) (s : Words), g.options.removeNsfw = true →
      g.options.searchDisabled = false → Text.trim request.search ≠ [] →
        generalRating ∈ (g.query request s).wanted := by
  intro h
  let g : Generator :=
    { resolver :=
        { index := .ofEntries [], positions := MemorySource.source { content := [] }, limit := 0 }
      corpus := { source := MemorySource.source { content := [] }, window := 0, limit := 0 }
      wildcards := .empty
      categories := {}
      options := { removeNsfw := true, legacyTrailingDrop := true } }
  let request : Request := { search := "1girl".toList }
  have hsearch : Text.trim request.search ≠ [] := by decide
  have hexpand : expand g.wildcards request.search
      (g.choicesBeforeSearch request (Words.cycling [0])) = _ :=
    expand_of_not_mem (by decide) (by decide) _ _
  have hquery : g.query request (Words.cycling [0]) = _ :=
    Generator.query_of_restricted rfl hsearch _
  have hwanted := h g request (Words.cycling [0]) rfl rfl hsearch
  rw [hquery, if_pos rfl, Generator.ownQuery, hexpand] at hwanted
  revert hwanted
  decide

end TagPrompt
