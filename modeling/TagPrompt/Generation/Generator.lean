import TagPrompt.Categories
import TagPrompt.Expansion.Placeholder
import TagPrompt.Generation.Filtering
import TagPrompt.Prompt.Reading
import TagPrompt.Prompt.Writing
import TagPrompt.Search.CorpusLine
import TagPrompt.Search.Resolver
import TagPrompt.Settings.Basic
import TagPrompt.Source.Location
import TagPrompt.Wildcards

/-! Generating a prompt. The fragments of a request are expanded and parsed; the search fragment
gives a query, one of the prompts that answer it is picked and filtered, and put between the
beginning and the end. The choices are made in a fixed order: beginning, end, negative, search,
pick, characters. -/

namespace TagPrompt

/-- What a prompt is asked to be made of. -/
structure Request where
  beginning : Text := []
  search : Text := []
  ending : Text := []
  negative : Text := []
  characters : List Text := []
  deriving DecidableEq, Repr, Inhabited

/-- The texts that come of a request. -/
structure GeneratedPrompt where
  prompt : Text
  negative : Text
  characters : List Text
  deriving DecidableEq, Repr

/-- Why no prompt comes of a request. -/
inductive GenerationError
  | search (error : SearchError)
  | fetch (error : FetchError)
  /-- The read of the prompt that was picked crashed. -/
  | crashed
  deriving DecidableEq, Repr

/-- Everything that prompts are generated from. -/
structure Generator where
  resolver : Resolver
  corpus : Corpus
  wildcards : Wildcards
  categories : Categories
  options : GenerationOptions

namespace Generator

variable {σ : Type} [ChoiceSource σ]

/-! ### Fragments -/

/-- What becomes of the text after the last comma. -/
def lastSegment (g : Generator) : Prompt.LastSegment :=
  if g.options.legacyTrailingDrop then .dropped else .kept

/-- Parses a text that is expanded already. -/
def parse (g : Generator) (text : Text) : Prompt := Prompt.parse text g.lastSegment

def read (g : Generator) (fragment : Text) (s : σ) : Prompt × σ :=
  let (text, s) := expand g.wildcards fragment s
  (g.parse text, s)

/-- The search fragment, restricted to the general rating if the options ask for it. A blank
fragment asks for no search and stays blank. -/
def restricted (g : Generator) (search : Text) : Text :=
  if g.options.removeNsfw && !(Text.trim search).isEmpty then search ++ ", rating:g".toList
  else search

/-- The prompts of all fragments but the characters. -/
structure Fragments where
  around : Surroundings
  search : Prompt

/-- Reads the fragments of a request. No placeholder is expanded in the negative one. -/
def fragments (g : Generator) (request : Request) (s : σ) : Fragments × σ :=
  let (beginning, s) := g.read request.beginning s
  let (ending, s) := g.read request.ending s
  let (negative, s) := expandGroups request.negative s
  let (search, s) := g.read (g.restricted request.search) s
  (⟨⟨beginning, ending, g.parse negative⟩, search.shortenRatings⟩, s)

def query (g : Generator) (request : Request) (s : σ) : Query :=
  .ofPrompt (g.fragments request s).1.search

/-! ### Searching -/

/-- What a search leaves behind, whether it finds a prompt or not. -/
structure Trace (σ : Type) where
  choices : σ
  cache : AnswerCache
  progress : List Progress := []
  positionReads : List ByteRange := []
  corpusReads : List ByteRange := []

def promptOfLine (g : Generator) (line : Text) : Prompt := (g.parse line).lengthenRatings

/-- Searches for a prompt; a query without tags finds the empty one. -/
def find (g : Generator) (cache : AnswerCache) (q : Query) (s : σ) :
    Except GenerationError Prompt × Trace σ :=
  let resolution := g.resolver.resolve cache q
  let trace : Trace σ :=
    { choices := s, cache := resolution.cache, progress := resolution.progress
      positionReads := resolution.reads }
  match resolution.outcome with
  | .error error => (.error (.search error), trace)
  | .ok candidates =>
      match ChoiceSource.pick candidates s with
      | (none, s) => (.ok [], { trace with choices := s })
      | (some offset, s) =>
          let trace := { trace with choices := s, corpusReads := [g.corpus.rangeAt offset] }
          match g.corpus.promptAt offset with
          | .prompt line => (.ok (g.promptOfLine line), trace)
          | .failed error => (.error (.fetch error), trace)
          | .crashed => (.error .crashed, trace)

/-- Searches for a prompt unless searching is disabled. -/
def search (g : Generator) (cache : AnswerCache) (p : Prompt) (s : σ) :
    Except GenerationError Prompt × Trace σ :=
  if g.options.searchDisabled then (.ok [], { choices := s, cache })
  else g.find cache (.ofPrompt p) s

/-! ### Assembly -/

/-- What is left of a found prompt. -/
def filtered (g : Generator) (around : Surroundings) (found : Prompt) : Prompt :=
  filterCensoring g.categories around (filterFound g.options g.categories around found)

/-- Drops repeated tags, then orders and respells as the options say. -/
def finish (g : Generator) (p : Prompt) : Prompt :=
  let p := p.distinct
  let p := if g.options.reorder then p.reorder g.categories else p
  if g.options.naiStandard then p.standardize g.categories else p

/-- The prompt of a request around a found prompt. -/
def assemble (g : Generator) (around : Surroundings) (found : Prompt) : Prompt :=
  g.finish (around.beginning ++ g.filtered around found ++ around.ending)

/-- The texts of the characters, one after another. -/
def characters (g : Generator) : List Text → σ → List Text × σ
  | [], s => ([], s)
  | character :: rest, s =>
      let (p, s) := g.read character s
      let (texts, s) := characters g rest s
      ((g.finish p).render :: texts, s)

def generate (g : Generator) (cache : AnswerCache) (request : Request) (s : σ) :
    Except GenerationError GeneratedPrompt × Trace σ :=
  let (fragments, s) := g.fragments request s
  match g.search cache fragments.search s with
  | (.error error, trace) => (.error error, trace)
  | (.ok found, trace) =>
      let (characters, s) := g.characters request.characters trace.choices
      (.ok
        { prompt := (g.assemble fragments.around found).render
          negative := fragments.around.negative.render
          characters },
       { trace with choices := s })

end Generator

/-! ### Generators from settings

The data files are read at once, the position table and the corpus only when a prompt is
generated. -/

/-- The categories that the settings name; no file gives no categories. -/
def Settings.categories (settings : Settings) (files : FileTree) : Except DataError Categories :=
  match settings.data.categoriesPath with
  | some path => Categories.load files path
  | none => .ok {}

/-- The wildcard lists that the settings name; no directory gives no lists. -/
def Settings.wildcards (settings : Settings) (files : FileTree) : Except DataError Wildcards :=
  match settings.data.wildcardDir with
  | some directory => Wildcards.load files directory
  | none => .ok .empty

/-- The generator that the settings describe. -/
def Generator.ofSettings (files : FileTree) (web : Web) (settings : Settings) :
    Except DataError Generator := do
  let limit := settings.source.timeout
  let index ← TagIndex.load files settings.data.tagIndexPath
  let categories ← settings.categories files
  let wildcards ← settings.wildcards files
  return {
    resolver := ⟨index, openSource files web settings.source.positionsUrl limit, limit⟩
    corpus := ⟨openSource files web settings.source.corpusUrl limit,
      settings.source.promptWindowBytes, limit⟩
    wildcards
    categories
    options := settings.pipeline }

end TagPrompt
