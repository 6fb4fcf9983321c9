import TagPrompt.Files.Tree
import TagPrompt.Search.CorpusLine
import TagPrompt.Search.Positions
import TagPrompt.Source.Memory

/-! Laying prompts out as the files of a corpus: the prompts as lines, the position table with the
line offsets of each tag, and the tag index that says where in the table they are, all three in a
directory. The tags of a prompt are its comma-separated trimmed parts; brackets belong to the tags
here. -/

namespace TagPrompt

/-- Prompts with the offsets of their lines, and the offsets of each tag, tags in ascending order.
-/
structure CorpusLayout where
  lines : List (Offset × Text)
  groups : List (Text × List Offset)
  deriving DecidableEq, Repr

namespace CorpusLayout

/-! ### Laying out -/

def lineBytes (prompt : Text) : Bytes := Utf8.encode prompt ++ [Corpus.lineFeed]

/-- The prompts with the offsets of their lines, the first line at a position. -/
def linesFrom (position : Nat) : List Text → List (Offset × Text)
  | [] => []
  | prompt :: prompts =>
      (position.toUInt32, prompt) :: linesFrom (position + (lineBytes prompt).length) prompts

/-- Notes that the line at an offset has a tag. -/
def note (tag : Text) (offset : Offset) : List (Text × List Offset) → List (Text × List Offset)
  | [] => [(tag, [offset])]
  | (known, offsets) :: groups =>
      if tag = known then
        (known, if offsets.contains offset then offsets else offsets ++ [offset]) :: groups
      else if Text.precedes tag known then (tag, [offset]) :: (known, offsets) :: groups
      else (known, offsets) :: note tag offset groups

def noteLine (groups : List (Text × List Offset)) (line : Offset × Text) :
    List (Text × List Offset) :=
  (Text.parts line.2).foldl (fun groups tag => note tag line.1 groups) groups

def ofPrompts (prompts : List Text) : CorpusLayout :=
  let lines := linesFrom 0 prompts
  { lines, groups := lines.foldl noteLine [] }

/-! ### The files -/

def offsets (layout : CorpusLayout) : List Offset := layout.lines.map Prod.fst

def corpus (layout : CorpusLayout) : Bytes := layout.lines.flatMap fun line => lineBytes line.2

def positions (layout : CorpusLayout) : Bytes :=
  layout.groups.flatMap fun group => group.2.flatMap slotBytes

/-- The entries of groups whose first slot is `start`. -/
def entriesFrom (start : Nat) : List (Text × List Offset) → List IndexEntry
  | [] => []
  | (tag, offsets) :: groups =>
      ⟨tag, start.toUInt32, (start + offsets.length).toUInt32⟩ ::
        entriesFrom (start + offsets.length) groups

def entries (layout : CorpusLayout) : List IndexEntry := entriesFrom 0 layout.groups

def index (layout : CorpusLayout) : TagIndex := .ofEntries layout.entries

def indexText (layout : CorpusLayout) : Text := (TagIndex.documentOf layout.entries).render

/-! ### Reading off the prompts -/

/-- The offsets of the lines that have a tag. -/
def offsetsWith (layout : CorpusLayout) (tag : Text) : List Offset :=
  (layout.lines.filter fun line => ((Text.split ',' line.2).map Text.trim).contains tag).map
    Prod.fst

def positionSource (layout : CorpusLayout) : MemorySource := { content := layout.positions }

def corpusSource (layout : CorpusLayout) : MemorySource := { content := layout.corpus }

end CorpusLayout

/-- Where the position table, the corpus and the tag index are. -/
structure CorpusPaths where
  positions : Text
  corpus : Text
  index : Text
  deriving DecidableEq, Repr

def CorpusPaths.inDirectory (directory : Text) : CorpusPaths :=
  { positions := joinPath directory "pos.dat".toList
    corpus := joinPath directory "tags.dat".toList
    index := joinPath directory "tag_index.json".toList }

def CorpusLayout.writeTo (layout : CorpusLayout) (paths : CorpusPaths) (files : FileTree) :
    FileTree :=
  ((files.put paths.positions layout.positions).put paths.corpus layout.corpus).put paths.index
    (Utf8.encode layout.indexText)

end TagPrompt
