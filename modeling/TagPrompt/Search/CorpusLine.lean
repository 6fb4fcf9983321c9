import TagPrompt.Choice.Basic
import TagPrompt.Search.PositionSet
import TagPrompt.Source.Basic

/-! The prompt corpus: one prompt per line, read at the offset of the line. -/

namespace TagPrompt

/-- The source of the corpus, how many bytes are read for a prompt, and how long that may take. -/
structure Corpus where
  source : ByteSource
  window : UInt64
  limit : Millis

/-- How reading the prompt at an offset ends. -/
inductive PromptRead
  | prompt (text : Text)
  | failed (error : FetchError)
  | crashed
  deriving DecidableEq, Repr

namespace Corpus

def lineFeed : UInt8 := 0x0A

/-- The byte that may stand before the end of a line and is no part of it. -/
def carriageReturn : UInt8 := 0x0D

/-- The line that bytes begin with, if it ends within them. -/
def firstLine? (bytes : Bytes) : Option Bytes :=
  let line := bytes.takeWhile (· ≠ lineFeed)
  if line.length = bytes.length then none
  else some (if line.getLast? = some carriageReturn then line.dropLast else line)

/-- The prompt that bytes read at an offset begin with. -/
def promptOfBytes (corpus : Corpus) (offset : Offset) (bytes : Bytes) : PromptRead :=
  match firstLine? bytes with
  | none =>
      .failed (.malformed (.noLineEnd corpus.window.toNat offset.toNat corpus.source.location))
  | some line =>
      match Utf8.decode line with
      | .ok prompt => .prompt prompt
      | .error fault => .failed (.malformed (.notUtf8 offset.toNat fault))

/-- The range that is read for the prompt at an offset. Its end wraps, so that a window of nearly
all numbers ends before it starts. -/
def rangeAt (corpus : Corpus) (offset : Offset) : ByteRange :=
  ⟨offset.toNat, (offset.toUInt64 + corpus.window).toNat⟩

/-- Reads the prompt at an offset. -/
def promptAt (corpus : Corpus) (offset : Offset) : PromptRead :=
  match (corpus.source.readWithin corpus.limit (corpus.rangeAt offset)).reading with
  | .bytes bytes => corpus.promptOfBytes offset bytes
  | .failed error => .failed error
  | .crashed => .crashed

end Corpus
end TagPrompt
