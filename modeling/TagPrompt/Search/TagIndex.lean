import TagPrompt.DataFile
import TagPrompt.Source.Basic

/-! The tag index says which slots of the position table belong to a tag. A slot is four bytes wide,
and every tag owns the slots from `start` up to `stop`. The file of an index is checked for entries
that end before they start; an index that is made of entries may have some. -/

namespace TagPrompt

/-- The slots of a tag. -/
structure IndexEntry where
  tag : Text
  start : UInt32
  stop : UInt32
  deriving DecidableEq, Repr

namespace IndexEntry

def slotWidth : Nat := 4

/-- The number of slots; for an entry that ends before it starts it wraps. -/
def size (entry : IndexEntry) : UInt32 := entry.stop - entry.start

/-- Whether the tag has no slots. -/
def isEmpty (entry : IndexEntry) : Bool := entry.start == entry.stop

def byteRange (entry : IndexEntry) : ByteRange :=
  ⟨slotWidth * entry.start.toNat, slotWidth * entry.stop.toNat⟩

/-- The number of bytes that the slots have to have; it wraps as the number of slots does. -/
def byteCount (entry : IndexEntry) : UInt64 :=
  .ofNat entry.byteRange.stop - .ofNat entry.byteRange.start

end IndexEntry

/-- The entries of all tags, the newest first; a tag has one entry. -/
structure TagIndex where
  entries : List IndexEntry := []
  deriving DecidableEq, Repr, Inhabited

namespace TagIndex

/-- Gives a tag its entry, in place of any it had. -/
def insert (index : TagIndex) (entry : IndexEntry) : TagIndex :=
  { entries := entry :: index.entries.filter fun known => known.tag != entry.tag }

/-- The index of these entries; of several entries of one tag the last one counts. -/
def ofEntries (entries : List IndexEntry) : TagIndex := entries.foldl insert {}

def size (index : TagIndex) : Nat := index.entries.length

def get? (index : TagIndex) (tag : Text) : Option IndexEntry :=
  index.entries.find? fun entry => entry.tag == tag

/-! ### The index file -/

/-- The fields of an entry in the file. -/
def startName : Text := "start".toList
def stopName : Text := "end".toList

/-- The entry of a member of the file. -/
def entryOfMember? (member : Option Text × JsonValue) : Option IndexEntry := do
  let tag ← member.1
  match ← member.2.fields? [startName, stopName] with
  | [some start, some stop] => return ⟨tag, ← start.word?, ← stop.word?⟩
  | _ => none

/-- The entries of the file in order, repeated tags included. -/
def entriesOfDocument? : JsonValue → Option (List IndexEntry)
  | .object members => members.mapM entryOfMember?
  | _ => none

/-- An entry that ends before it starts. -/
def firstInverted? (index : TagIndex) : Option IndexEntry :=
  index.entries.find? fun entry => entry.stop < entry.start

/-- The index from the text of its file. Only entries that count are checked. -/
def parse (text : Text) : Except DataError TagIndex :=
  match (JsonValue.parse text).bind entriesOfDocument? with
  | none => .error .json
  | some entries =>
      let index := ofEntries entries
      match index.firstInverted? with
      | some entry => .error (.invalidRange entry.tag entry.start entry.stop)
      | none => .ok index

def load (files : FileTree) (path : Text) : Except DataError TagIndex := do
  parse (← readDataFile files path)

def numberDocument (n : UInt32) : JsonValue := .number (Text.ofNat n.toNat)

/-- Entries as the document of an index file. -/
def documentOf (entries : List IndexEntry) : JsonValue :=
  .object (entries.map fun entry =>
    (some entry.tag, .object [(some stopName, numberDocument entry.stop),
      (some startName, numberDocument entry.start)]))

end TagIndex
end TagPrompt
