import TagPrompt.Search.PositionSet
import TagPrompt.Search.TagIndex
import TagPrompt.Source.Basic

/-! The position table. A slot holds the offset of a corpus line as four bytes, the highest first;
the slots of a tag are the offsets of the lines that have the tag. -/

namespace TagPrompt

def slotValue (a b c d : UInt8) : Offset :=
  (((a.toNat * 256 + b.toNat) * 256 + c.toNat) * 256 + d.toNat).toUInt32

def slotBytes (x : Offset) : Bytes :=
  let n := x.toNat
  [(n / 0x1000000).toUInt8, (n / 0x10000 % 256).toUInt8, (n / 0x100 % 256).toUInt8,
    (n % 256).toUInt8]

/-- The offsets in a run of slots; up to three bytes at the end that fill no slot are nothing. -/
def slotValues : Bytes → List Offset
  | a :: b :: c :: d :: rest => slotValue a b c d :: slotValues rest
  | _ => []

def decodePositions (bytes : Bytes) : PositionSet := .ofList (slotValues bytes)

/-- How fetching the positions of a tag ends. -/
inductive Fetched
  | positions (set : PositionSet)
  | failed (error : FetchError)
  | crashed
  deriving DecidableEq, Repr

/-- The read that fetching the positions of a tag takes: none for a tag without slots. -/
def readFor? (entry : IndexEntry) : Option ByteRange :=
  if entry.isEmpty then none else some entry.byteRange

/-- What bytes read for a tag amount to: all its slots or none. -/
def fetchedOfBytes (entry : IndexEntry) (bytes : Bytes) : Fetched :=
  if bytes.length = entry.byteCount.toNat then .positions (decodePositions bytes)
  else .failed (.malformed (.tableLength entry.tag bytes.length entry.byteCount.toNat))

def fetchedOfReading (entry : IndexEntry) : Reading → Fetched
  | .bytes bytes => fetchedOfBytes entry bytes
  | .failed error => .failed error
  | .crashed => .crashed

/-- Fetches the positions of a tag, and says how long that takes. -/
def fetchPositions (source : ByteSource) (limit : Millis) (entry : IndexEntry) :
    Fetched × Millis :=
  match readFor? entry with
  | none => (.positions .empty, 0)
  | some range =>
      let attempt := source.readWithin limit range
      (fetchedOfReading entry attempt.reading, attempt.took)

end TagPrompt
