import TagPrompt.Source.Basic

/-! A source that holds its bytes, for trying searches out: it can be slow, fail every read or
crash on every read. A failure comes after the delay, and so does the crash of a read whose range
cannot be sliced; a crash that it is told to make comes at once. -/

namespace TagPrompt

/-- Bytes in memory and how reads of them go. -/
structure MemorySource where
  content : Bytes
  failing : Bool := false
  crashing : Bool := false
  delay : Millis := 0

namespace MemorySource

/-- The location that messages give. -/
def location : Text := "memory".toList

/-- A read of a range gives the bytes that exist. -/
def reading (m : MemorySource) (range : ByteRange) : Reading :=
  if m.crashing then .crashed
  else if m.failing then .failed (.network .simulated)
  else
    match range.slice? m.content with
    | some bytes => .bytes bytes
    | none => .crashed

def duration (m : MemorySource) : Millis := if m.crashing then 0 else m.delay

/-- The memory as a source. -/
def source (m : MemorySource) : ByteSource :=
  { location, read := fun range => ⟨m.reading range, m.duration⟩ }

/-- Whether reads that may take this long end with bytes. -/
def completes (m : MemorySource) (limit : Millis) : Bool :=
  !m.crashing && !m.failing && m.delay ≤ limit

end MemorySource

/-- How many reads of a source began, and how many of those ended with bytes. -/
structure ReadTally where
  begun : Nat := 0
  completed : Nat := 0
  deriving DecidableEq, Repr

/-- Counts more reads, which may take some time each. A crash that the source is told to make leaves
no trace: it comes before the read begins. -/
def ReadTally.add (tally : ReadTally) (m : MemorySource) (limit : Millis)
    (reads : List ByteRange) : ReadTally where
  begun := tally.begun + if m.crashing then 0 else reads.length
  completed := tally.completed +
    if m.completes limit then (reads.filter fun range => (range.slice? m.content).isSome).length
    else 0

end TagPrompt
