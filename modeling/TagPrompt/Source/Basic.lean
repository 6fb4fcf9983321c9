import TagPrompt.Files.Tree
import TagPrompt.Text.Message

/-! Sources of bytes, read in half-open ranges of byte positions. A read takes some time on the
clock and ends with bytes, with an error, or with a crash of whatever was reading. -/

namespace TagPrompt

/-- The bytes from `start` up to `stop`. -/
structure ByteRange where
  start : Nat
  stop : Nat
  deriving DecidableEq, Repr

namespace ByteRange

/-- The number of bytes; a range that ends before it starts has none. -/
def length (range : ByteRange) : Nat := range.stop - range.start

/-- Whether the range has no bytes. -/
def isEmpty (range : ByteRange) : Bool := range.stop ≤ range.start

/-- The bytes of a content that lie in the range: as many as the range has, from its start on. -/
def cut (range : ByteRange) (content : Bytes) : Bytes :=
  (content.drop range.start).take range.length

/-- The bytes of a content between the ends of the range, each end brought back to that of the
content where it lies beyond. -/
def clamped (range : ByteRange) (content : Bytes) : Bytes :=
  (content.take (min range.stop content.length)).drop (min range.start content.length)

/-- The bytes that `clamped` gives, unless the ends are in the wrong order even so. -/
def slice? (range : ByteRange) (content : Bytes) : Option Bytes :=
  if min range.start content.length ≤ min range.stop content.length then
    some (range.clamped content)
  else none

end ByteRange

/-- What is wrong with bytes that were fetched. -/
inductive MalformedData
  /-- The position table has not all bytes of the slots of a tag. -/
  | tableLength (tag : Text) (found expected : Nat)
  /-- The line at an offset does not end inside the window. -/
  | noLineEnd (window offset : Nat) (location : Text)
  /-- The line at an offset is not UTF-8. -/
  | notUtf8 (offset : Nat) (fault : Utf8.Fault)
  deriving DecidableEq, Repr

def MalformedData.message : MalformedData → String
  | .tableLength tag found expected =>
      "position table returned " ++ toString found ++ " bytes for tag " ++ Text.quoted tag ++
        ", expected " ++ toString expected
  | .noLineEnd window offset location =>
      "no line terminator within " ++ toString window ++ " bytes of offset " ++ toString offset ++
        " in " ++ String.ofList location
  | .notUtf8 offset fault =>
      "prompt at offset " ++ toString offset ++ " is not UTF-8: " ++ fault.message

/-- Why a connection gives no bytes. -/
inductive NetworkFault
  /-- A source that is told to fail. -/
  | simulated
  /-- The connection ended before the response did. -/
  | connection
  /-- What came back is no response. -/
  | malformedResponse
  deriving DecidableEq, Repr

def NetworkFault.message : NetworkFault → String
  | .simulated => "simulated failure"
  | .connection => "connection closed before the response was complete"
  | .malformedResponse => "malformed response"

/-- Why a read gives no bytes, or bytes of no use. -/
inductive FetchError
  | network (fault : NetworkFault)
  | status (code : Nat) (url : Text)
  | timeout (limit : Millis)
  | malformed (data : MalformedData)
  | io (fault : OsFault)
  deriving DecidableEq, Repr

def FetchError.message : FetchError → String
  | .network fault => "network error: " ++ fault.message
  | .status code url =>
      "unexpected HTTP status " ++ toString code ++ " from " ++ String.ofList url
  | .timeout limit => "timed out after " ++ limit.render
  | .malformed data => "malformed data: " ++ data.message
  | .io fault => "IO error: " ++ fault.message

/-- How a read ends. -/
inductive Reading
  | bytes (content : Bytes)
  | failed (error : FetchError)
  | crashed
  deriving DecidableEq, Repr

/-- How a read ends and how long that takes. -/
structure Attempt where
  reading : Reading
  took : Millis := 0
  deriving DecidableEq, Repr

/-- Something that bytes are read from. -/
structure ByteSource where
  location : Text
  read : ByteRange → Attempt

/-- A read that may not take longer than a limit. -/
def ByteSource.readWithin (source : ByteSource) (limit : Millis) (range : ByteRange) : Attempt :=
  let attempt := source.read range
  if limit < attempt.took then ⟨.failed (.timeout limit), limit⟩ else attempt

end TagPrompt
