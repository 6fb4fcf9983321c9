import TagPrompt.Files.Tree
import TagPrompt.Json.Reader
import TagPrompt.Text.Message

/-! The data files that are read once at the start: what can be wrong with them, and the values that
stand in their documents. -/

namespace TagPrompt

inductive DataError
  /-- The file or directory at this path cannot be read. -/
  | unreadable (path : Text) (fault : IoFault)
  /-- The text is no JSON document of the shape asked for. -/
  | json
  /-- An entry of the tag index ends before it starts. -/
  | invalidRange (tag : Text) (start stop : UInt32)
  deriving DecidableEq, Repr

/-- What is wrong with a text that is no JSON document of the shape asked for. -/
def jsonDetail : String := "no document of the expected form"

def DataError.message : DataError → String
  | .unreadable path fault => "failed to read " ++ String.ofList path ++ ": " ++ fault.message
  | .json => "invalid JSON: " ++ jsonDetail
  | .invalidRange tag start stop =>
      "invalid tag index entry " ++ Text.quoted tag ++ ": end " ++ toString stop ++
        " is before start " ++ toString start

def readDataFile (files : FileTree) (path : Text) : Except DataError Text :=
  match files.readText path with
  | .ok text => .ok text
  | .error fault => .error (.unreadable path fault)

/-! ### Documents of a fixed shape

Records with named fields, lists of texts, and words. A record is an object, in which fields nobody
knows are passed over and a known field stands at most once, or an array with the fields in
order. -/

namespace JsonValue

/-- The value of the member with this key, if there is exactly one; `none` for none at all. -/
def member? (members : List (Option Text × JsonValue)) (key : Text) :
    Option (Option JsonValue) :=
  match members.filter fun m => m.1 == some key with
  | [] => some none
  | [(_, value)] => some (some value)
  | _ => none

/-- The values of the named fields, `none` for a field that is absent. -/
def fields? (names : List Text) : JsonValue → Option (List (Option JsonValue))
  | .object members =>
      if members.all fun m => m.1.isSome then names.mapM (member? members) else none
  | .array items =>
      if items.length ≤ names.length then
        some ((List.range names.length).map fun i => items[i]?)
      else none
  | _ => none

def text? : JsonValue → Option Text
  | .string value => value
  | _ => none

def texts? : JsonValue → Option (List Text)
  | .array items => items.mapM text?
  | _ => none

/-- A number of 32 bits that is written without sign, point and exponent. -/
def word? : JsonValue → Option UInt32
  | .number written =>
      if written.all Text.isDigit && Text.decimal written < UInt32.size then
        some (Text.decimal written).toUInt32
      else none
  | _ => none

end JsonValue
end TagPrompt
