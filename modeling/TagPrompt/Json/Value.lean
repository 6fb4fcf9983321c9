import TagPrompt.Text.Basic

/-! JSON documents and their text. Objects keep their members in the order of the document and with
all repetitions. A string whose escapes spell an unpaired surrogate is a string that has no text:
it may stand where nobody asks for its text. -/

namespace TagPrompt

/-- A JSON document; a number is kept as it is written. -/
inductive JsonValue
  | null
  | bool (value : Bool)
  | number (written : Text)
  | string (value : Option Text)
  | array (items : List JsonValue)
  | object (members : List (Option Text × JsonValue))
  deriving Inhabited

namespace JsonValue

/-! ### Writing -/

def twoHexDigits (n : Nat) : Text := [Nat.digitChar (n / 16 % 16), Nat.digitChar (n % 16)]

def escapeChar (c : Char) : Text :=
  if c = '"' then ['\\', '"']
  else if c = '\\' then ['\\', '\\']
  else if c = '\x08' then ['\\', 'b']
  else if c = '\x0c' then ['\\', 'f']
  else if c = '\n' then ['\\', 'n']
  else if c = '\r' then ['\\', 'r']
  else if c = '\t' then ['\\', 't']
  else if c.toNat < 0x20 then ['\\', 'u', '0', '0'] ++ twoHexDigits c.toNat
  else [c]

/-- A text as a JSON string. -/
def renderString (t : Text) : Text := '"' :: (t.flatMap escapeChar ++ ['"'])

mutual

/-- The text of a document, without blanks. -/
def render : JsonValue → Text
  | .null => "null".toList
  | .bool true => "true".toList
  | .bool false => "false".toList
  | .number written => written
  | .string value => renderString (value.getD [])
  | .array items => '[' :: (Text.join [','] (renderItems items) ++ [']'])
  | .object members => '\x7b' :: (Text.join [','] (renderMembers members) ++ ['\x7d'])

def renderItems : List JsonValue → List Text
  | [] => []
  | item :: items => render item :: renderItems items

def renderMembers : List (Option Text × JsonValue) → List Text
  | [] => []
  | (key, value) :: members =>
      (renderString (key.getD []) ++ ':' :: render value) :: renderMembers members

end

end JsonValue
end TagPrompt
