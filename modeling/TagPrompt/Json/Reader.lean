import TagPrompt.Json.Value
import TagPrompt.Text.Basic

/-! Reading JSON text: the strict grammar, with no comments, no trailing commas and nothing but
blanks around the document. A reader takes a text and gives what it read with the text behind. -/

namespace TagPrompt.JsonValue

/-- Drops the blanks that may stand between the marks of a document. -/
def skipBlank (t : Text) : Text :=
  t.dropWhile fun c => c = ' ' || c = '\t' || c = '\n' || c = '\r'

/-! ### Strings -/

/-- The character that a one-letter escape stands for. -/
def simpleEscape? (c : Char) : Option Char :=
  if c = '"' ∨ c = '\\' ∨ c = '/' then some c
  else if c = 'b' then some '\x08'
  else if c = 'f' then some '\x0c'
  else if c = 'n' then some '\n'
  else if c = 'r' then some '\r'
  else if c = 't' then some '\t'
  else none

/-- Reads the rest of a string after its opening quote as numbers: code points, and for numeric
escapes the number given, which may be one half of a surrogate pair. -/
def readUnits : Text → Option (List Nat × Text)
  | [] => none
  | '"' :: rest => some ([], rest)
  | '\\' :: 'u' :: a :: b :: c :: d :: rest =>
      match Text.number? 16 [a, b, c, d], readUnits rest with
      | some unit, some (units, rest) => some (unit :: units, rest)
      | _, _ => none
  | '\\' :: c :: rest =>
      match simpleEscape? c, readUnits rest with
      | some c, some (units, rest) => some (c.toNat :: units, rest)
      | _, _ => none
  | c :: rest =>
      if c.toNat < 0x20 ∨ c = '\\' then none
      else (readUnits rest).map fun (units, rest) => (c.toNat :: units, rest)

/-- The text that numbers spell: a high surrogate pairs with a low one right behind it, and neither
stands alone. -/
def textOfUnits? : List Nat → Option Text
  | [] => some []
  | unit :: units =>
      if 0xD800 ≤ unit ∧ unit < 0xDC00 then
        match units with
        | low :: units =>
            if 0xDC00 ≤ low ∧ low < 0xE000 then
              (textOfUnits? units).map
                (Char.ofNat (0x10000 + (unit - 0xD800) * 0x400 + (low - 0xDC00)) :: ·)
            else none
        | [] => none
      else if 0xDC00 ≤ unit ∧ unit < 0xE000 then none
      else (textOfUnits? units).map (Char.ofNat unit :: ·)

def readString (t : Text) : Option (Option Text × Text) :=
  (readUnits t).map fun (units, rest) => (textOfUnits? units, rest)

/-! ### Numbers -/

def readDigits (t : Text) : Option (Text × Text) :=
  match t.span Text.isDigit with
  | ([], _) => none
  | (digits, rest) => some (digits, rest)

/-- Reads the digits before the point: a single zero or digits that do not begin with one. -/
def readWhole (t : Text) : Option (Text × Text) :=
  match readDigits t with
  | some ('0' :: _ :: _, _) => none
  | read => read

/-- Reads a point and the digits behind it, if there is a point. -/
def readFraction (t : Text) : Option (Text × Text) :=
  match t with
  | '.' :: rest => (readDigits rest).map fun (digits, rest) => ('.' :: digits, rest)
  | _ => some ([], t)

/-- Reads an exponent, if there is one. -/
def readExponent (t : Text) : Option (Text × Text) :=
  match t with
  | e :: rest =>
      if e = 'e' ∨ e = 'E' then
        match rest with
        | sign :: digits =>
            if sign = '+' ∨ sign = '-' then
              (readDigits digits).map fun (digits, rest) => (e :: sign :: digits, rest)
            else (readDigits rest).map fun (digits, rest) => (e :: digits, rest)
        | [] => none
      else some ([], t)
  | [] => some ([], [])

/-- Reads a number without its sign. -/
def readUnsigned (t : Text) : Option (Text × Text) := do
  let (whole, t) ← readWhole t
  let (fraction, t) ← readFraction t
  let (exponent, t) ← readExponent t
  return (whole ++ fraction ++ exponent, t)

def readNumber (t : Text) : Option (Text × Text) :=
  match t with
  | '-' :: rest => (readUnsigned rest).map fun (digits, rest) => ('-' :: digits, rest)
  | _ => readUnsigned t

/-! ### Documents -/

/-- Reads the items of an array from an item on, with a bound on their number. -/
def readItems (item : Text → Option (JsonValue × Text)) : Nat → Text →
    Option (List JsonValue × Text)
  | 0, _ => none
  | bound + 1, t => do
      let (first, t) ← item t
      match skipBlank t with
      | ',' :: t =>
          let (items, t) ← readItems item bound t
          return (first :: items, t)
      | ']' :: t => return ([first], t)
      | _ => none

def readKey (t : Text) : Option (Option Text × Text) :=
  match skipBlank t with
  | '"' :: t => do
      let (key, t) ← readString t
      match skipBlank t with
      | ':' :: t => return (key, t)
      | _ => none
  | _ => none

/-- Reads the members of an object from a member on, with a bound on their number. -/
def readMembers (item : Text → Option (JsonValue × Text)) : Nat → Text →
    Option (List (Option Text × JsonValue) × Text)
  | 0, _ => none
  | bound + 1, t => do
      let (key, t) ← readKey t
      let (value, t) ← item t
      match skipBlank t with
      | ',' :: t =>
          let (members, t) ← readMembers item bound t
          return ((key, value) :: members, t)
      | '\x7d' :: t => return ([(key, value)], t)
      | _ => none

def readValue : Nat → Text → Option (JsonValue × Text)
  | 0, _ => none
  | bound + 1, t =>
      match skipBlank t with
      | '\x7b' :: t =>
          match skipBlank t with
          | '\x7d' :: rest => some (.object [], rest)
          | _ => (readMembers (readValue bound) t.length t).map fun (members, t) =>
              (.object members, t)
      | '[' :: t =>
          match skipBlank t with
          | ']' :: rest => some (.array [], rest)
          | _ => (readItems (readValue bound) t.length t).map fun (items, t) => (.array items, t)
      | '"' :: t => (readString t).map fun (text, t) => (.string text, t)
      | 't' :: 'r' :: 'u' :: 'e' :: t => some (.bool true, t)
      | 'f' :: 'a' :: 'l' :: 's' :: 'e' :: t => some (.bool false, t)
      | 'n' :: 'u' :: 'l' :: 'l' :: t => some (.null, t)
      | t => (readNumber t).map fun (written, t) => (.number written, t)

/-- The document that a text is. A document nests less deep than its text is long. -/
def parse (t : Text) : Option JsonValue :=
  match readValue (t.length + 1) t with
  | some (value, rest) => if (skipBlank rest).isEmpty then some value else none
  | none => none

end TagPrompt.JsonValue
