import TagPrompt.Toml.Moment
import TagPrompt.Toml.Number
import TagPrompt.Toml.Quoted
import TagPrompt.Toml.Table

/-! Reading TOML text. A reader takes a text and gives what it read with the text behind. Carriage
returns stand only in front of line feeds: that is checked once, for the whole text. -/

namespace TagPrompt.TomlReader

/-! ### What stands between things -/

/-- Whether a character may stand between the parts of a line. -/
def isLineBlank (c : Char) : Bool := c = ' ' || c = '\t'

def skipBlank (t : Text) : Text := t.dropWhile isLineBlank

/-- Whether a character may stand in a comment. -/
def isCommentChar (c : Char) : Bool := !isTomlControl c && c ≠ '\n'

/-- Drops blanks, line ends and comments; `inside` a comment at first or not. -/
def skipFillFrom (inside : Bool) : Text → Text
  | [] => []
  | c :: rest =>
      if c = '\n' || c = '\r' then skipFillFrom false rest
      else if inside then if isCommentChar c then skipFillFrom true rest else c :: rest
      else if isLineBlank c then skipFillFrom false rest
      else if c = '#' then skipFillFrom true rest
      else c :: rest

/-- Drops blanks, line ends and comments. -/
def skipFill (t : Text) : Text := skipFillFrom false t

def skipComment (t : Text) : Text :=
  match t with
  | '#' :: rest => rest.dropWhile isCommentChar
  | _ => t

/-- Reads what may follow a statement on its line. -/
def readLineEnd (t : Text) : Option Text :=
  match skipComment (skipBlank t) with
  | [] => some []
  | '\n' :: rest => some rest
  | '\r' :: '\n' :: rest => some rest
  | _ => none

/-! ### Keys -/

/-- Whether a character may stand in a key without quotes. -/
def isKeyChar (c : Char) : Bool :=
  Text.isDigit c || ('a' ≤ c && c ≤ 'z') || ('A' ≤ c && c ≤ 'Z') || c = '_' || c = '-'

/-- Reads a key without dots. -/
def readSimpleKey (t : Text) : Option (Text × Text) :=
  match t.span isKeyChar with
  | ([], _) => TomlString.read TomlString.singleLineForms t
  | (key, rest) => some (key, rest)

/-- Reads a key with a bound on its parts: the parts in front of the last dot, and the last one. -/
def readKeyOf : Nat → Text → Option ((List Text × Text) × Text)
  | 0, _ => none
  | bound + 1, t => do
      let (first, t) ← readSimpleKey (skipBlank t)
      match skipBlank t with
      | '.' :: t =>
          let ((path, key), t) ← readKeyOf bound t
          return ((first :: path, key), t)
      | t => return (([], first), t)

/-- The greatest number of parts of a key. -/
def keyPartLimit : Nat := 80

def readKey (t : Text) : Option ((List Text × Text) × Text) := readKeyOf keyPartLimit t

/-! ### Values -/

/-- Whether a character may stand in a number, a date or the name of a value. -/
def isAtomChar (c : Char) : Bool := isKeyChar c || c = '+' || c = '.' || c = ':'

/-- Reads the characters of an atom. A date and a time may have one space between them. -/
def readAtom (t : Text) : Text × Text :=
  let (atom, rest) := t.span isAtomChar
  match rest with
  | ' ' :: c :: behind =>
      if TomlMoment.isDate atom && Text.isDigit c then
        let (time, rest) := (c :: behind).span isAtomChar
        (atom ++ ' ' :: time, rest)
      else (atom, rest)
  | _ => (atom, rest)

/-- The value that an atom is. -/
def atom? (t : Text) : Option TomlValue :=
  if t = "true".toList then some (.boolean true)
  else if t = "false".toList then some (.boolean false)
  else
    match TomlNumber.integer? t with
    | some n => some (.integer n)
    | none =>
        if TomlNumber.isFloat t then some (.float t)
        else if TomlMoment.isMoment t then some (.moment t)
        else none

/-- Reads a value that holds no other values. -/
def readSimple (t : Text) : Option (TomlValue × Text) :=
  match t with
  | c :: _ =>
      if c = '"' || c = '\'' then
        (TomlString.read TomlString.allForms t).map fun (value, rest) => (.string value, rest)
      else
        let (atom, rest) := readAtom t
        (atom? atom).map fun value => (value, rest)
  | [] => none

/-- Reads items up to a closing mark, with a bound on their number. A comma stands between items and
may stand behind the last one. -/
def readItems {α : Type} (closing : Char) (item : Text → Option (α × Text)) :
    Nat → Text → Option (List α × Text)
  | 0, _ => none
  | bound + 1, t =>
      match skipFill t with
      | [] => none
      | c :: rest =>
          if c = closing then some ([], rest)
          else do
            let (first, t) ← item (c :: rest)
            match skipFill t with
            | ',' :: t =>
                let (items, t) ← readItems closing item bound t
                return (first :: items, t)
            | d :: t => if d = closing then return ([first], t) else none
            | [] => none

/-- Reads a key and its value; `skip` drops what may stand on both sides of the sign between them.
-/
def readPair (skip : Text → Text) (value : Text → Option (TomlValue × Text)) (t : Text) :
    Option (TomlPair × Text) := do
  let ((path, key), t) ← readKey t
  match skip t with
  | '=' :: t =>
      let (value, t) ← value (skip t)
      return (⟨path, key, value⟩, t)
  | _ => none

/-- Reads a value with a bound on how deep it nests. Between braces, lines may end wherever blanks
may stand, though not inside a key. -/
def readValue : Nat → Text → Option (TomlValue × Text)
  | 0, t => readSimple t
  | depth + 1, t =>
      match t with
      | '[' :: t => (readItems ']' (readValue depth) t.length t).map fun (items, t) =>
          (.array items, t)
      | '\x7b' :: t => do
          let (pairs, t) ← readItems '\x7d' (readPair skipFill (readValue depth)) t.length t
          return (← TomlValue.ofInlinePairs pairs, t)
      | t => readSimple t

/-! ### Documents -/

def nestingLimit : Nat := 80

/-- A statement of a document. -/
inductive Statement
  | pair (pair : TomlPair)
  | header (repeated : Bool) (path : List Text) (key : Text)

def readHeader (repeated : Bool) (t : Text) : Option (Statement × Text) := do
  let ((path, key), t) ← readKey t
  let t ← Text.after? (if repeated then [']', ']'] else [']']) t
  return (.header repeated path key, t)

def readStatement (t : Text) : Option (Statement × Text) := do
  let (statement, t) ←
    match t with
    | '[' :: '[' :: t => readHeader true t
    | '[' :: t => readHeader false t
    | t => (readPair skipBlank (readValue nestingLimit) t).map fun (pair, t) => (.pair pair, t)
  return (statement, ← readLineEnd t)

/-- Reads statements up to the end of the text, with a bound on their number. -/
def readStatements : Nat → Text → Option (List Statement)
  | 0, _ => none
  | bound + 1, t =>
      match skipFill t with
      | [] => some []
      | t => do
          let (statement, t) ← readStatement t
          return statement :: (← readStatements bound t)

/-- Puts a statement in front of a document that has the statements behind it. -/
def place (statement : Statement) (document : TomlDocument) : TomlDocument :=
  match statement with
  | .pair pair => { document with pairs := pair :: document.pairs }
  | .header repeated path key =>
      let opened : TomlSection :=
        if repeated then .element path key document.pairs else .table path key document.pairs
      { pairs := [], sections := opened :: document.sections }

/-- Statements as a document: each pair belongs to the header in front of it. -/
def documentOf (statements : List Statement) : TomlDocument := statements.foldr place ⟨[], []⟩

/-- Whether every carriage return has a line feed behind it. -/
def returnsArePaired : Text → Bool
  | [] => true
  | '\r' :: rest => rest.head? == some '\n' && returnsArePaired rest
  | _ :: rest => returnsArePaired rest

/-- The mark that may stand in front of a text and is no part of it. -/
def byteOrderMark : Char := Char.ofNat 0xFEFF

/-- The document that a text is. -/
def parseDocument (t : Text) : Option TomlDocument :=
  let t := Text.strip [byteOrderMark] t
  if returnsArePaired t then (readStatements (t.length + 1) t).map documentOf else none

end TomlReader

/-- The table that a TOML text describes. -/
def TomlValue.parse (t : Text) : Option TomlValue :=
  (TomlReader.parseDocument t).bind TomlDocument.table?

end TagPrompt
