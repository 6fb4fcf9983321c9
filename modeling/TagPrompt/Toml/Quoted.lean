import TagPrompt.Text.Basic

/-! Strings as TOML writes them: between single or double quotes, one or three of them on each side.
Between double quotes a backslash begins an escape; between three quotes the text may span lines. -/

namespace TagPrompt

/-- One of the four ways to write a string. -/
structure TomlStringForm where
  quote : Char
  escapes : Bool
  multiline : Bool
  deriving DecidableEq, Repr

namespace TomlStringForm

def basic : TomlStringForm := ⟨'"', true, false⟩
def literal : TomlStringForm := ⟨'\'', false, false⟩
def multilineBasic : TomlStringForm := ⟨'"', true, true⟩
def multilineLiteral : TomlStringForm := ⟨'\'', false, true⟩

def delimiter (form : TomlStringForm) : Text :=
  List.replicate (if form.multiline then 3 else 1) form.quote

end TomlStringForm

/-- A character that has to be escaped; a tab and the end of a line are none of them. -/
def isTomlControl (c : Char) : Bool :=
  (c.toNat < 0x20 && c ≠ '\t' && c ≠ '\n') || c.toNat == 0x7F

namespace TomlString

/-! ### Writing -/

/-- The longest run of a character in a text, where `run` of them stand in front of it. -/
def longestRunFrom (quote : Char) (run : Nat) : Text → Nat
  | [] => run
  | c :: rest =>
      if c = quote then longestRunFrom quote (run + 1) rest
      else max run (longestRunFrom quote 0 rest)

def longestRun (quote : Char) (t : Text) : Nat := longestRunFrom quote 0 t

/-- Whether a form can hold a text without any escape but that of a tab. -/
def fits (form : TomlStringForm) (t : Text) : Bool :=
  !t.any isTomlControl && !(form.escapes && t.contains '\\') &&
    longestRun form.quote t < form.delimiter.length && (form.multiline || !t.contains '\n')

/-- The form that a text is written in: the first that needs no escapes, else one with escapes. -/
def formOf (t : Text) : TomlStringForm :=
  if fits .basic t then .basic
  else if fits .literal t then .literal
  else if fits .multilineBasic t then .multilineBasic
  else if fits .multilineLiteral t then .multilineLiteral
  else if t.contains '\n' then .multilineBasic
  else .basic

/-- Two digits in base sixteen, upper case. -/
def upperHexDigits (n : Nat) : Text :=
  [Nat.digitChar (n / 16 % 16), Nat.digitChar (n % 16)].map Char.toUpper

/-- A character between double quotes that is no quote. -/
def escapeChar (multiline : Bool) (c : Char) : Text :=
  if c = '\x08' then ['\\', 'b']
  else if c = '\t' then ['\\', 't']
  else if c = '\n' then if multiline then ['\n'] else ['\\', 'n']
  else if c = '\x0c' then ['\\', 'f']
  else if c = '\r' then ['\\', 'r']
  else if c = '\\' then ['\\', '\\']
  else if isTomlControl c then ['\\', 'u', '0', '0'] ++ upperHexDigits c.toNat
  else [c]

/-- A text between double quotes, where `run` quotes stand in front of it. Between three quotes up
to two quotes in a row stand for themselves. -/
def escapeFrom (multiline : Bool) (run : Nat) : Text → Text
  | [] => []
  | c :: rest =>
      if c = '"' then
        if multiline && run < 2 then '"' :: escapeFrom multiline (run + 1) rest
        else '\\' :: '"' :: escapeFrom multiline 0 rest
      else escapeChar multiline c ++ escapeFrom multiline 0 rest

/-- What stands between the quotes of a form. A line end right behind the opening quotes is not part
of the string, so one is put in front of a text that spans lines. -/
def body (form : TomlStringForm) (t : Text) : Text :=
  let inner := if form.escapes then escapeFrom form.multiline 0 t else t
  if form.multiline && t.contains '\n' then '\n' :: inner else inner

def writeAs (form : TomlStringForm) (t : Text) : Text :=
  form.delimiter ++ body form t ++ form.delimiter

/-- A text as a string. -/
def write (t : Text) : Text := writeAs (formOf t) t

/-! ### Reading -/

/-- Where reading stands inside a string. -/
inductive State
  | plain
  /-- Behind a backslash. -/
  | escape
  /-- Inside a numeric escape: how many digits are missing and the value of those before. -/
  | number (missing value : Nat)
  /-- Behind a backslash at the end of a line: whether that end has been met. -/
  | gap (ended : Bool)

/-- The character that a one-letter escape stands for. -/
def simpleEscape? (c : Char) : Option Char :=
  if c = 'b' then some '\x08'
  else if c = 't' then some '\t'
  else if c = 'n' then some '\n'
  else if c = 'f' then some '\x0c'
  else if c = 'r' then some '\r'
  else if c = 'e' then some '\x1b'
  else if c = '"' ∨ c = '\\' then some c
  else none

def numberDigits? (c : Char) : Option Nat :=
  if c = 'x' then some 2 else if c = 'u' then some 4 else if c = 'U' then some 8 else none

def charOf? (n : Nat) : Option Char := if h : n.isValidChar then some (Char.ofNatAux n h) else none

/-- A step of reading: the character that is complete with it, if one is, and where reading stands
then. -/
abbrev Step := Option Char × State

def digitStep? (missing value : Nat) (c : Char) : Option Step := do
  let value := value * 16 + (← Text.hexValue? c)
  if missing = 1 then return (some (← charOf? value), .plain)
  else return (none, .number (missing - 1) value)

/-- A blank or a line end behind a backslash. A carriage return counts as a blank in front of the
line feed that follows it. -/
def gapStep? (ended : Bool) (c : Char) : Option Step :=
  if c = ' ' ∨ c = '\t' ∨ c = '\r' then some (none, .gap ended)
  else if c = '\n' then some (none, .gap true)
  else none

def escapeStep? (form : TomlStringForm) (c : Char) : Option Step :=
  match simpleEscape? c, numberDigits? c with
  | some d, _ => some (some d, .plain)
  | none, some digits => some (none, .number digits 0)
  | none, none => if form.multiline then gapStep? false c else none

/-- Whether a character may stand for itself; the characters of a line end may between three
quotes. -/
def isPlain (form : TomlStringForm) (c : Char) : Bool :=
  if c = '\n' || c = '\r' then form.multiline else !isTomlControl c

def plainStep? (form : TomlStringForm) (c : Char) : Option Step :=
  if form.escapes && c = '\\' then some (none, .escape)
  else if isPlain form c then some (some c, .plain)
  else none

/-- The step that a character is. -/
def step? (form : TomlStringForm) : State → Char → Option Step
  | .plain, c => plainStep? form c
  | .escape, c => escapeStep? form c
  | .number missing value, c => digitStep? missing value c
  | .gap ended, c => gapStep? ended c <|> if ended then plainStep? form c else none

/-- Whether a string may end here. -/
def State.mayEnd : State → Bool
  | .plain | .gap true => true
  | .escape | .number .. | .gap false => false

/-- What follows the end of a string, if the string ends here, and the quotes that still belong to
it: three quotes end a string also behind one or two quotes of its own. -/
def closing? (form : TomlStringForm) (t : Text) : Option (Text × Text) :=
  let behind (own : Nat) : Option (Text × Text) :=
    let quotes := List.replicate own form.quote
    (Text.after? (quotes ++ form.delimiter) t).map fun rest => (quotes, rest)
  if form.multiline then behind 2 <|> behind 1 <|> behind 0 else behind 0

/-- Reads a string after its opening quotes: the content and the text behind the closing ones. -/
def readBody (form : TomlStringForm) : State → Text → Option (Text × Text)
  | _, [] => none
  | state, c :: rest =>
      match if state.mayEnd then closing? form (c :: rest) else none with
      | some closed => some closed
      | none =>
          match step? form state c with
          | some (d, state) =>
              (readBody form state rest).map fun (content, rest) => (d.toList ++ content, rest)
          | none => none

def skipLineEnd (t : Text) : Text :=
  match t with
  | '\n' :: rest => rest
  | '\r' :: '\n' :: rest => rest
  | _ => t

/-- Reads a string after its opening quotes. With three of them, a line end right behind them is
skipped. -/
def readOpened (form : TomlStringForm) (t : Text) : Option (Text × Text) :=
  readBody form .plain (if form.multiline then skipLineEnd t else t)

/-- The forms that keep to one line. -/
def singleLineForms : List TomlStringForm := [.basic, .literal]

/-- All forms. Those with three quotes come first, so that these are not taken for an empty
string. -/
def allForms : List TomlStringForm := [.multilineBasic, .multilineLiteral] ++ singleLineForms

/-- Reads a string in one of some forms; the first whose opening quotes are there is its form. -/
def read (forms : List TomlStringForm) (t : Text) : Option (Text × Text) :=
  match forms.findSome? fun form => (Text.after? form.delimiter t).map (Prod.mk form) with
  | some (form, rest) => readOpened form rest
  | none => none

end TomlString
end TagPrompt
