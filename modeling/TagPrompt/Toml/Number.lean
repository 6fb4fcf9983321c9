import TagPrompt.Text.Basic

/-! Numbers as TOML writes them. Single underscores may stand between digits. How a number is
written puts no bound on its size: whether it fits into what holds numbers is a question of its own.
-/

namespace TagPrompt.TomlNumber

/-- The digits of a run without the underscores between them; each underscore has a digit on both
sides. -/
def ungroup? (isDigit : Char → Bool) (t : Text) : Option Text :=
  let pieces := Text.split '_' t
  if pieces.all fun piece => !piece.isEmpty && piece.all isDigit then some pieces.flatten else none

/-- Whether a number begins with a minus, and what follows its sign. -/
def unsign (t : Text) : Bool × Text :=
  match t with
  | '-' :: rest => (true, rest)
  | '+' :: rest => (false, rest)
  | _ => (false, t)

/-! ### Integers -/

/-- The decimal digits of a whole number, which has no zero in front of other digits. -/
def whole? (t : Text) : Option Text :=
  match ungroup? Text.isDigit t with
  | some ('0' :: _ :: _) => none
  | digits? => digits?

def isDigitOf (base : Nat) (c : Char) : Bool :=
  match Text.hexValue? c with
  | some digit => digit < base
  | none => false

/-- A number in a base that its first two characters name; it has no sign. -/
def based? (t : Text) : Option Nat :=
  let inBase (base : Nat) (digits : Text) : Option Nat :=
    (ungroup? (isDigitOf base) digits).bind (Text.number? base)
  match t with
  | '0' :: 'x' :: digits => inBase 16 digits
  | '0' :: 'o' :: digits => inBase 8 digits
  | '0' :: 'b' :: digits => inBase 2 digits
  | _ => none

/-- A decimal number with or without a sign. -/
def signed? (t : Text) : Option Int :=
  let (negative, digits) := unsign t
  (whole? digits).map fun digits =>
    if negative then -(Text.decimal digits : Int) else Text.decimal digits

/-- The integer that a text is. -/
def integer? (t : Text) : Option Int := (based? t).map Int.ofNat <|> signed? t

/-- Whether an integer fits into 128 bits, with or without a sign. -/
def isBounded (n : Int) : Bool :=
  if n < 0 then n.natAbs ≤ 1 <<< 127 else n.natAbs < 1 <<< 128

/-! ### Floats -/

/-- A decimal number: its digits, how many of them stand behind the point, and a power of ten. -/
structure Decimal where
  digits : Text
  point : Nat
  exponent : Int

/-- The least number that is nearer to two to the power 1024 than to the greatest float. -/
def floatBound : Nat := 1 <<< 1024 - 1 <<< 970

/-- Whether the float nearest to a decimal number is finite. -/
def Decimal.isBounded (d : Decimal) : Bool :=
  let mantissa := Text.decimal d.digits
  let scale := d.exponent - d.point
  if mantissa = 0 || (d.digits.length : Int) + scale < 300 then true
  else if 400 < scale then false
  else if 0 ≤ scale then mantissa * Nat.pow 10 scale.toNat < floatBound
  else mantissa < floatBound * Nat.pow 10 (-scale).toNat

/-- The power of ten behind the letter of an exponent. -/
def exponent? (t : Text) : Option Int :=
  let (negative, digits) := unsign t
  (ungroup? Text.isDigit digits).map fun digits =>
    if negative then -(Text.decimal digits : Int) else Text.decimal digits

/-- The decimal number that a text is; it has a point, an exponent or both. -/
def decimal? (t : Text) : Option Decimal := do
  let unsigned := (unsign t).2
  let (mantissa, power) := unsigned.span fun c => c ≠ 'e' && c ≠ 'E'
  let (front, behind) := mantissa.span (· ≠ '.')
  let digits ← whole? front
  let fraction ← if behind.isEmpty then some [] else ungroup? Text.isDigit behind.tail
  let exponent ← if power.isEmpty then some 0 else exponent? power.tail
  if behind.isEmpty && power.isEmpty then none
  else some ⟨digits ++ fraction, fraction.length, exponent⟩

/-- Whether a text is the name of a float that no decimal number is, with or without a sign. -/
def isSpecial (t : Text) : Bool :=
  let unsigned := (unsign t).2
  unsigned = "inf".toList || unsigned = "nan".toList

def isFloat (t : Text) : Bool := isSpecial t || (decimal? t).isSome

/-- Whether a float as it is written can be held: a decimal number may be too great. -/
def isBoundedFloat (t : Text) : Bool :=
  match decimal? t with
  | some d => d.isBounded
  | none => true

end TagPrompt.TomlNumber
