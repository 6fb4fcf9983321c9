/-! Texts as lists of characters, with the cutting and trimming that every reader of this library is
built from. Blank means the Unicode property White_Space. -/

namespace TagPrompt

/-- A text is the list of its Unicode scalar values. -/
abbrev Text := List Char

/-- Raw file or network content. -/
abbrev Bytes := List UInt8

namespace Text

/-- The characters with the Unicode property White_Space. -/
def isBlank (c : Char) : Bool :=
  let n := c.toNat
  (0x9 ≤ n && n ≤ 0xD) || n == 0x20 || n == 0x85 || n == 0xA0 || n == 0x1680 ||
    (0x2000 ≤ n && n ≤ 0x200A) || n == 0x2028 || n == 0x2029 || n == 0x202F || n == 0x205F ||
    n == 0x3000

def trimStart (t : Text) : Text := t.dropWhile isBlank

def trimEnd (t : Text) : Text := (t.reverse.dropWhile isBlank).reverse

def trim (t : Text) : Text := trimEnd (trimStart t)

/-- What follows `lead` in a text that starts with it. -/
def after? : (lead t : Text) → Option Text
  | [], t => some t
  | _ :: _, [] => none
  | c :: lead, d :: t => if c = d then after? lead t else none

/-- A text without `lead` in front; a text that does not start with it stays whole. -/
def strip (lead t : Text) : Text := (after? lead t).getD t

/-- The pieces between the separators: one more than there are separators. -/
def split (separator : Char) : Text → List Text
  | [] => [[]]
  | c :: rest =>
      if c = separator then [] :: split separator rest
      else
        match split separator rest with
        | [] => [[c]]
        | piece :: pieces => (c :: piece) :: pieces

/-- The comma-separated parts of a text, trimmed, blank parts dropped. -/
def parts (t : Text) : List Text :=
  ((split ',' t).map trim).filter fun part => !part.isEmpty

/-- The lines of a text, trimmed, blank lines dropped. A carriage return in front of a line end is
blank, so both conventions for line ends give the same lines. -/
def lines (t : Text) : List Text :=
  ((split '\n' t).map trim).filter fun line => !line.isEmpty

def join (separator : Text) : List Text → Text
  | [] => []
  | [piece] => piece
  | piece :: pieces => piece ++ separator ++ join separator pieces

def ofNat (n : Nat) : Text := (Nat.repr n).toList

/-- Whether a text comes before another one, compared character by character; by code points this
is also the order of the encoded bytes. -/
def precedes : Text → Text → Bool
  | [], _ => true
  | _ :: _, [] => false
  | c :: s, d :: t => c.toNat < d.toNat || (c.toNat == d.toNat && precedes s t)

/-- Texts in ascending order, repetitions kept. -/
def sorted (ts : List Text) : List Text := ts.mergeSort precedes

/-! ### Digits and the numbers they spell -/

def isDigit (c : Char) : Bool := '0' ≤ c && c ≤ '9'

/-- The value of a digit in base sixteen, in either case. -/
def hexValue? (c : Char) : Option Nat :=
  if '0' ≤ c ∧ c ≤ '9' then some (c.toNat - '0'.toNat)
  else if 'a' ≤ c ∧ c ≤ 'f' then some (c.toNat - 'a'.toNat + 10)
  else if 'A' ≤ c ∧ c ≤ 'F' then some (c.toNat - 'A'.toNat + 10)
  else none

/-- The number that digits spell in a base up to sixteen; every digit has to be below the base. -/
def number? (base : Nat) (digits : Text) : Option Nat :=
  digits.foldlM (fun value c =>
    match hexValue? c with
    | some digit => if digit < base then some (value * base + digit) else none
    | none => none) 0

/-- The number that decimal digits spell. -/
def decimal (digits : Text) : Nat :=
  digits.foldl (fun value c => value * 10 + (c.toNat - '0'.toNat)) 0

end Text
end TagPrompt
