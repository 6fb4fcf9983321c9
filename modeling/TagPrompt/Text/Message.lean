import TagPrompt.Text.ExtendingMark
import TagPrompt.Text.Unprintable

/-! Texts and spans of time as messages show them. A text stands between double quotes, in which
whatever would be invisible, ambiguous or drawn onto its neighbour is written as an escape and
everything else stands for itself. -/

namespace TagPrompt

namespace Text

/-- The digits of a number in base sixteen, lower case, without leading zeros. -/
def hexDigits (n : Nat) : List Char := Nat.toDigits 16 n

/-- One character as it stands between double quotes. -/
def quoteChar (c : Char) : List Char :=
  if c = '"' then ['\\', '"']
  else if c = '\\' then ['\\', '\\']
  else if c = '\t' then ['\\', 't']
  else if c = '\r' then ['\\', 'r']
  else if c = '\n' then ['\\', 'n']
  else if c.toNat = 0 then ['\\', '0']
  else if isExtendingMark c || isUnprintable c then
    ['\\', 'u', '\x7b'] ++ hexDigits c.toNat ++ ['\x7d']
  else [c]

def quoted (t : List Char) : String :=
  String.ofList ('"' :: (t.flatMap quoteChar ++ ['"']))

end Text

/-- A span of time in milliseconds. -/
abbrev Millis := Nat

namespace Millis

/-- The digits after the point of a number of thousandths, trailing zeros dropped. -/
def fractionDigits (thousandths : Nat) : List Char :=
  let digits := [thousandths / 100 % 10, thousandths / 10 % 10, thousandths % 10]
  ((digits.map Nat.digitChar).reverse.dropWhile (· = '0')).reverse

/-- Milliseconds below a second as such, longer spans in seconds with the shortest fraction. An
empty span is shown in the smallest unit there is. -/
def render (span : Millis) : String :=
  if span = 0 then "0ns"
  else if span < 1000 then toString span ++ "ms"
  else
    match fractionDigits (span % 1000) with
    | [] => toString (span / 1000) ++ "s"
    | digits => toString (span / 1000) ++ "." ++ String.ofList digits ++ "s"

end Millis
end TagPrompt
