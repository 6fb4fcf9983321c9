import TagPrompt.Text.Basic

/-! UTF-8. A lead byte fixes how many bytes follow it and the range each of them lies in, which
excludes overlong forms, surrogates and values past the last code point; a byte outside its range
is where a sequence stops being valid. -/

namespace TagPrompt.Utf8

/-- Closed range of byte values. -/
structure ByteBand where
  low : UInt8
  high : UInt8

def ByteBand.holds (band : ByteBand) (b : UInt8) : Bool := band.low ≤ b && b ≤ band.high

/-- The bytes that continue a sequence with no further restriction. -/
def continuation : ByteBand := ⟨0x80, 0xBF⟩

/-- The bands of the bytes after a lead byte, and the bits that the lead byte contributes. -/
def lead? (b : UInt8) : Option (List ByteBand × Nat) :=
  if b < 0x80 then some ([], b.toNat)
  else if b < 0xC2 then none
  else if b < 0xE0 then some ([continuation], b.toNat - 0xC0)
  else if b = 0xE0 then some ([⟨0xA0, 0xBF⟩, continuation], 0)
  else if b = 0xED then some ([⟨0x80, 0x9F⟩, continuation], 0xD)
  else if b < 0xF0 then some ([continuation, continuation], b.toNat - 0xE0)
  else if b = 0xF0 then some ([⟨0x90, 0xBF⟩, continuation, continuation], 0)
  else if b < 0xF4 then some ([continuation, continuation, continuation], b.toNat - 0xF0)
  else if b = 0xF4 then some ([⟨0x80, 0x8F⟩, continuation, continuation], 4)
  else none

/-- Where and how bytes stop being UTF-8. -/
inductive Fault
  /-- The sequence at `index` is wrong; its first `length` bytes could still have begun one. -/
  | invalid (length index : Nat)
  /-- The bytes end inside the so far valid sequence at `index`. -/
  | incomplete (index : Nat)
  deriving DecidableEq, Repr

def Fault.message : Fault → String
  | .invalid length index =>
      "invalid utf-8 sequence of " ++ toString length ++ " bytes from index " ++ toString index
  | .incomplete index => "incomplete utf-8 byte sequence from index " ++ toString index

/-- Reads on from position `at`: `pending` bands are still to be met by the sequence that began at
`start` and has contributed `value` so far. -/
def decodeFrom (pending : List ByteBand) (value start position : Nat) : Bytes → Except Fault Text
  | [] => if pending.isEmpty then .ok [] else .error (.incomplete start)
  | b :: rest =>
      match pending with
      | [] =>
          match lead? b with
          | none => .error (.invalid 1 position)
          | some ([], v) =>
              (decodeFrom [] 0 (position + 1) (position + 1) rest).map (Char.ofNat v :: ·)
          | some (bands, v) => decodeFrom bands v position (position + 1) rest
      | band :: bands =>
          if band.holds b then
            let v := value * 64 + (b.toNat - 0x80)
            match bands with
            | [] => (decodeFrom [] 0 (position + 1) (position + 1) rest).map (Char.ofNat v :: ·)
            | _ :: _ => decodeFrom bands v start (position + 1) rest
          else .error (.invalid (position - start) start)

/-- The text that bytes encode, or the first place where they encode none. -/
def decode (bytes : Bytes) : Except Fault Text := decodeFrom [] 0 0 0 bytes

/-- A byte that continues a sequence with the six lowest bits of a number. -/
def trailing (n : Nat) : UInt8 := (0x80 + n % 0x40).toUInt8

/-- The one to four bytes of a character. -/
def encodeChar (c : Char) : Bytes :=
  let n := c.toNat
  if n < 0x80 then [n.toUInt8]
  else if n < 0x800 then [(0xC0 + n / 0x40).toUInt8, trailing n]
  else if n < 0x10000 then [(0xE0 + n / 0x1000).toUInt8, trailing (n / 0x40), trailing n]
  else
    [(0xF0 + n / 0x40000).toUInt8, trailing (n / 0x1000), trailing (n / 0x40), trailing n]

def encode (t : Text) : Bytes := t.flatMap encodeChar

end TagPrompt.Utf8
