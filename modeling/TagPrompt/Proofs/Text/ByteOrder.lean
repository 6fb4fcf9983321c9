import TagPrompt.Proofs.Text.Order
import TagPrompt.Proofs.Text.Utf8

/-! Texts ascend as their bytes do. Of two characters the one with the greater code point has the
greater first byte, or the same one and greater bytes behind it, so comparing texts character by
character is comparing what they are encoded to byte by byte. -/

namespace TagPrompt.Utf8

variable {m n : Nat} {s t : Text} {a b : UInt8} {rest rest' : Bytes}

theorem cons_lt_cons_iff :
    a :: rest < b :: rest' ↔ a.toNat < b.toNat ∨ a.toNat = b.toNat ∧ rest < rest' := by
  rw [List.cons_lt_cons_iff, UInt8.lt_iff_toNat_lt, UInt8.toNat_inj]

/-! ### Characters -/

/-- The first byte of the character with a code point. -/
def leadOf (n : Nat) : Nat :=
  if n < 0x80 then n
  else if n < 0x800 then 0xC0 + n / 0x40
  else if n < 0x10000 then 0xE0 + n / 0x1000
  else 0xF0 + n / 0x40000

/-- The bytes behind the first one. -/
def trailOf (n : Nat) : Bytes :=
  if n < 0x80 then []
  else if n < 0x800 then [trailing n]
  else if n < 0x10000 then [trailing (n / 0x40), trailing n]
  else [trailing (n / 0x1000), trailing (n / 0x40), trailing n]

theorem encodeChar_eq_cons (c : Char) :
    encodeChar c = (leadOf c.toNat).toUInt8 :: trailOf c.toNat := by
  unfold encodeChar leadOf trailOf
  dsimp only
  split_ifs <;> rfl

theorem leadOf_lt (c : Char) : leadOf c.toNat < 256 := by
  have hvalid := toNat_lt_or c
  unfold leadOf
  split_ifs <;> omega

theorem leadOf_mono (h : m ≤ n) : leadOf m ≤ leadOf n := by
  unfold leadOf
  split_ifs <;> omega

/-- Characters with the same first byte are equally long, and the bytes behind it tell their order.
-/
theorem trailOf_append_lt (h : m < n) (hlead : leadOf m = leadOf n) (rest rest' : Bytes) :
    trailOf m ++ rest < trailOf n ++ rest' := by
  unfold leadOf at hlead
  unfold trailOf
  split_ifs at hlead ⊢ <;>
    simp only [List.nil_append, List.cons_append, cons_lt_cons_iff, toNat_trailing] <;> omega

theorem encodeChar_append_lt {c d : Char} (h : c.toNat < d.toNat) (rest rest' : Bytes) :
    encodeChar c ++ rest < encodeChar d ++ rest' := by
  rw [encodeChar_eq_cons, encodeChar_eq_cons, List.cons_append, List.cons_append, cons_lt_cons_iff,
    toNat_toUInt8 (leadOf_lt c), toNat_toUInt8 (leadOf_lt d)]
  rcases Nat.lt_or_eq_of_le (leadOf_mono (Nat.le_of_lt h)) with hlead | hlead
  · exact Or.inl hlead
  · exact Or.inr ⟨hlead, trailOf_append_lt h hlead rest rest'⟩

/-! ### Texts -/

theorem encode_lt_encode (h : Text.precedes s t = true) (hne : s ≠ t) : encode s < encode t := by
  induction s generalizing t with
  | nil =>
      cases t with
      | nil => exact absurd rfl hne
      | cons d t =>
          rw [encode_cons, encodeChar_eq_cons]
          exact List.nil_lt_cons _ _
  | cons c s ih =>
      cases t with
      | nil => cases h
      | cons d t =>
          rw [encode_cons, encode_cons]
          rcases Text.precedes_cons.mp h with hlt | ⟨heq, hrest⟩
          · exact encodeChar_append_lt hlt _ _
          · obtain rfl : c = d := Char.toNat_inj.mp heq
            exact List.append_left_lt (ih hrest fun hst => hne (congrArg (c :: ·) hst))

end TagPrompt.Utf8
