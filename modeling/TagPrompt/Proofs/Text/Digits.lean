import TagPrompt.Text.Basic

/-! Decimal digits there and back. A number is written in decimal digits, with no zero in front of
others, and these digits spell the number. -/

namespace TagPrompt.Text

variable {n : Nat} {c : Char} {rest : Text}

theorem ofNat_eq_toDigits (n : Nat) : ofNat n = Nat.toDigits 10 n := Nat.toList_repr

theorem ofNat_ne_nil (n : Nat) : ofNat n ≠ [] := by
  rw [ofNat_eq_toDigits]
  exact Nat.toDigits_ne_nil

theorem isDigit_eq (c : Char) : isDigit c = c.isDigit := rfl

theorem isDigit_of_mem_ofNat (h : c ∈ ofNat n) : isDigit c = true := by
  rw [ofNat_eq_toDigits] at h
  rw [isDigit_eq]
  exact Nat.isDigit_of_mem_toDigits (by decide) (by decide) h

theorem not_mem_ofNat (h : isDigit c = false) (n : Nat) : c ∉ ofNat n := by
  intro hc
  rw [isDigit_of_mem_ofNat hc] at h
  cases h

theorem eq_nil_of_ofNat_eq_zero_cons (h : ofNat n = '0' :: rest) : rest = [] := by
  rw [ofNat_eq_toDigits] at h
  suffices hzero : n = 0 by
    subst hzero
    exact (List.cons.inj h).2.symm
  induction n using Nat.strongRecOn generalizing rest with
  | ind n ih =>
      by_cases hn : n < 10
      · rw [Nat.toDigits_of_lt_base hn] at h
        exact Nat.digitChar_eq_zero.mp (List.cons.inj h).1
      · -- the digits in front of the last one begin with zero too
        obtain ⟨first, more, hfront⟩ := List.exists_cons_of_ne_nil
          (Nat.toDigits_ne_nil : Nat.toDigits 10 (n / 10) ≠ [])
        rw [Nat.toDigits_of_base_le (by decide) (Nat.not_lt.mp hn), hfront] at h
        obtain ⟨rfl, -⟩ := List.cons.inj h
        have hzero := ih (n / 10) (by omega) hfront
        omega

theorem decimal_ofNat (n : Nat) : decimal (ofNat n) = n := by
  rw [ofNat_eq_toDigits, decimal]
  simp only [Nat.mul_comm _ 10]
  rw [← Nat.ofDigitChars_eq_foldl, Nat.ofDigitChars_toDigits (by decide) (by decide)]

end TagPrompt.Text
