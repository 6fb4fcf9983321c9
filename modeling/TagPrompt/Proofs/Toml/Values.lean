import TagPrompt.Proofs.Text.Digits
import TagPrompt.Proofs.Toml.Strings
import TagPrompt.Toml.Reader

/-! Simple values there and back: strings, numbers in decimal digits and the two flags are read as
what they were written for, up to the end of their line. -/

namespace TagPrompt

namespace TomlNumber

theorem ungroup?_ofNat (n : Nat) : ungroup? Text.isDigit (Text.ofNat n) = some (Text.ofNat n) := by
  have hdigits : (Text.ofNat n).all Text.isDigit = true :=
    List.all_eq_true.mpr fun c hc => Text.isDigit_of_mem_ofNat hc
  have hfull : (Text.ofNat n).isEmpty = false :=
    List.isEmpty_eq_false_iff.mpr (Text.ofNat_ne_nil n)
  rw [ungroup?, Text.split_of_not_mem (Text.not_mem_ofNat (by decide) n)]
  simp [hdigits, hfull]

theorem whole?_ofNat (n : Nat) : whole? (Text.ofNat n) = some (Text.ofNat n) := by
  rw [whole?, ungroup?_ofNat]
  split
  case h_1 c rest hzero =>
    cases Text.eq_nil_of_ofNat_eq_zero_cons (Option.some.inj hzero)
  case h_2 => rfl

theorem based?_ofNat (n : Nat) : based? (Text.ofNat n) = none := by
  unfold based?
  split
  case h_1 hzero => cases Text.eq_nil_of_ofNat_eq_zero_cons hzero
  case h_2 hzero => cases Text.eq_nil_of_ofNat_eq_zero_cons hzero
  case h_3 hzero => cases Text.eq_nil_of_ofNat_eq_zero_cons hzero
  case h_4 => rfl

theorem unsign_ofNat (n : Nat) : unsign (Text.ofNat n) = (false, Text.ofNat n) := by
  have hminus : '-' ∉ Text.ofNat n := Text.not_mem_ofNat (by decide) n
  have hplus : '+' ∉ Text.ofNat n := Text.not_mem_ofNat (by decide) n
  unfold unsign
  split
  case h_1 hsign => exact absurd (hsign ▸ List.mem_cons_self) hminus
  case h_2 hsign => exact absurd (hsign ▸ List.mem_cons_self) hplus
  case h_3 => rfl

theorem integer?_ofNat (n : Nat) : integer? (Text.ofNat n) = some (n : Int) := by
  rw [integer?, based?_ofNat, signed?, unsign_ofNat]
  simp [whole?_ofNat, Text.decimal_ofNat]

end TomlNumber

namespace TomlReader

variable {value : TomlValue} {written atom : Text} {c : Char}

/-- A value as it may stand behind the sign of its key, with the end of the line behind it. -/
structure Writes (value : TomlValue) (written : Text) : Prop where
  read : ∀ rest, readValue nestingLimit (written ++ '\n' :: rest) = some (value, '\n' :: rest)
  begins : ∃ c more, isLineBlank c = false ∧ written = c :: more
  noReturn : '\r' ∉ written

theorem readValue_simple (hc : c ≠ '[' ∧ c ≠ '\x7b') (depth : Nat) (rest : Text) :
    readValue depth (c :: rest) = readSimple (c :: rest) := by
  cases depth with
  | zero => rfl
  | succ depth =>
      unfold readValue
      split
      case h_1 hbracket => exact absurd (List.cons.inj hbracket).1 hc.1
      case h_2 hbrace => exact absurd (List.cons.inj hbrace).1 hc.2
      case h_3 => rfl

theorem writes_string (t : Text) : Writes (.string t) (TomlString.write t) := by
  obtain ⟨quote, behind, hquote, hwritten⟩ := TomlString.exists_cons_write t
  constructor
  · intro rest
    have hread := TomlString.read_write t rest
    have hsimple : quote ≠ '[' ∧ quote ≠ '\x7b' := by
      rcases hquote with rfl | rfl <;> decide
    have hquoted : (quote = '"' || quote = '\'') = true := by
      simpa using hquote
    rw [hwritten, List.cons_append] at hread ⊢
    rw [readValue_simple hsimple, readSimple, if_pos hquoted, hread]
    rfl
  · exact ⟨quote, behind, by rcases hquote with rfl | rfl <;> rfl, hwritten⟩
  · exact TomlString.not_mem_write t

/-! ### Atoms -/

theorem readAtom_line (h : ∀ c ∈ atom, isAtomChar c = true) (rest : Text) :
    readAtom (atom ++ '\n' :: rest) = (atom, '\n' :: rest) := by
  have hspan : (atom ++ '\n' :: rest).span isAtomChar = (atom, '\n' :: rest) :=
    Text.span_append h (by decide) rest
  simp only [readAtom, hspan]
  rfl

theorem writes_atom (hall : atom.all isAtomChar = true) (hne : atom ≠ [])
    (hvalue : atom? atom = some value) : Writes value atom := by
  have hchars := List.all_eq_true.mp hall
  obtain ⟨c, more, rfl⟩ := List.exists_cons_of_ne_nil hne
  have hc : isAtomChar c = true := hchars c List.mem_cons_self
  have hne : ∀ d, isAtomChar d = false → c ≠ d := by
    rintro d hd rfl
    rw [hd] at hc
    cases hc
  constructor
  · intro rest
    have hread := readAtom_line hchars rest
    rw [List.cons_append] at hread ⊢
    rw [readValue_simple ⟨hne '[' (by decide), hne '\x7b' (by decide)⟩, readSimple, if_neg, hread]
    · simp [hvalue]
    · simp [hne '"' (by decide), hne '\'' (by decide)]
  · refine ⟨c, more, ?_, rfl⟩
    simp [isLineBlank, hne ' ' (by decide), hne '\t' (by decide)]
  · intro hreturn
    have hatom := hchars _ hreturn
    cases hatom

theorem isAtomChar_of_isDigit (h : Text.isDigit c = true) : isAtomChar c = true := by
  simp [isAtomChar, isKeyChar, h]

theorem writes_ofNat (n : Nat) : Writes (.integer n) (Text.ofNat n) := by
  have hword : ∀ {d} {word : Text}, d ∈ word → Text.isDigit d = false → Text.ofNat n ≠ word := by
    rintro d word hmem hd rfl
    exact Text.not_mem_ofNat hd n hmem
  have htrue : Text.ofNat n ≠ "true".toList := hword (by decide : 't' ∈ "true".toList) rfl
  have hfalse : Text.ofNat n ≠ "false".toList := hword (by decide : 'f' ∈ "false".toList) rfl
  apply writes_atom
  · rw [List.all_eq_true]
    exact fun c hc => isAtomChar_of_isDigit (Text.isDigit_of_mem_ofNat hc)
  · exact Text.ofNat_ne_nil n
  · rw [atom?, if_neg htrue, if_neg hfalse, TomlNumber.integer?_ofNat]

theorem writes_flag (flag : Bool) :
    Writes (.boolean flag) (if flag then "true" else "false").toList := by
  cases flag with
  | false => exact writes_atom rfl nofun rfl
  | true => exact writes_atom rfl nofun rfl

end TomlReader
end TagPrompt
