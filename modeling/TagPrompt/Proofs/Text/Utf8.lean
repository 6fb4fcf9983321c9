import Mathlib.Tactic.IntervalCases
import TagPrompt.Text.Utf8

/-! UTF-8 there and back. The bytes of a character are read as that character whatever follows them,
so every text is what its bytes decode to. A byte below 0x80 is a character of its own, so line ends
are seen in the bytes. Bytes that are read as a text are those of the text, as no character has a
second form. -/

namespace TagPrompt.Utf8

/-! ### Lead bytes -/

/-- The second byte of three, by the bits that the lead byte contributes. -/
def secondOfThree (n : Nat) : ByteBand :=
  if n = 0 then ⟨0xA0, 0xBF⟩ else if n = 0xD then ⟨0x80, 0x9F⟩ else continuation

/-- The second byte of four, by the bits that the lead byte contributes. -/
def secondOfFour (n : Nat) : ByteBand :=
  if n = 0 then ⟨0x90, 0xBF⟩ else if n = 4 then ⟨0x80, 0x8F⟩ else continuation

theorem toNat_toUInt8 {n : Nat} (h : n < 256) : n.toUInt8.toNat = n :=
  UInt8.toNat_ofNat_of_lt' h

theorem lead?_one {n : Nat} (h : n < 0x80) : lead? n.toUInt8 = some ([], n) := by
  interval_cases n <;> rfl

theorem lead?_two {n : Nat} (hlow : 2 ≤ n) (hhigh : n < 32) :
    lead? (0xC0 + n).toUInt8 = some ([continuation], n) := by
  interval_cases n <;> rfl

theorem lead?_three {n : Nat} (h : n < 16) :
    lead? (0xE0 + n).toUInt8 = some ([secondOfThree n, continuation], n) := by
  interval_cases n <;> rfl

theorem lead?_four {n : Nat} (h : n < 5) :
    lead? (0xF0 + n).toUInt8 = some ([secondOfFour n, continuation, continuation], n) := by
  interval_cases n <;> rfl

/-! ### One byte at a time -/

variable {band next : ByteBand} {bands : List ByteBand} {b : UInt8} {v value start position : Nat}

theorem holds_iff :
    band.holds b = true ↔ band.low.toNat ≤ b.toNat ∧ b.toNat ≤ band.high.toNat := by
  simp only [ByteBand.holds, Bool.and_eq_true, decide_eq_true_eq, UInt8.le_iff_toNat_le]

theorem toNat_trailing (n : Nat) : (trailing n).toNat = 0x80 + n % 64 := by
  have hbits : n % 64 < 64 := Nat.mod_lt n (by decide)
  exact toNat_toUInt8 (by omega)

theorem continuation_holds (n : Nat) : continuation.holds (trailing n) = true := by
  have hbits : n % 64 < 64 := Nat.mod_lt n (by decide)
  rw [holds_iff, toNat_trailing]
  exact ⟨Nat.le_add_right 0x80 _, show 0x80 + n % 64 ≤ 0xBF by omega⟩

theorem decodeFrom_one {c : Char} (h : c.toNat < 0x80) (rest : Bytes) :
    decodeFrom [] value start position (c.toNat.toUInt8 :: rest) =
      (decodeFrom [] 0 (position + 1) (position + 1) rest).map (c :: ·) := by
  rw [decodeFrom, lead?_one h]
  simp only [Char.ofNat_toNat]

theorem decodeFrom_lead (h : lead? b = some (band :: bands, v)) (rest : Bytes) :
    decodeFrom [] value start position (b :: rest) =
      decodeFrom (band :: bands) v position (position + 1) rest := by
  rw [decodeFrom, h]

theorem decodeFrom_trailing {n : Nat} (h : band.holds (trailing n) = true) (rest : Bytes) :
    decodeFrom (band :: next :: bands) value start position (trailing n :: rest) =
      decodeFrom (next :: bands) (value * 64 + n % 64) start (position + 1) rest := by
  rw [decodeFrom, if_pos h, toNat_trailing, Nat.add_sub_cancel_left]

theorem decodeFrom_last (n : Nat) (rest : Bytes) :
    decodeFrom [continuation] value start position (trailing n :: rest) =
      (decodeFrom [] 0 (position + 1) (position + 1) rest).map
        (Char.ofNat (value * 64 + n % 64) :: ·) := by
  rw [decodeFrom, if_pos (continuation_holds n), toNat_trailing, Nat.add_sub_cancel_left]

/-! ### Characters -/

theorem toNat_lt_or (c : Char) : c.toNat < 0xD800 ∨ 0xDFFF < c.toNat ∧ c.toNat < 0x110000 := c.valid

theorem encodeChar_one {c : Char} (h : c.toNat < 0x80) : encodeChar c = [c.toNat.toUInt8] := by
  rw [encodeChar, if_pos h]

theorem encodeChar_two {c : Char} (hlow : 0x80 ≤ c.toNat) (hhigh : c.toNat < 0x800) :
    encodeChar c = [(0xC0 + c.toNat / 0x40).toUInt8, trailing c.toNat] := by
  rw [encodeChar, if_neg (by omega), if_pos hhigh]

theorem encodeChar_three {c : Char} (hlow : 0x800 ≤ c.toNat) (hhigh : c.toNat < 0x10000) :
    encodeChar c =
      [(0xE0 + c.toNat / 0x1000).toUInt8, trailing (c.toNat / 0x40), trailing c.toNat] := by
  rw [encodeChar, if_neg (by omega), if_neg (by omega), if_pos hhigh]

theorem encodeChar_four {c : Char} (hlow : 0x10000 ≤ c.toNat) :
    encodeChar c =
      [(0xF0 + c.toNat / 0x40000).toUInt8, trailing (c.toNat / 0x1000), trailing (c.toNat / 0x40),
        trailing c.toNat] := by
  rw [encodeChar, if_neg (by omega), if_neg (by omega), if_neg (by omega)]

/-- The second byte excludes the characters that two bytes hold, and the surrogates. -/
theorem secondOfThree_holds {c : Char} (hlow : 0x800 ≤ c.toNat) (hhigh : c.toNat < 0x10000) :
    (secondOfThree (c.toNat / 0x1000)).holds (trailing (c.toNat / 0x40)) = true := by
  have hvalid := toNat_lt_or c
  rw [secondOfThree]
  split_ifs with hleast hsurrogates
  · rw [holds_iff, toNat_trailing]
    exact ⟨show 0xA0 ≤ _ by omega, show _ ≤ 0xBF by omega⟩
  · rw [holds_iff, toNat_trailing]
    exact ⟨show 0x80 ≤ _ by omega, show _ ≤ 0x9F by omega⟩
  · exact continuation_holds _

/-- The second byte excludes the characters that three bytes hold, and values past the last one. -/
theorem secondOfFour_holds {c : Char} (hlow : 0x10000 ≤ c.toNat) :
    (secondOfFour (c.toNat / 0x40000)).holds (trailing (c.toNat / 0x1000)) = true := by
  have hvalid := toNat_lt_or c
  rw [secondOfFour]
  split_ifs with hleast hgreatest
  · rw [holds_iff, toNat_trailing]
    exact ⟨show 0x90 ≤ _ by omega, show _ ≤ 0xBF by omega⟩
  · rw [holds_iff, toNat_trailing]
    exact ⟨show 0x80 ≤ _ by omega, show _ ≤ 0x8F by omega⟩
  · exact continuation_holds _

/-- The bytes of a character are read as that character, whatever follows them. -/
theorem decodeFrom_encodeChar (c : Char) (rest : Bytes) :
    ∃ after, decodeFrom [] value start position (encodeChar c ++ rest) =
      (decodeFrom [] 0 after after rest).map (c :: ·) := by
  have hvalid := toNat_lt_or c
  by_cases hone : c.toNat < 0x80
  · rw [encodeChar_one hone]
    exact ⟨_, decodeFrom_one hone rest⟩
  by_cases htwo : c.toNat < 0x800
  · rw [encodeChar_two (by omega) htwo]
    have hc : c.toNat / 0x40 * 64 + c.toNat % 64 = c.toNat := by omega
    have hlead := lead?_two (n := c.toNat / 0x40) (by omega) (by omega)
    refine ⟨position + 1 + 1, ?_⟩
    simp only [List.cons_append, List.nil_append]
    rw [decodeFrom_lead hlead, decodeFrom_last, hc, Char.ofNat_toNat]
  by_cases hthree : c.toNat < 0x10000
  · rw [encodeChar_three (by omega) hthree]
    have hc : (c.toNat / 0x1000 * 64 + c.toNat / 0x40 % 64) * 64 + c.toNat % 64 = c.toNat := by
      omega
    have hlead := lead?_three (n := c.toNat / 0x1000) (by omega)
    refine ⟨position + 1 + 1 + 1, ?_⟩
    simp only [List.cons_append, List.nil_append]
    rw [decodeFrom_lead hlead, decodeFrom_trailing (secondOfThree_holds (by omega) hthree),
      decodeFrom_last, hc, Char.ofNat_toNat]
  · rw [encodeChar_four (by omega)]
    have hc : ((c.toNat / 0x40000 * 64 + c.toNat / 0x1000 % 64) * 64 + c.toNat / 0x40 % 64) * 64 +
        c.toNat % 64 = c.toNat := by
      omega
    have hlead := lead?_four (n := c.toNat / 0x40000) (by omega)
    refine ⟨position + 1 + 1 + 1 + 1, ?_⟩
    simp only [List.cons_append, List.nil_append]
    rw [decodeFrom_lead hlead, decodeFrom_trailing (secondOfFour_holds (by omega)),
      decodeFrom_trailing (continuation_holds _), decodeFrom_last, hc, Char.ofNat_toNat]

/-! ### Texts -/

theorem encode_cons (c : Char) (t : Text) : encode (c :: t) = encodeChar c ++ encode t :=
  List.flatMap_cons

theorem encode_append (s t : Text) : encode (s ++ t) = encode s ++ encode t := List.flatMap_append

theorem decodeFrom_encode (t : Text) : decodeFrom [] value start position (encode t) = .ok t := by
  induction t generalizing value start position with
  | nil => rfl
  | cons c t ih =>
      obtain ⟨after, hafter⟩ := decodeFrom_encodeChar c (encode t)
      rw [encode_cons, hafter, ih]
      rfl

theorem decode_encode (t : Text) : decode (encode t) = .ok t := decodeFrom_encode t

/-! ### Bytes below 0x80 -/

/-- A character that takes several bytes has none below 0x80 among them. -/
theorem high_of_mem_encodeChar {c : Char} (h : 0x80 ≤ c.toNat) (hb : b ∈ encodeChar c) :
    0x80 ≤ b.toNat := by
  have hvalid := toNat_lt_or c
  have htrailing : ∀ n, 0x80 ≤ (trailing n).toNat := by
    intro n
    rw [toNat_trailing]
    exact Nat.le_add_right 0x80 _
  have hlead : ∀ n, 0x80 ≤ n → n < 256 → 0x80 ≤ n.toUInt8.toNat := by
    intro n hlow hhigh
    rwa [toNat_toUInt8 hhigh]
  by_cases htwo : c.toNat < 0x800
  · rw [encodeChar_two h htwo, List.mem_cons, List.mem_singleton] at hb
    rcases hb with rfl | rfl
    · exact hlead _ (by omega) (by omega)
    · exact htrailing _
  by_cases hthree : c.toNat < 0x10000
  · rw [encodeChar_three (by omega) hthree, List.mem_cons, List.mem_cons, List.mem_singleton] at hb
    rcases hb with rfl | rfl | rfl
    · exact hlead _ (by omega) (by omega)
    · exact htrailing _
    · exact htrailing _
  · rw [encodeChar_four (by omega), List.mem_cons, List.mem_cons, List.mem_cons,
      List.mem_singleton] at hb
    rcases hb with rfl | rfl | rfl | rfl
    · exact hlead _ (by omega) (by omega)
    · exact htrailing _
    · exact htrailing _
    · exact htrailing _

/-- A byte below 0x80 is the whole of its character. -/
theorem eq_ofNat_of_mem_encodeChar {c : Char} (hb : b ∈ encodeChar c) (hlow : b.toNat < 0x80) :
    c = Char.ofNat b.toNat := by
  by_cases hc : c.toNat < 0x80
  · rw [encodeChar_one hc, List.mem_singleton] at hb
    rw [hb, toNat_toUInt8 (by omega), Char.ofNat_toNat]
  · exact absurd (high_of_mem_encodeChar (Nat.not_lt.mp hc) hb) (Nat.not_le.mpr hlow)

theorem mem_of_mem_encode {t : Text} (hb : b ∈ encode t) (hlow : b.toNat < 0x80) :
    Char.ofNat b.toNat ∈ t := by
  obtain ⟨c, hc, hbyte⟩ := List.mem_flatMap.mp hb
  rwa [← eq_ofNat_of_mem_encodeChar hbyte hlow]

theorem encodeChar_ne_nil (c : Char) : encodeChar c ≠ [] := by
  unfold encodeChar
  dsimp only
  split_ifs <;> exact List.cons_ne_nil _ _

theorem length_le_length_encode (t : Text) : t.length ≤ (encode t).length := by
  induction t with
  | nil => exact Nat.le_refl 0
  | cons c t ih =>
      have hchar := List.length_pos_iff.mpr (encodeChar_ne_nil c)
      rw [encode_cons, List.length_cons, List.length_append]
      omega

/-- The last byte of a text is below 0x80 only where it is the last character. -/
theorem eq_ofNat_of_getLast?_encode {t : Text} {c : Char}
    (hlast : (encode (t ++ [c])).getLast? = some b) (hlow : b.toNat < 0x80) :
    c = Char.ofNat b.toNat := by
  have hencode : encode (t ++ [c]) = encode t ++ encodeChar c := by
    rw [encode_append, encode_cons, show encode [] = [] from rfl, List.append_nil]
  refine eq_ofNat_of_mem_encodeChar ?_ hlow
  obtain ⟨front, last, hchar⟩ := (List.eq_nil_or_concat (encodeChar c)).resolve_left
    (encodeChar_ne_nil c)
  rw [hencode, hchar, List.concat_eq_append, ← List.append_assoc, List.getLast?_concat,
    Option.some.injEq] at hlast
  rw [hchar, ← hlast, List.concat_eq_append]
  exact List.mem_append_right front (List.mem_singleton_self last)

/-! ### Bytes that are read -/

variable {bytes rest : Bytes} {t : Text}

/-- The lead bytes, with what they ask for. -/
theorem lead?_cases (h : lead? b = some (bands, v)) :
    (bands = [] ∧ b.toNat = v ∧ v < 0x80) ∨
      (bands = [continuation] ∧ b.toNat = 0xC0 + v ∧ 2 ≤ v ∧ v < 32) ∨
      (bands = [secondOfThree v, continuation] ∧ b.toNat = 0xE0 + v ∧ v < 16) ∨
      (bands = [secondOfFour v, continuation, continuation] ∧ b.toNat = 0xF0 + v ∧ v < 5) := by
  have hb := b.toNat_lt
  rw [lead?] at h
  simp only [UInt8.lt_iff_toNat_lt, ← UInt8.toNat_inj, UInt8.reduceToNat] at h
  split_ifs at h <;> cases h
  · exact Or.inl ⟨rfl, rfl, by assumption⟩
  · exact Or.inr (Or.inl ⟨rfl, by omega⟩)
  · exact Or.inr (Or.inr (Or.inl ⟨rfl, by assumption, by decide⟩))
  · exact Or.inr (Or.inr (Or.inl ⟨rfl, by assumption, by decide⟩))
  · have hsecond : secondOfThree (b.toNat - 0xE0) = continuation := by
      rw [secondOfThree, if_neg (by omega), if_neg (by omega)]
    exact Or.inr (Or.inr (Or.inl ⟨by rw [hsecond], by omega, by omega⟩))
  · exact Or.inr (Or.inr (Or.inr ⟨rfl, by assumption, by decide⟩))
  · have hsecond : secondOfFour (b.toNat - 0xF0) = continuation := by
      rw [secondOfFour, if_neg (by omega), if_neg (by omega)]
    exact Or.inr (Or.inr (Or.inr ⟨by rw [hsecond], by omega, by omega⟩))
  · exact Or.inr (Or.inr (Or.inr ⟨rfl, by assumption, by decide⟩))

theorem exists_of_map_eq_ok {c : Char} {read : Except Fault Text}
    (h : read.map (c :: ·) = .ok t) : ∃ text, read = .ok text ∧ t = c :: text := by
  cases read with
  | error fault => cases h
  | ok text =>
      cases h
      exact ⟨text, rfl, rfl⟩

theorem exists_of_decodeFrom_bands
    (h : decodeFrom (band :: next :: bands) value start position bytes = .ok t) :
    ∃ b rest, bytes = b :: rest ∧ band.holds b = true ∧
      decodeFrom (next :: bands) (value * 64 + (b.toNat - 0x80)) start (position + 1) rest =
        .ok t := by
  cases bytes with
  | nil => cases h
  | cons b rest =>
      rw [decodeFrom] at h
      split_ifs at h with hband
      exact ⟨b, rest, rfl, hband, h⟩

theorem exists_of_decodeFrom_band
    (h : decodeFrom [band] value start position bytes = .ok t) :
    ∃ b rest text, bytes = b :: rest ∧ band.holds b = true ∧
      t = Char.ofNat (value * 64 + (b.toNat - 0x80)) :: text ∧
        decodeFrom [] 0 (position + 1) (position + 1) rest = .ok text := by
  cases bytes with
  | nil => cases h
  | cons b rest =>
      rw [decodeFrom] at h
      split_ifs at h with hband
      obtain ⟨text, hrest, rfl⟩ := exists_of_map_eq_ok h
      exact ⟨b, rest, text, rfl, hband, rfl, hrest⟩

theorem toNat_ofNat {n : Nat} (h : n < 0xD800 ∨ 0xDFFF < n ∧ n < 0x110000) :
    (Char.ofNat n).toNat = n := by
  rw [Char.ofNat, dif_pos h]
  rfl

/-- A byte that continues a sequence gives the six lowest bits of a number. -/
theorem trailing_eq {n : Nat} (h : 0x80 + n % 0x40 = b.toNat) : trailing n = b := by
  rw [trailing, h]
  exact UInt8.ofNat_toNat

theorem of_secondOfThree_holds (h : (secondOfThree v).holds b = true) :
    0x80 ≤ b.toNat ∧ b.toNat ≤ 0xBF ∧ (v = 0 → 0xA0 ≤ b.toNat) ∧ (v = 0xD → b.toNat ≤ 0x9F) := by
  rw [secondOfThree, holds_iff] at h
  split_ifs at h <;> simp only [continuation, UInt8.reduceToNat] at h <;> omega

theorem of_secondOfFour_holds (h : (secondOfFour v).holds b = true) :
    0x80 ≤ b.toNat ∧ b.toNat ≤ 0xBF ∧ (v = 0 → 0x90 ≤ b.toNat) ∧ (v = 4 → b.toNat ≤ 0x8F) := by
  rw [secondOfFour, holds_iff] at h
  split_ifs at h <;> simp only [continuation, UInt8.reduceToNat] at h <;> omega

theorem of_continuation_holds (h : continuation.holds b = true) :
    0x80 ≤ b.toNat ∧ b.toNat ≤ 0xBF :=
  holds_iff.mp h

/-- What is read as a text begins with the bytes of its first character. -/
theorem exists_of_decodeFrom_cons (h : decodeFrom [] value start position (b :: rest) = .ok t) :
    ∃ c text behind after, t = c :: text ∧ b :: rest = encodeChar c ++ behind ∧
      decodeFrom [] 0 after after behind = .ok text := by
  have hbyte : ∀ {n : Nat}, b.toNat = n → n.toUInt8 = b := by
    rintro n rfl
    exact UInt8.ofNat_toNat
  rw [decodeFrom] at h
  cases hlead : lead? b with
  | none =>
      rw [hlead] at h
      cases h
  | some lead =>
      obtain ⟨bands, v⟩ := lead
      rw [hlead] at h
      -- no form is overlong: each character has a number that shorter forms do not reach
      rcases lead?_cases hlead with
        ⟨rfl, hb, hv⟩ | ⟨rfl, hb, hlow, hhigh⟩ | ⟨rfl, hb, hv⟩ | ⟨rfl, hb, hv⟩
      · have hc : (Char.ofNat v).toNat = v := toNat_ofNat (by omega)
        obtain ⟨text, hrest, rfl⟩ := exists_of_map_eq_ok h
        refine ⟨_, text, rest, _, rfl, ?_, hrest⟩
        rw [encodeChar_one (by omega), hc, hbyte hb]
        rfl
      · obtain ⟨b₂, behind, text, rfl, hband, rfl, hrest⟩ := exists_of_decodeFrom_band h
        obtain ⟨hleast, hgreatest⟩ := of_continuation_holds hband
        have hc : (Char.ofNat (v * 64 + (b₂.toNat - 0x80))).toNat = v * 64 + (b₂.toNat - 0x80) :=
          toNat_ofNat (by omega)
        refine ⟨_, text, behind, _, rfl, ?_, hrest⟩
        rw [encodeChar_two (by omega) (by omega), hbyte (by omega), trailing_eq (b := b₂) (by omega)]
        rfl
      · obtain ⟨b₂, rest, rfl, hband, h⟩ := exists_of_decodeFrom_bands h
        obtain ⟨b₃, behind, text, rfl, hlast, rfl, hrest⟩ := exists_of_decodeFrom_band h
        obtain ⟨hleast, hgreatest, hoverlong, hsurrogate⟩ := of_secondOfThree_holds hband
        obtain ⟨hleast₃, hgreatest₃⟩ := of_continuation_holds hlast
        have hc : (Char.ofNat ((v * 64 + (b₂.toNat - 0x80)) * 64 + (b₃.toNat - 0x80))).toNat =
            (v * 64 + (b₂.toNat - 0x80)) * 64 + (b₃.toNat - 0x80) :=
          toNat_ofNat (by omega)
        refine ⟨_, text, behind, _, rfl, ?_, hrest⟩
        rw [encodeChar_three (by omega) (by omega), hbyte (by omega),
          trailing_eq (b := b₂) (by omega), trailing_eq (b := b₃) (by omega)]
        rfl
      · obtain ⟨b₂, rest, rfl, hband, h⟩ := exists_of_decodeFrom_bands h
        obtain ⟨b₃, rest, rfl, hnext, h⟩ := exists_of_decodeFrom_bands h
        obtain ⟨b₄, behind, text, rfl, hlast, rfl, hrest⟩ := exists_of_decodeFrom_band h
        obtain ⟨hleast, hgreatest, hoverlong, hbeyond⟩ := of_secondOfFour_holds hband
        obtain ⟨hleast₃, hgreatest₃⟩ := of_continuation_holds hnext
        obtain ⟨hleast₄, hgreatest₄⟩ := of_continuation_holds hlast
        have hc : (Char.ofNat (((v * 64 + (b₂.toNat - 0x80)) * 64 + (b₃.toNat - 0x80)) * 64 +
            (b₄.toNat - 0x80))).toNat =
            ((v * 64 + (b₂.toNat - 0x80)) * 64 + (b₃.toNat - 0x80)) * 64 + (b₄.toNat - 0x80) :=
          toNat_ofNat (by omega)
        refine ⟨_, text, behind, _, rfl, ?_, hrest⟩
        rw [encodeChar_four (by omega), hbyte (by omega), trailing_eq (b := b₂) (by omega),
          trailing_eq (b := b₃) (by omega), trailing_eq (b := b₄) (by omega)]
        rfl

theorem encode_of_decodeFrom (h : decodeFrom [] value start position bytes = .ok t) :
    encode t = bytes := by
  induction hlength : bytes.length using Nat.strong_induction_on
    generalizing bytes t value start position with
  | _ length ih =>
      subst hlength
      cases bytes with
      | nil =>
          cases h
          rfl
      | cons b rest =>
          obtain ⟨c, text, behind, after, rfl, hbytes, htext⟩ := exists_of_decodeFrom_cons h
          have hchar := List.length_pos_iff.mpr (encodeChar_ne_nil c)
          have hshort : behind.length < (b :: rest).length := by
            rw [hbytes, List.length_append]
            omega
          rw [encode_cons, ih _ hshort htext rfl, hbytes]

/-- A text has no other bytes than its own: what can be read is what would be written. -/
theorem encode_of_decode (h : decode bytes = .ok t) : encode t = bytes := encode_of_decodeFrom h

end TagPrompt.Utf8
