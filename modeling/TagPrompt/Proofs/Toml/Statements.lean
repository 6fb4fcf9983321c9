import TagPrompt.Proofs.Toml.Values

/-! Statements there and back. A pair and a header are each written on a line of their own; a text
of such lines, with line ends between them as it likes, is read as its statements in order. -/

namespace TagPrompt.TomlReader

variable {key t rest line written : Text} {value : TomlValue} {c d : Char} {statement : Statement}
  {statements : List Statement}

/-! ### Keys -/

/-- A key that may stand without quotes. -/
structure IsBare (key : Text) : Prop where
  nonEmpty : key ≠ []
  all : key.all isKeyChar = true

theorem IsBare.chars (h : IsBare key) : ∀ c ∈ key, isKeyChar c = true := List.all_eq_true.mp h.all

instance (key : Text) : Decidable (IsBare key) :=
  decidable_of_iff (key ≠ [] ∧ key.all isKeyChar = true)
    ⟨fun h => ⟨h.1, h.2⟩, fun h => ⟨h.nonEmpty, h.all⟩⟩

theorem ne_of_isKeyChar (h : isKeyChar c = true) (hd : isKeyChar d = false) : c ≠ d := by
  rintro rfl
  rw [h] at hd
  cases hd

theorem skipBlank_cons (h : isLineBlank c = false) (rest : Text) :
    skipBlank (c :: rest) = c :: rest :=
  List.dropWhile_cons_of_neg (Bool.eq_false_iff.mp h)

theorem skipBlank_bare (h : IsBare key) (rest : Text) : skipBlank (key ++ rest) = key ++ rest := by
  obtain ⟨c, more, rfl⟩ := List.exists_cons_of_ne_nil h.nonEmpty
  have hc := h.chars c List.mem_cons_self
  apply skipBlank_cons
  simp [isLineBlank, ne_of_isKeyChar hc (by decide : isKeyChar ' ' = false),
    ne_of_isKeyChar hc (by decide : isKeyChar '\t' = false)]

theorem readSimpleKey_bare (h : IsBare key) (hc : isKeyChar c = false) (rest : Text) :
    readSimpleKey (key ++ c :: rest) = some (key, c :: rest) := by
  rw [readSimpleKey, Text.span_append h.chars hc]
  split
  case h_1 hempty => exact absurd (Prod.mk.inj hempty).1 h.nonEmpty
  case h_2 hspan => exact congrArg some hspan.symm

/-- A key without dots is read up to what follows the blanks behind it. -/
theorem readKey_bare (h : IsBare key) (hc : isKeyChar c = false) {behind : Text}
    (hbehind : skipBlank (c :: rest) = d :: behind) (hd : d ≠ '.') :
    readKey (key ++ c :: rest) = some (([], key), d :: behind) := by
  rw [readKey, keyPartLimit, readKeyOf, skipBlank_bare h, readSimpleKey_bare h hc]
  simp only [Option.bind_eq_bind, Option.bind_some, hbehind]
  split
  case h_1 hdot => exact absurd (List.cons.inj hdot).1 hd
  case h_2 => rfl

/-! ### Lines -/

theorem readPair_line (hkey : IsBare key) (h : Writes value written) (rest : Text) :
    readPair skipBlank (readValue nestingLimit)
      (key ++ (" = ".toList ++ (written ++ '\n' :: rest))) =
        some (⟨[], key, value⟩, '\n' :: rest) := by
  obtain ⟨c, more, hc, hwritten⟩ := h.begins
  have hread := h.read rest
  have hsign : skipBlank (' ' :: ('=' :: ' ' :: (written ++ '\n' :: rest))) =
      '=' :: ' ' :: (written ++ '\n' :: rest) := rfl
  have hvalue : skipBlank (' ' :: (written ++ '\n' :: rest)) = written ++ '\n' :: rest := by
    show skipBlank (written ++ '\n' :: rest) = _
    rw [hwritten]
    exact skipBlank_cons hc _
  have hkeyRead := readKey_bare hkey (by decide : isKeyChar ' ' = false) hsign (by decide)
  show readPair skipBlank (readValue nestingLimit)
    (key ++ ' ' :: '=' :: ' ' :: (written ++ '\n' :: rest)) = _
  rw [readPair, hkeyRead]
  simp only [Option.bind_eq_bind, Option.bind_some]
  rw [skipBlank_cons (by decide)]
  simp only [hvalue, hread, Option.bind_some]
  rfl

theorem readStatement_pair (hkey : IsBare key) (h : Writes value written) (rest : Text) :
    readStatement (key ++ (" = ".toList ++ (written ++ '\n' :: rest))) =
      some (.pair ⟨[], key, value⟩, rest) := by
  have hpair := readPair_line hkey h rest
  obtain ⟨c, more, rfl⟩ := List.exists_cons_of_ne_nil hkey.nonEmpty
  have hc : c ≠ '[' := ne_of_isKeyChar (hkey.chars c List.mem_cons_self) (by decide)
  unfold readStatement
  split
  case h_1 hbracket => exact absurd (List.cons.inj hbracket).1 hc
  case h_2 hbracket => exact absurd (List.cons.inj hbracket).1 hc
  case h_3 =>
    rw [hpair]
    rfl

theorem readStatement_header (hname : IsBare key) (rest : Text) :
    readStatement ('[' :: (key ++ ']' :: '\n' :: rest)) = some (.header false [] key, rest) := by
  have hclosing : skipBlank (']' :: '\n' :: rest) = ']' :: '\n' :: rest := rfl
  have hheader : readHeader false (key ++ ']' :: '\n' :: rest) =
      some (.header false [] key, '\n' :: rest) := by
    rw [readHeader, readKey_bare hname (by decide) hclosing (by decide)]
    rfl
  obtain ⟨c, more, rfl⟩ := List.exists_cons_of_ne_nil hname.nonEmpty
  have hc : c ≠ '[' := ne_of_isKeyChar (hname.chars c List.mem_cons_self) (by decide)
  unfold readStatement
  split
  case h_1 hbracket => exact absurd (List.cons.inj (List.cons.inj hbracket).2).1 hc
  case h_2 hbracket =>
    rw [← (List.cons.inj hbracket).2, hheader]
    rfl
  case h_3 hother => exact absurd rfl (hother _)

/-! ### Texts of lines -/

/-- A text of lines that are read as these statements; an empty line is none. -/
inductive Reads : (t : Text) → (statements : List Statement) → Prop
  | nil : Reads [] []
  | emptyLine {t : Text} {statements : List Statement} (h : Reads t statements) :
      Reads ('\n' :: t) statements
  | line {c : Char} {line t : Text} {statement : Statement} {statements : List Statement}
      (hbegins : isKeyChar c = true ∨ c = '[') (hreturn : '\r' ∉ c :: line)
      (hread : ∀ rest, readStatement (c :: line ++ rest) = some (statement, rest))
      (h : Reads t statements) : Reads (c :: line ++ t) (statement :: statements)

theorem ne_of_begins (h : isKeyChar c = true ∨ c = '[') (hd : isKeyChar d = false)
    (hbracket : d ≠ '[') : c ≠ d := by
  rcases h with h | rfl
  · exact ne_of_isKeyChar h hd
  · exact hbracket.symm

theorem skipFill_begins (h : isKeyChar c = true ∨ c = '[') (rest : Text) :
    skipFill (c :: rest) = c :: rest := by
  have hne : ∀ d, isKeyChar d = false → d ≠ '[' → c ≠ d := fun d => ne_of_begins h
  simp [skipFill, skipFillFrom, isLineBlank, hne '\n' (by decide) (by decide),
    hne '\r' (by decide) (by decide), hne ' ' (by decide) (by decide),
    hne '\t' (by decide) (by decide), hne '#' (by decide) (by decide)]

namespace Reads

theorem length_le (h : Reads t statements) : statements.length ≤ t.length := by
  induction h with
  | nil => exact Nat.le_refl 0
  | emptyLine _ ih => exact Nat.le_succ_of_le ih
  | line _ _ _ _ ih =>
      rw [List.length_cons, List.length_append, List.length_cons]
      omega

theorem noReturn (h : Reads t statements) : '\r' ∉ t := by
  induction h with
  | nil => exact List.not_mem_nil
  | emptyLine _ ih => exact fun hmem => (List.mem_cons.mp hmem).elim nofun ih
  | line _ hreturn _ _ ih => exact fun hmem => (List.mem_append.mp hmem).elim hreturn ih

theorem readStatements (h : Reads t statements) {bound : Nat} (hbound : statements.length < bound) :
    readStatements bound t = some statements := by
  induction h generalizing bound with
  | nil =>
      obtain ⟨bound, rfl⟩ := Nat.exists_eq_succ_of_ne_zero (Nat.ne_of_gt hbound)
      rfl
  | emptyLine _ ih =>
      obtain ⟨bound, rfl⟩ := Nat.exists_eq_succ_of_ne_zero (Nat.ne_of_gt (Nat.zero_lt_of_lt hbound))
      exact ih hbound
  | line hbegins _ hread _ ih =>
      obtain ⟨bound, rfl⟩ := Nat.exists_eq_succ_of_ne_zero (Nat.ne_of_gt (Nat.zero_lt_of_lt hbound))
      have hrest := ih (Nat.lt_of_succ_lt_succ hbound)
      rw [TomlReader.readStatements, List.cons_append, skipFill_begins hbegins]
      simp only [← List.cons_append, hread, hrest, Option.bind_eq_bind, Option.bind_some]
      rfl

end Reads

theorem returnsArePaired_of_not_mem (h : '\r' ∉ t) : returnsArePaired t = true := by
  induction t with
  | nil => rfl
  | cons c rest ih =>
      obtain ⟨hc, hrest⟩ := List.ne_and_not_mem_of_not_mem_cons h
      unfold returnsArePaired
      split
      case h_1 => rfl
      case h_2 hreturn => exact absurd (List.cons.inj hreturn).1.symm hc
      case h_3 hcons => exact (List.cons.inj hcons).2 ▸ ih hrest

theorem strip_mark_of_reads (h : Reads t statements) : Text.strip [byteOrderMark] t = t := by
  have hstrip : ∀ c rest, c ≠ byteOrderMark →
      Text.strip [byteOrderMark] (c :: rest) = c :: rest := by
    intro c rest hc
    rw [Text.strip, Text.after?, if_neg hc.symm, Option.getD_none]
  cases h with
  | nil => rfl
  | emptyLine h => exact hstrip _ _ (by decide)
  | line hbegins => exact hstrip _ _ (ne_of_begins hbegins (by decide) (by decide))

/-- The document of a text of lines. -/
theorem parseDocument_of_reads (h : Reads t statements) :
    parseDocument t = some (documentOf statements) := by
  have hbound : statements.length < t.length + 1 := Nat.lt_succ_of_le h.length_le
  rw [parseDocument, strip_mark_of_reads h]
  simp only [returnsArePaired_of_not_mem h.noReturn, if_pos, h.readStatements hbound,
    Option.map_some]

end TagPrompt.TomlReader
