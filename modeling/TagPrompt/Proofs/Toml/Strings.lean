import TagPrompt.Proofs.Toml.Quoted

/-! Strings there and back. A text that is written as a string is read back as it was, whatever
stands in it: the form that it is written in can hold it, and its opening quotes tell the form. -/

namespace TagPrompt.TomlString

variable {form : TomlStringForm} {t w : Text} {c d : Char}

/-! ### Forms that hold a text -/

/-- What stands between the quotes for a text itself. -/
def inner (form : TomlStringForm) (t : Text) : Text :=
  if form.escapes then escapeFrom form.multiline 0 t else t

/-- A form can hold a text, and what it writes has no line ends of its own. -/
structure Holds (form : TomlStringForm) (t : Text) : Prop where
  isForm : form ∈ allForms
  spells : Spells form t (inner form t)
  noReturn : '\r' ∉ inner form t
  lineEnds : '\n' ∈ inner form t → form.multiline = true ∧ '\n' ∈ t

/-- Neither of the characters of a line end. -/
def Inert (w : Text) : Prop := ∀ d ∈ w, d ≠ '\r' ∧ d ≠ '\n'

theorem Inert.of_mem {p : Prop} (hw : Inert w) (h : d ∈ w) : d ≠ '\r' ∧ (d = '\n' → p) :=
  ⟨(hw d h).1, fun hd => absurd hd (hw d h).2⟩

theorem inert_upperHexDigits (n : Nat) : Inert (upperHexDigits n) := by
  have hdigit : ∀ n, n < 16 →
      (Nat.digitChar n).toUpper ≠ '\r' ∧ (Nat.digitChar n).toUpper ≠ '\n' := by
    decide
  intro d hd
  simp only [upperHexDigits, List.map_cons, List.map_nil, List.mem_cons, List.not_mem_nil,
    or_false] at hd
  rcases hd with rfl | rfl
  · exact hdigit _ (Nat.mod_lt _ (by decide))
  · exact hdigit _ (Nat.mod_lt _ (by decide))

theorem mem_escapeChar {multiline : Bool} (h : d ∈ escapeChar multiline c) :
    d ≠ '\r' ∧ (d = '\n' → multiline = true ∧ c = '\n') := by
  rw [escapeChar] at h
  split_ifs at h with hb ht hn hmultiline hf hr hs hcontrol
  · exact Inert.of_mem (by simp [Inert]) h
  · exact Inert.of_mem (by simp [Inert]) h
  · rw [List.mem_singleton] at h
    exact ⟨h ▸ by decide, fun _ => ⟨hmultiline, hn⟩⟩
  · exact Inert.of_mem (by simp [Inert]) h
  · exact Inert.of_mem (by simp [Inert]) h
  · exact Inert.of_mem (by simp [Inert]) h
  · exact Inert.of_mem (by simp [Inert]) h
  · rcases List.mem_append.mp h with h | h
    · exact Inert.of_mem (by simp [Inert]) h
    · exact Inert.of_mem (inert_upperHexDigits c.toNat) h
  · rw [List.mem_singleton] at h
    exact ⟨h ▸ hr, fun hd => absurd (h ▸ hd) hn⟩

theorem mem_escapeFrom {multiline : Bool} {run : Nat} (h : d ∈ escapeFrom multiline run t) :
    d ≠ '\r' ∧ (d = '\n' → multiline = true ∧ '\n' ∈ t) := by
  induction t generalizing run with
  | nil => exact absurd h List.not_mem_nil
  | cons c rest ih =>
      have hrest : ∀ {run}, d ∈ escapeFrom multiline run rest →
          d ≠ '\r' ∧ (d = '\n' → multiline = true ∧ '\n' ∈ c :: rest) := fun h =>
        ⟨(ih h).1, fun hd => ((ih h).2 hd).imp_right (List.mem_cons_of_mem c)⟩
      have hmark : ∀ {mark}, mark ≠ '\r' → mark ≠ '\n' → d = mark →
          d ≠ '\r' ∧ (d = '\n' → multiline = true ∧ '\n' ∈ c :: rest) := by
        rintro mark hreturn hend rfl
        exact ⟨hreturn, fun hd => absurd hd hend⟩
      rw [escapeFrom] at h
      split_ifs at h with hc hshort
      · rcases List.mem_cons.mp h with h | h
        · exact hmark (by decide) (by decide) h
        · exact hrest h
      · rcases List.mem_cons.mp h with h | h
        · exact hmark (by decide) (by decide) h
        · rcases List.mem_cons.mp h with h | h
          · exact hmark (by decide) (by decide) h
          · exact hrest h
      · rcases List.mem_append.mp h with h | h
        · obtain ⟨hreturn, hend⟩ := mem_escapeChar h
          exact ⟨hreturn, fun hd => ⟨(hend hd).1, (hend hd).2 ▸ List.mem_cons_self⟩⟩
        · exact hrest h

theorem holds_escaping (hform : form ∈ allForms) (hquote : form.quote = '"')
    (hescapes : form.escapes = true) (t : Text) : Holds form t := by
  have hinner : inner form t = escapeFrom form.multiline 0 t := if_pos hescapes
  constructor
  · exact hform
  · rw [hinner]
    exact spells_escapeFrom hquote hescapes t (Nat.zero_le 2)
  · rw [hinner]
    exact fun h => (mem_escapeFrom h).1 rfl
  · rw [hinner]
    exact fun h => (mem_escapeFrom h).2 rfl

theorem holds_literal (hform : form ∈ allForms) (hescapes : form.escapes = false)
    (hfits : fits form t = true) : Holds form t := by
  have hinner : inner form t = t := if_neg (Bool.eq_false_iff.mp hescapes)
  simp only [fits, Bool.and_eq_true, Bool.not_eq_true', List.any_eq_false, Bool.or_eq_true,
    decide_eq_true_eq] at hfits
  obtain ⟨⟨⟨hcontrol, -⟩, hrun⟩, hends⟩ := hfits
  have hreturn : '\r' ∉ t := fun h => hcontrol '\r' h (by decide)
  have hend : '\n' ∈ t → form.multiline = true := by
    intro h
    refine hends.resolve_right fun hnone => ?_
    rw [List.contains_iff_mem.mpr h] at hnone
    cases hnone
  have hplain : ∀ c ∈ t, isPlain form c = true := by
    intro c hc
    rw [isPlain]
    split_ifs with hlineEnd
    · rw [Bool.or_eq_true, decide_eq_true_eq, decide_eq_true_eq] at hlineEnd
      rcases hlineEnd with rfl | rfl
      · exact hend hc
      · exact absurd hc hreturn
    · rw [Bool.not_eq_true', Bool.eq_false_iff]
      exact hcontrol c hc
  rw [delimiter_eq, List.length_replicate, Nat.lt_succ_iff] at hrun
  constructor
  · exact hform
  · rw [hinner]
    exact spells_self hescapes hplain hrun
  · rw [hinner]
    exact hreturn
  · rw [hinner]
    exact fun h => ⟨hend h, h⟩

/-- Every text is held by the form that it is written in. -/
theorem holds_formOf (t : Text) : Holds (formOf t) t := by
  rw [formOf]
  split_ifs with hbasic hliteral hmultiBasic hmultiLiteral hends
  · exact holds_escaping (by decide) rfl rfl t
  · exact holds_literal (by decide) rfl hliteral
  · exact holds_escaping (by decide) rfl rfl t
  · exact holds_literal (by decide) rfl hmultiLiteral
  · exact holds_escaping (by decide) rfl rfl t
  · exact holds_escaping (by decide) rfl rfl t

/-! ### Opening and closing quotes -/

theorem quote_of_isForm (h : form ∈ allForms) : form.quote = '"' ∨ form.quote = '\'' := by
  simp only [allForms, singleLineForms, List.cons_append, List.nil_append, List.mem_cons,
    List.not_mem_nil, or_false] at h
  rcases h with rfl | rfl | rfl | rfl
  · exact Or.inl rfl
  · exact Or.inr rfl
  · exact Or.inl rfl
  · exact Or.inr rfl

theorem quote_ne_lineEnd (h : form ∈ allForms) : '\n' ≠ form.quote := by
  rcases quote_of_isForm h with hquote | hquote <;> rw [hquote] <;> decide

theorem exists_cons_delimiter (form : TomlStringForm) (more : Text) :
    ∃ behind, form.delimiter ++ more = form.quote :: behind := by
  rw [delimiter_eq, List.replicate_succ, List.cons_append]
  exact ⟨_, rfl⟩

theorem skipLineEnd_cons (hreturn : c ≠ '\r') (hend : c ≠ '\n') (more : Text) :
    skipLineEnd (c :: more) = c :: more := by
  unfold skipLineEnd
  split <;> simp_all

theorem body_eq (form : TomlStringForm) (t : Text) :
    body form t =
      if form.multiline && t.contains '\n' then '\n' :: inner form t else inner form t :=
  rfl

/-- The line end that is put in front of a text is the only one that is skipped. -/
theorem skipLineEnd_body (h : Holds form t) (more : Text) :
    (if form.multiline then skipLineEnd (body form t ++ (form.delimiter ++ more))
      else body form t ++ (form.delimiter ++ more)) = inner form t ++ (form.delimiter ++ more) := by
  rw [body_eq]
  cases hmultiline : form.multiline with
  | false => rfl
  | true =>
      rw [if_pos rfl, Bool.true_and]
      split_ifs with hends
      · rfl
      · -- without a line end in the text, none stands behind the opening quotes
        have hinner : '\n' ∉ inner form t := fun hmem =>
          hends (List.contains_iff_mem.mpr (h.lineEnds hmem).2)
        cases hcase : inner form t with
        | nil =>
            obtain ⟨behind, hbehind⟩ := exists_cons_delimiter form more
            rw [List.nil_append, hbehind]
            rcases quote_of_isForm h.isForm with hquote | hquote
            · exact skipLineEnd_cons (hquote ▸ by decide) (hquote ▸ by decide) behind
            · exact skipLineEnd_cons (hquote ▸ by decide) (hquote ▸ by decide) behind
        | cons c rest =>
            have hreturn := h.noReturn
            rw [hcase] at hinner hreturn
            rw [List.cons_append]
            exact skipLineEnd_cons (List.ne_of_not_mem_cons hreturn).symm
              (List.ne_of_not_mem_cons hinner).symm _

theorem readOpened_body (h : Holds form t) (rest : Text) :
    readOpened form (body form t ++ (form.delimiter ++ '\n' :: rest)) =
      some (t, '\n' :: rest) := by
  rw [readOpened, skipLineEnd_body h]
  exact h.spells.readBody (quote_ne_lineEnd h.isForm) rest

/-- A string on one line begins with no second quote but that of its end. -/
theorem Spells.clear_of_singleLine (h : Spells form t w) (hline : form.multiline = false) :
    w = [] ∨ ∃ d more, d ≠ form.quote ∧ w = d :: more := by
  have hown : ownQuotes form = 0 := if_neg (Bool.eq_false_iff.mp hline)
  cases h with
  | quotes hk =>
      rw [hown, Nat.le_zero] at hk
      exact Or.inl (hk ▸ rfl)
  | char hyields hclear h =>
      obtain ⟨k, d, more, hk, hd, hw⟩ := hclear
      rw [hown, Nat.le_zero] at hk
      exact Or.inr ⟨d, more, hd, by rw [hw, hk]; rfl⟩

/-- So its opening quote is not taken for three of them. -/
theorem after?_threeQuotes (h : Holds form t) (hline : form.multiline = false) (rest : Text) :
    Text.after? (List.replicate 3 form.quote)
      (form.quote :: (body form t ++ (form.delimiter ++ '\n' :: rest))) = none := by
  have hbody : body form t = inner form t := by
    rw [body_eq, hline]
    rfl
  have hdelimiter : form.delimiter = [form.quote] := by
    rw [delimiter_eq, ownQuotes, hline]
    rfl
  have hquote : '\n' ≠ form.quote := quote_ne_lineEnd h.isForm
  rw [hbody, hdelimiter]
  rcases h.spells.clear_of_singleLine hline with hinner | ⟨d, more, hd, hinner⟩
  · rw [hinner]
    exact Text.after?_replicate hquote 3 2 rest
  · rw [hinner]
    exact Text.after?_replicate hd 3 1 _

/-- The opening quotes tell the form. -/
theorem findSome?_forms (h : Holds form t) (rest : Text) :
    (allForms.findSome? fun known => (Text.after? known.delimiter
        (writeAs form t ++ '\n' :: rest)).map (Prod.mk known)) =
      some (form, body form t ++ (form.delimiter ++ '\n' :: rest)) := by
  have hwritten : writeAs form t ++ '\n' :: rest =
      form.delimiter ++ (body form t ++ (form.delimiter ++ '\n' :: rest)) := by
    rw [writeAs, List.append_assoc, List.append_assoc]
  have hform := h.isForm
  simp only [allForms, singleLineForms, List.cons_append, List.nil_append, List.mem_cons,
    List.not_mem_nil, or_false] at hform
  rw [hwritten]
  simp only [allForms, singleLineForms, List.cons_append, List.nil_append, List.findSome?_cons]
  rcases hform with rfl | rfl | rfl | rfl
  · rw [Text.after?_append]
    rfl
  · rw [Text.after?_append]
    rfl
  · have hthree : Text.after? TomlStringForm.multilineBasic.delimiter _ = none :=
      after?_threeQuotes h rfl rest
    generalize body .basic t ++ (TomlStringForm.basic.delimiter ++ '\n' :: rest) = behind
      at hthree ⊢
    rw [show TomlStringForm.basic.delimiter ++ behind = '"' :: behind from rfl]
    rw [show Text.after? TomlStringForm.multilineBasic.delimiter ('"' :: behind) = none from hthree]
    rfl
  · have hthree : Text.after? TomlStringForm.multilineLiteral.delimiter _ = none :=
      after?_threeQuotes h rfl rest
    generalize body .literal t ++ (TomlStringForm.literal.delimiter ++ '\n' :: rest) = behind
      at hthree ⊢
    rw [show TomlStringForm.literal.delimiter ++ behind = '\'' :: behind from rfl]
    rw [show Text.after? TomlStringForm.multilineLiteral.delimiter ('\'' :: behind) = none
      from hthree]
    rfl

theorem read_write (t rest : Text) :
    read allForms (write t ++ '\n' :: rest) = some (t, '\n' :: rest) := by
  have h := holds_formOf t
  rw [write, read, findSome?_forms h]
  exact readOpened_body h rest

theorem exists_cons_write (t : Text) :
    ∃ quote behind, (quote = '"' ∨ quote = '\'') ∧ write t = quote :: behind := by
  obtain ⟨behind, hbehind⟩ :=
    exists_cons_delimiter (formOf t) (body (formOf t) t ++ (formOf t).delimiter)
  refine ⟨(formOf t).quote, behind, quote_of_isForm (holds_formOf t).isForm, ?_⟩
  rw [write, writeAs, List.append_assoc, hbehind]

theorem not_mem_write (t : Text) : '\r' ∉ write t := by
  have h := holds_formOf t
  have hdelimiter : '\r' ∉ (formOf t).delimiter := by
    intro hmem
    have hquote := List.eq_of_mem_replicate (delimiter_eq (formOf t) ▸ hmem)
    rcases quote_of_isForm h.isForm with hform | hform <;> rw [hform] at hquote <;> cases hquote
  have hbody : '\r' ∉ body (formOf t) t := by
    rw [body_eq]
    split_ifs
    · rw [List.mem_cons]
      exact fun hmem => hmem.elim nofun h.noReturn
    · exact h.noReturn
  rw [write, writeAs, List.mem_append, List.mem_append]
  exact fun hmem => hmem.elim (fun hmem => hmem.elim hdelimiter hbody) hdelimiter

end TagPrompt.TomlString
