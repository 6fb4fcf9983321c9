import TagPrompt.Proofs.Text.Split
import TagPrompt.Toml.Quoted

/-! Between the quotes of a string. A text is spelled character by character, and reading gives the
characters back up to the quotes that end the string, with those in front of them that belong to the
text. A form with escapes spells every text, one without spells the texts that need none. -/

namespace TagPrompt

theorem Text.after?_replicate {quote d : Char} (h : d ≠ quote) (own k : Nat) (more : Text) :
    Text.after? (List.replicate own quote) (List.replicate k quote ++ d :: more) =
      if own ≤ k then some (List.replicate (k - own) quote ++ d :: more) else none := by
  induction own generalizing k with
  | zero => rfl
  | succ own ih =>
      cases k with
      | zero => simp [Text.after?, List.replicate_succ, h.symm]
      | succ k => simp [Text.after?, List.replicate_succ, ih]

namespace TomlString

variable {form : TomlStringForm} {t w rest : Text} {c d : Char} {k : Nat}

/-! ### Quotes that belong to the text -/

/-- How many quotes in a row a form takes for text. -/
def ownQuotes (form : TomlStringForm) : Nat := if form.multiline then 2 else 0

/-- Only as many quotes as are text stand in front of something else. -/
def Clear (form : TomlStringForm) (w : Text) : Prop :=
  ∃ k d more, k ≤ ownQuotes form ∧ d ≠ form.quote ∧ w = List.replicate k form.quote ++ d :: more

theorem delimiter_eq (form : TomlStringForm) :
    form.delimiter = List.replicate (ownQuotes form + 1) form.quote := by
  rw [TomlStringForm.delimiter, ownQuotes]
  cases form.multiline <;> rfl

theorem behind_eq (h : d ≠ form.quote) (own k : Nat) (more : Text) :
    Text.after? (List.replicate own form.quote ++ form.delimiter)
      (List.replicate k form.quote ++ d :: more) =
      if own + (ownQuotes form + 1) ≤ k then
        some (List.replicate (k - (own + (ownQuotes form + 1))) form.quote ++ d :: more)
      else none := by
  rw [delimiter_eq, List.replicate_append_replicate, Text.after?_replicate h]

theorem closing?_of_clear (h : Clear form w) (rest : Text) : closing? form (w ++ rest) = none := by
  obtain ⟨k, d, more, hk, hd, rfl⟩ := h
  rw [List.append_assoc, List.cons_append, closing?]
  simp only [behind_eq hd]
  simp [show ¬ownQuotes form + 1 ≤ k by omega, show ¬1 + (ownQuotes form + 1) ≤ k by omega,
    show ¬2 + (ownQuotes form + 1) ≤ k by omega]

/-- The quotes that end a string come behind as many as belong to it. -/
theorem closing?_of_quotes (hk : k ≤ ownQuotes form) (hquote : '\n' ≠ form.quote) (rest : Text) :
    closing? form (List.replicate k form.quote ++ (form.delimiter ++ '\n' :: rest)) =
      some (List.replicate k form.quote, '\n' :: rest) := by
  have hquotes : List.replicate k form.quote ++ (form.delimiter ++ '\n' :: rest) =
      List.replicate (k + (ownQuotes form + 1)) form.quote ++ '\n' :: rest := by
    rw [delimiter_eq, ← List.append_assoc, List.replicate_append_replicate]
  have hbehind : ∀ own, Text.after? (List.replicate own form.quote ++ form.delimiter)
      (List.replicate k form.quote ++ (form.delimiter ++ '\n' :: rest)) =
        if own ≤ k then some (List.replicate (k - own) form.quote ++ '\n' :: rest) else none := by
    intro own
    rw [hquotes, behind_eq hquote]
    simp only [Nat.add_le_add_iff_right, Nat.add_sub_add_right]
  rw [closing?]
  simp only [hbehind]
  rw [ownQuotes] at hk
  cases hmultiline : form.multiline with
  | false =>
      rw [hmultiline, if_neg Bool.false_ne_true, Nat.le_zero] at hk
      subst hk
      rfl
  | true =>
      rw [hmultiline, if_pos rfl] at hk
      match k, hk with
      | 0, _ => rfl
      | 1, _ => rfl
      | 2, _ => rfl

/-! ### Single characters -/

theorem readBody_of_closing? {closed : Text × Text} (h : closing? form w = some closed) :
    readBody form .plain w = some closed := by
  cases w with
  | nil =>
      rw [closing?, delimiter_eq] at h
      cases hmultiline : form.multiline <;> simp [hmultiline, Text.after?, List.replicate_succ] at h
  | cons c rest => simp only [readBody, State.mayEnd, if_pos, h]

theorem readBody_plain (hclosing : closing? form (c :: rest) = none) {found : Option Char}
    {state : State} (hstep : plainStep? form c = some (found, state)) :
    readBody form .plain (c :: rest) =
      (readBody form state rest).map fun (content, rest) => (found.toList ++ content, rest) := by
  simp only [readBody, State.mayEnd, if_pos, hclosing, step?, hstep]

theorem readBody_inside {state next : State} (hstate : state.mayEnd = false)
    {found : Option Char} (hstep : step? form state c = some (found, next)) :
    readBody form state (c :: rest) =
      (readBody form next rest).map fun (content, rest) => (found.toList ++ content, rest) := by
  rw [readBody]
  simp only [hstate, if_neg Bool.false_ne_true, hstep]

/-- A step that completes no character. -/
theorem readBody_silent {state next : State} (hstate : state.mayEnd = false)
    (hstep : step? form state c = some (none, next)) :
    readBody form state (c :: rest) = readBody form next rest := by
  rw [readBody_inside hstate hstep]
  exact congrFun Option.map_id _

theorem readBody_backslash (hescapes : form.escapes = true)
    (hclosing : closing? form ('\\' :: rest) = none) :
    readBody form .plain ('\\' :: rest) = readBody form .escape rest := by
  have hstep : plainStep? form '\\' = some (none, .escape) := by
    rw [plainStep?, hescapes]
    rfl
  rw [readBody_plain hclosing hstep]
  exact congrFun Option.map_id _

/-- What is read as a single character, unless a string may end with its beginning. -/
def Yields (form : TomlStringForm) (written : Text) (c : Char) : Prop :=
  ∀ more, closing? form (written ++ more) = none →
    readBody form .plain (written ++ more) =
      (readBody form .plain more).map fun (content, rest) => (c :: content, rest)

theorem yields_plain (hescape : form.escapes = false ∨ c ≠ '\\') (hplain : isPlain form c = true) :
    Yields form [c] c := by
  intro more hclosing
  have hstep : plainStep? form c = some (some c, .plain) := by
    rw [plainStep?, if_neg, if_pos hplain]
    rcases hescape with hescape | hescape <;> simp [hescape]
  exact readBody_plain hclosing hstep

theorem yields_simple (hescapes : form.escapes = true) (h : simpleEscape? d = some c) :
    Yields form ['\\', d] c := by
  intro more hclosing
  have hstep : step? form .escape d = some (some c, .plain) := by
    rw [step?, escapeStep?, h]
  apply (readBody_backslash hescapes hclosing).trans
  exact readBody_inside rfl hstep

theorem hexValue?_upperHexDigit :
    ∀ n, n < 16 → Text.hexValue? (Nat.digitChar n).toUpper = some n := by
  decide

theorem charOf?_toNat (c : Char) : charOf? c.toNat = some c := by
  rw [charOf?]
  exact dif_pos c.valid

theorem readBody_digit {missing value digit : Nat} (h : Text.hexValue? d = some digit)
    (hmissing : missing ≠ 0) :
    readBody form (.number (missing + 1) value) (d :: rest) =
      readBody form (.number missing (value * 16 + digit)) rest := by
  have hstep : step? form (.number (missing + 1) value) d =
      some (none, .number missing (value * 16 + digit)) := by
    simp [step?, digitStep?, h, hmissing]
  exact readBody_silent rfl hstep

theorem readBody_lastDigit {value digit : Nat} (h : Text.hexValue? d = some digit)
    (hchar : charOf? (value * 16 + digit) = some c) :
    readBody form (.number 1 value) (d :: rest) =
      (readBody form .plain rest).map fun (content, rest) => (c :: content, rest) := by
  have hstep : step? form (.number 1 value) d = some (some c, .plain) := by
    simp [step?, digitStep?, h, hchar]
  exact readBody_inside rfl hstep

/-- The four digits of a numeric escape; the first two are zero. -/
theorem yields_number (hescapes : form.escapes = true) (h : c.toNat < 256) :
    Yields form (['\\', 'u', '0', '0'] ++ upperHexDigits c.toNat) c := by
  intro more hclosing
  have hopen : step? form .escape 'u' = some (none, .number 4 0) := rfl
  have hzero : Text.hexValue? '0' = some 0 := rfl
  have hhigh := hexValue?_upperHexDigit (c.toNat / 16 % 16) (Nat.mod_lt _ (by decide))
  have hlow := hexValue?_upperHexDigit (c.toNat % 16) (Nat.mod_lt _ (by decide))
  have hvalue : (((0 * 16 + 0) * 16 + 0) * 16 + c.toNat / 16 % 16) * 16 + c.toNat % 16 =
      c.toNat := by
    omega
  apply (readBody_backslash hescapes hclosing).trans
  show readBody form .escape ('u' :: '0' :: '0' :: (Nat.digitChar (c.toNat / 16 % 16)).toUpper ::
    (Nat.digitChar (c.toNat % 16)).toUpper :: more) = _
  rw [readBody_silent rfl hopen, readBody_digit hzero (by decide), readBody_digit hzero (by decide),
    readBody_digit hhigh (by decide)]
  exact readBody_lastDigit hlow (by rw [hvalue, charOf?_toNat])

/-- A character between double quotes that is no quote is read back. -/
theorem yields_escapeChar (hescapes : form.escapes = true) (c : Char) :
    Yields form (escapeChar form.multiline c) c := by
  rw [escapeChar]
  split_ifs with hb ht hn hmultiline hf hr hs hcontrol
  · exact yields_simple hescapes (hb ▸ rfl)
  · exact yields_simple hescapes (ht ▸ rfl)
  · subst hn
    exact yields_plain (Or.inr (by decide)) hmultiline
  · exact yields_simple hescapes (hn ▸ rfl)
  · exact yields_simple hescapes (hf ▸ rfl)
  · exact yields_simple hescapes (hr ▸ rfl)
  · subst hs
    exact yields_simple hescapes rfl
  · apply yields_number hescapes
    simp only [isTomlControl, Bool.or_eq_true, Bool.and_eq_true, decide_eq_true_eq,
      beq_iff_eq] at hcontrol
    omega
  · apply yields_plain (Or.inr hs)
    simp [isPlain, hn, hr, hcontrol]

/-! ### Whole texts -/

/-- What stands between the quotes of a form and is read as a text: characters one after another,
and in the end as many quotes as may belong to the text. -/
inductive Spells (form : TomlStringForm) : (t written : Text) → Prop
  | quotes {k : Nat} (h : k ≤ ownQuotes form) :
      Spells form (List.replicate k form.quote) (List.replicate k form.quote)
  | char {c : Char} {t written more : Text} (hyields : Yields form written c)
      (hclear : Clear form (written ++ more)) (h : Spells form t more) :
      Spells form (c :: t) (written ++ more)

theorem Spells.readBody (h : Spells form t w) (hquote : '\n' ≠ form.quote) (rest : Text) :
    readBody form .plain (w ++ (form.delimiter ++ '\n' :: rest)) = some (t, '\n' :: rest) := by
  induction h with
  | quotes hk => exact readBody_of_closing? (closing?_of_quotes hk hquote rest)
  | @char c t written more hyields hclear _ ih =>
      have hclosing := closing?_of_clear hclear (form.delimiter ++ '\n' :: rest)
      rw [List.append_assoc] at hclosing ⊢
      rw [hyields _ hclosing, ih, Option.map_some]

theorem clear_cons (h : d ≠ form.quote) (more : Text) : Clear form (d :: more) :=
  ⟨0, d, more, Nat.zero_le _, h, rfl⟩

/-! #### With escapes -/

theorem escapeChar_clear (h : c ≠ '"') (multiline : Bool) (more : Text) :
    ∃ d front, d ≠ '"' ∧ escapeChar multiline c ++ more = d :: front := by
  rw [escapeChar]
  split_ifs
  all_goals exact ⟨_, _, by first | exact h | decide, rfl⟩

/-- Quotes in a row, those in front included, are all of the text or have something else behind. -/
theorem escapeFrom_leads (t : Text) {run : Nat} (hrun : run ≤ 2) :
    (∃ k, k + run ≤ 2 ∧ t = List.replicate k '"' ∧
        escapeFrom true run t = List.replicate k '"') ∨
      ∃ k d more, k + run ≤ 2 ∧ d ≠ '"' ∧
        escapeFrom true run t = List.replicate k '"' ++ d :: more := by
  induction t generalizing run with
  | nil => exact Or.inl ⟨0, by omega, rfl, rfl⟩
  | cons c rest ih =>
      rw [escapeFrom]
      split_ifs with hc hshort
      · subst hc
        have hrun' : run + 1 ≤ 2 := by
          simp only [Bool.true_and, decide_eq_true_eq] at hshort
          omega
        rcases ih hrun' with ⟨k, hk, ht, hw⟩ | ⟨k, d, more, hk, hd, hw⟩
        · exact Or.inl ⟨k + 1, by omega, by rw [ht, List.replicate_succ], by
            rw [hw, List.replicate_succ]⟩
        · exact Or.inr ⟨k + 1, d, more, by omega, hd, by
            rw [hw, List.replicate_succ, List.cons_append]⟩
      · exact Or.inr ⟨0, '\\', _, by omega, by decide, rfl⟩
      · obtain ⟨d, front, hd, hw⟩ := escapeChar_clear hc true (escapeFrom true 0 rest)
        exact Or.inr ⟨0, d, front, by omega, hd, hw⟩

/-- A form with escapes holds every text. -/
theorem spells_escapeFrom (hquote : form.quote = '"') (hescapes : form.escapes = true) (t : Text)
    {run : Nat} (hrun : run ≤ 2) : Spells form t (escapeFrom form.multiline run t) := by
  induction t generalizing run with
  | nil => exact .quotes (Nat.zero_le _)
  | cons c rest ih =>
      have hrest := ih (Nat.zero_le 2)
      rw [escapeFrom]
      split_ifs with hc hshort
      · subst hc
        obtain ⟨hmultiline, hshort⟩ := Bool.and_eq_true_iff.mp hshort
        have hown : ownQuotes form = 2 := if_pos hmultiline
        have hyields : Yields form ['"'] '"' := by
          apply yields_plain (Or.inr (by decide))
          rfl
        have hwritten : '"' :: escapeFrom form.multiline (run + 1) rest =
            escapeFrom true run ('"' :: rest) := by
          rw [escapeFrom, if_pos rfl, hshort, hmultiline]
          rfl
        rcases escapeFrom_leads ('"' :: rest) hrun with ⟨k, hk, ht, hw⟩ | ⟨k, d, more, hk, hd, hw⟩
        · rw [hwritten, hw, ht, ← hquote]
          exact .quotes (by omega)
        · have hclear : Clear form ('"' :: escapeFrom form.multiline (run + 1) rest) := by
            rw [hwritten, hw, ← hquote]
            exact ⟨k, d, more, by omega, hquote ▸ hd, rfl⟩
          exact .char hyields hclear (ih (of_decide_eq_true hshort))
      · subst hc
        have hyields : Yields form ['\\', '"'] '"' := yields_simple hescapes rfl
        exact .char hyields (clear_cons (hquote ▸ by decide) _) hrest
      · obtain ⟨d, front, hd, hw⟩ :=
          escapeChar_clear hc form.multiline (escapeFrom form.multiline 0 rest)
        have hclear : Clear form (escapeChar form.multiline c ++
            escapeFrom form.multiline 0 rest) := by
          rw [hw]
          exact clear_cons (hquote ▸ hd) front
        exact .char (yields_escapeChar hescapes c) hclear hrest

/-! #### Without escapes -/

theorem le_longestRunFrom (quote : Char) (run : Nat) (t : Text) :
    run ≤ longestRunFrom quote run t := by
  induction t generalizing run with
  | nil => exact Nat.le_refl run
  | cons c rest ih =>
      rw [longestRunFrom]
      split_ifs
      · exact Nat.le_trans (Nat.le_succ run) (ih (run + 1))
      · exact Nat.le_max_left ..

theorem longestRunFrom_le (quote : Char) {run run' : Nat} (h : run ≤ run') (t : Text) :
    longestRunFrom quote run t ≤ longestRunFrom quote run' t := by
  induction t generalizing run run' with
  | nil => exact h
  | cons c rest ih =>
      rw [longestRunFrom, longestRunFrom]
      split_ifs
      · exact ih (Nat.succ_le_succ h)
      · omega

theorem longestRun_le_cons (quote c : Char) (t : Text) :
    longestRun quote t ≤ longestRun quote (c :: t) := by
  rw [longestRun, longestRun, longestRunFrom]
  split_ifs
  · exact longestRunFrom_le quote (Nat.zero_le 1) t
  · exact Nat.le_max_right ..

theorem longestRunFrom_replicate (quote : Char) (run k : Nat) (t : Text) :
    longestRunFrom quote run (List.replicate k quote ++ t) = longestRunFrom quote (run + k) t := by
  induction k generalizing run with
  | zero => rfl
  | succ k ih =>
      rw [List.replicate_succ, List.cons_append, longestRunFrom, if_pos rfl, ih]
      congr 1
      omega

/-- A text begins with quotes, which are all of it or have something else behind. -/
theorem exists_leading_quotes (quote : Char) (t : Text) :
    ∃ k rest, t = List.replicate k quote ++ rest ∧
      (rest = [] ∨ ∃ d more, d ≠ quote ∧ rest = d :: more) := by
  induction t with
  | nil => exact ⟨0, [], rfl, Or.inl rfl⟩
  | cons c t ih =>
      by_cases hc : c = quote
      · obtain ⟨k, rest, rfl, hrest⟩ := ih
        exact ⟨k + 1, rest, by rw [hc, List.replicate_succ, List.cons_append], hrest⟩
      · exact ⟨0, c :: t, rfl, Or.inr ⟨c, t, hc, rfl⟩⟩

theorem clear_of_longestRun (h : longestRun form.quote t ≤ ownQuotes form) :
    (∃ k, k ≤ ownQuotes form ∧ t = List.replicate k form.quote) ∨ Clear form t := by
  obtain ⟨k, rest, rfl, hrest⟩ := exists_leading_quotes form.quote t
  have hk : k ≤ ownQuotes form := by
    rw [longestRun, longestRunFrom_replicate, Nat.zero_add] at h
    exact Nat.le_trans (le_longestRunFrom form.quote k rest) h
  rcases hrest with rfl | ⟨d, more, hd, rfl⟩
  · exact Or.inl ⟨k, hk, List.append_nil _⟩
  · exact Or.inr ⟨k, d, more, hk, hd, rfl⟩

/-- A form without escapes holds the texts of which every character may stand for itself. -/
theorem spells_self (hescapes : form.escapes = false) (hplain : ∀ c ∈ t, isPlain form c = true)
    (hrun : longestRun form.quote t ≤ ownQuotes form) : Spells form t t := by
  induction t with
  | nil => exact .quotes (Nat.zero_le _)
  | cons c t ih =>
      rcases clear_of_longestRun hrun with ⟨k, hk, ht⟩ | hclear
      · rw [ht]
        exact .quotes hk
      · have hrest : Spells form t t :=
          ih (fun d hd => hplain d (List.mem_cons_of_mem c hd))
            (Nat.le_trans (longestRun_le_cons form.quote c t) hrun)
        exact .char (yields_plain (Or.inl hescapes) (hplain c List.mem_cons_self)) hclear hrest

end TomlString
end TagPrompt
