import TagPrompt.Proofs.Expansion.Grammar
import TagPrompt.Proofs.Wildcards.Addressing

/-! Placeholders are replaced all at once. The placeholders of a text are known from the text alone:
of those that could come next the leftmost, and of those that begin there the shortest. Between them
stand gaps. Expansion, which edits one text at places found beforehand, copies the gaps and puts in
each place a line of the list of its placeholder, or the placeholder itself where there is no such
line; nothing it puts in is looked at again. -/

namespace TagPrompt

variable {σ : Type} [ChoiceSource σ] {text gap name rest last : Text} {c : Char}
  {pieces : List (Text × Text)}

/-! ### Cutting a text -/

/-- A text that is a placeholder: two underscores, characters of one line, two underscores. -/
def IsPlaceholder (name : Text) : Prop :=
  ∃ inner, '\n' ∉ inner ∧ name = '_' :: '_' :: (inner ++ ['_', '_'])

/-- The next placeholder of a text, the gap in front of it, and what follows. -/
structure NextPlaceholder (text gap name rest : Text) : Prop where
  parts : text = gap ++ (name ++ rest)
  placeholder : IsPlaceholder name
  leftmost : ∀ gap' name' rest', text = gap' ++ (name' ++ rest') → IsPlaceholder name' →
    gap.length ≤ gap'.length
  shortest : ∀ name' rest', text = gap ++ (name' ++ rest') → IsPlaceholder name' →
    name.length ≤ name'.length

/-- A text, its placeholders with the gaps in front of them, and the gap behind the last one. -/
inductive Cuts : Text → List (Text × Text) → Text → Prop
  | last {text : Text} (h : ∀ gap name rest, text = gap ++ (name ++ rest) → ¬IsPlaceholder name) :
      Cuts text [] text
  | next {text gap name rest last : Text} {pieces : List (Text × Text)}
      (h : NextPlaceholder text gap name rest) (hrest : Cuts rest pieces last) :
      Cuts text ((gap, name) :: pieces) last

/-- The lines that can replace placeholders, with the choices that give them: of how many lines
which one. The choice for a placeholder comes after those for the ones behind it, and only a list
that has lines asks for one. -/
inductive Replaces (wildcards : Wildcards) : List Text → List Text → List (Nat × Nat) → Prop
  | nil : Replaces wildcards [] [] []
  | chosen {name : Text} {list names lines : List Text} {made : List (Nat × Nat)}
      (hlist : wildcards.get? name = some list) (i : Fin list.length)
      (h : Replaces wildcards names lines made) :
      Replaces wildcards (name :: names) (list.get i :: lines) (made ++ [(list.length, i.val)])
  | kept {name : Text} {names lines : List Text} {made : List (Nat × Nat)}
      (hlist : wildcards.get? name = none ∨ wildcards.get? name = some [])
      (h : Replaces wildcards names lines made) :
      Replaces wildcards (name :: names) (name :: lines) made

/-- A text put together from the gaps and what replaces the placeholders. -/
def putTogether (pieces : List (Text × Text)) (lines : List Text) (last : Text) : Text :=
  (List.zipWith (fun piece line => piece.1 ++ line) pieces lines).flatten ++ last

/-! ### The next placeholder -/

theorem IsPlaceholder.exists_cons (h : IsPlaceholder name) (hparts : c :: text = name ++ rest) :
    ∃ tail, c = '_' ∧ text = '_' :: tail := by
  obtain ⟨inner, -, rfl⟩ := h
  obtain ⟨rfl, htext⟩ := List.cons.inj hparts
  exact ⟨_, rfl, htext⟩

/-- The two underscores behind characters of one line close no later than there. -/
theorem exists_lengthToClosing?_le {inner : Text} (h : '\n' ∉ inner) (after : Text) :
    ∃ n ≤ inner.length, lengthToClosing? (inner ++ '_' :: '_' :: after) = some n := by
  induction inner with
  | nil => exact ⟨0, Nat.le_refl 0, rfl⟩
  | cons c inner ih =>
      obtain ⟨hc, hinner⟩ := List.ne_and_not_mem_of_not_mem_cons h
      obtain ⟨n, hn, hclosing⟩ := ih hinner
      rw [List.cons_append, lengthToClosing?, hclosing]
      split_ifs with hnow hline
      · exact ⟨0, Nat.zero_le _, rfl⟩
      · exact absurd hline.symm hc
      · exact ⟨n + 1, Nat.succ_le_succ hn, rfl⟩

/-- A placeholder that a text begins with is found, or a shorter one. -/
theorem IsPlaceholder.exists_lengthToClosing? (h : IsPlaceholder name)
    (hparts : '_' :: '_' :: text = name ++ rest) :
    ∃ n, lengthToClosing? text = some n ∧ n + 4 ≤ name.length := by
  obtain ⟨inner, hline, rfl⟩ := h
  obtain rfl : text = inner ++ '_' :: '_' :: rest := by simpa using hparts
  obtain ⟨n, hn, hclosing⟩ := exists_lengthToClosing?_le hline rest
  refine ⟨n, hclosing, ?_⟩
  simp only [List.length_cons, List.length_append, List.length_nil]
  omega

theorem isPlaceholder_of_lengthToClosing? {n : Nat} (h : lengthToClosing? text = some n) :
    IsPlaceholder ('_' :: '_' :: text.take (n + 2)) := by
  obtain ⟨inner, after, hinner, rfl, rfl⟩ := Wildcards.exists_of_lengthToClosing? h
  exact ⟨inner, hinner.1, Wildcards.take_closing inner after⟩

theorem nextPlaceholder_of_lengthToClosing? {n : Nat} (h : lengthToClosing? text = some n) :
    NextPlaceholder ('_' :: '_' :: text) [] ('_' :: '_' :: text.take (n + 2))
      (text.drop (n + 2)) where
  parts := by simp
  placeholder := isPlaceholder_of_lengthToClosing? h
  leftmost _ _ _ _ _ := Nat.zero_le _
  shortest name' rest' hparts hname' := by
    obtain ⟨m, hm, hlength⟩ := hname'.exists_lengthToClosing? hparts
    obtain rfl : n = m := Option.some.inj (h.symm.trans hm)
    simp only [List.length_cons, List.length_take]
    omega

/-- A character with which no placeholder begins is one more character of the gap. -/
theorem nextPlaceholder_cons_iff
    (hno : ∀ name rest, c :: text = name ++ rest → ¬IsPlaceholder name) :
    NextPlaceholder (c :: text) (c :: gap) name rest ↔ NextPlaceholder text gap name rest := by
  constructor
  · rintro ⟨hparts, hname, hleftmost, hshortest⟩
    refine ⟨(List.cons.inj hparts).2, hname, ?_, ?_⟩
    · intro gap' name' rest' hparts' hname'
      exact Nat.le_of_succ_le_succ (hleftmost (c :: gap') name' rest' (by rw [hparts']; rfl) hname')
    · intro name' rest' hparts' hname'
      exact hshortest name' rest' (by rw [hparts']; rfl) hname'
  · rintro ⟨hparts, hname, hleftmost, hshortest⟩
    refine ⟨by rw [hparts]; rfl, hname, ?_, ?_⟩
    · intro gap' name' rest' hparts' hname'
      cases gap' with
      | nil => exact absurd hname' (hno name' rest' hparts')
      | cons d gap' =>
          exact Nat.succ_le_succ (hleftmost gap' name' rest' (List.cons.inj hparts').2 hname')
    · intro name' rest' hparts' hname'
      exact hshortest name' rest' (List.cons.inj hparts').2 hname'

theorem exists_nextPlaceholder (text : Text) :
    (∀ gap name rest, text = gap ++ (name ++ rest) → ¬IsPlaceholder name) ∨
      ∃ gap name rest, NextPlaceholder text gap name rest := by
  induction text with
  | nil =>
      refine Or.inl fun gap name rest hparts hname => ?_
      obtain ⟨inner, -, rfl⟩ := hname
      simp at hparts
  | cons c text ih =>
      by_cases hno : ∀ name rest, c :: text = name ++ rest → ¬IsPlaceholder name
      · rcases ih with hnone | ⟨gap, name, rest, hnext⟩
        · refine Or.inl fun gap name rest hparts => ?_
          cases gap with
          | nil => exact hno name rest hparts
          | cons d gap => exact hnone gap name rest (List.cons.inj hparts).2
        · exact Or.inr ⟨c :: gap, name, rest, (nextPlaceholder_cons_iff hno).mpr hnext⟩
      · push Not at hno
        obtain ⟨name, rest, hparts, hname⟩ := hno
        obtain ⟨tail, rfl, rfl⟩ := hname.exists_cons hparts
        obtain ⟨n, hclosing, -⟩ := hname.exists_lengthToClosing? hparts
        exact Or.inr ⟨[], _, _, nextPlaceholder_of_lengthToClosing? hclosing⟩

theorem NextPlaceholder.unique {gap' name' rest' : Text} (h : NextPlaceholder text gap name rest)
    (h' : NextPlaceholder text gap' name' rest') : gap' = gap ∧ name' = name ∧ rest' = rest := by
  have hgap : gap'.length = gap.length :=
    Nat.le_antisymm (h'.leftmost gap name rest h.parts h.placeholder)
      (h.leftmost gap' name' rest' h'.parts h'.placeholder)
  obtain ⟨rfl, hbehind⟩ := List.append_inj (h'.parts.symm.trans h.parts) hgap
  have hname : name'.length = name.length :=
    Nat.le_antisymm (h'.shortest name rest h.parts h.placeholder)
      (h.shortest name' rest' h'.parts h'.placeholder)
  obtain ⟨rfl, rfl⟩ := List.append_inj hbehind hname
  exact ⟨rfl, rfl, rfl⟩

/-! ### The cut of a text -/

theorem exists_cuts (text : Text) : ∃ pieces last, Cuts text pieces last := by
  induction hlength : text.length using Nat.strong_induction_on generalizing text with
  | _ length ih =>
      subst hlength
      rcases exists_nextPlaceholder text with hnone | ⟨gap, name, rest, hnext⟩
      · exact ⟨[], text, .last hnone⟩
      · have hshort : rest.length < text.length := by
          obtain ⟨inner, -, rfl⟩ := hnext.placeholder
          rw [hnext.parts]
          simp only [List.length_append, List.length_cons]
          omega
        obtain ⟨pieces, last, hrest⟩ := ih rest.length hshort rest rfl
        exact ⟨(gap, name) :: pieces, last, .next hnext hrest⟩

theorem Cuts.unique {pieces' : List (Text × Text)} {last' : Text} (h : Cuts text pieces last)
    (h' : Cuts text pieces' last') : pieces' = pieces ∧ last' = last := by
  induction h generalizing pieces' last' with
  | last hnone =>
      cases h' with
      | last _ => exact ⟨rfl, rfl⟩
      | next hnext _ => exact absurd hnext.placeholder (hnone _ _ _ hnext.parts)
  | next hnext _ ih =>
      cases h' with
      | last hnone => exact absurd hnext.placeholder (hnone _ _ _ hnext.parts)
      | next hnext' hrest' =>
          obtain ⟨rfl, rfl, rfl⟩ := hnext.unique hnext'
          obtain ⟨rfl, rfl⟩ := ih hrest'
          exact ⟨rfl, rfl⟩

/-! ### Filling is replacing -/

variable {wildcards : Wildcards} {names lines : List Text} {made : List (Nat × Nat)}

theorem fill_of_no_placeholder
    (hno : ∀ name rest, c :: text = name ++ rest → ¬IsPlaceholder name) (s : σ) :
    fill wildcards (c :: text) s =
      (c :: (fill wildcards text s).1, (fill wildcards text s).2) := by
  by_cases hopening : ∃ tail, c = '_' ∧ text = '_' :: tail
  · obtain ⟨tail, rfl, rfl⟩ := hopening
    cases hclosing : lengthToClosing? tail with
    | none => exact fill_open wildcards hclosing s
    | some n =>
        refine absurd (isPlaceholder_of_lengthToClosing? hclosing) (hno _ (tail.drop (n + 2)) ?_)
        simp
  · exact fill_cons wildcards (fun tail hc htext => hopening ⟨tail, hc, htext⟩) s

theorem fill_of_none (hnone : ∀ gap name rest, text = gap ++ (name ++ rest) → ¬IsPlaceholder name)
    (s : σ) : fill wildcards text s = (text, s) := by
  induction text with
  | nil => rw [fill]
  | cons c text ih =>
      have hrest : ∀ gap name rest, text = gap ++ (name ++ rest) → ¬IsPlaceholder name := by
        intro gap name rest hparts
        exact hnone (c :: gap) name rest (by rw [hparts]; rfl)
      rw [fill_of_no_placeholder (hnone []), ih hrest]

/-- The next placeholder is filled after all that follows it. -/
theorem NextPlaceholder.fill_eq (h : NextPlaceholder text gap name rest) (s : σ) :
    fill wildcards text s =
      let behind := fill wildcards rest s
      let choice := wildcards.choose name behind.2
      (gap ++ choice.1.getD name ++ behind.1, choice.2) := by
  induction gap generalizing text with
  | nil =>
      obtain ⟨tail, rfl⟩ : ∃ tail, text = '_' :: '_' :: tail := by
        obtain ⟨inner, -, hinner⟩ := h.placeholder
        exact ⟨inner ++ ['_', '_'] ++ rest, by rw [h.parts, hinner]; rfl⟩
      obtain ⟨n, hclosing, -⟩ := h.placeholder.exists_lengthToClosing? h.parts
      obtain ⟨-, rfl, rfl⟩ := h.unique (nextPlaceholder_of_lengthToClosing? hclosing)
      rw [fill_closed wildcards hclosing]
      rfl
  | cons c gap ih =>
      obtain ⟨text, rfl⟩ : ∃ tail, text = c :: tail := ⟨_, h.parts⟩
      have hno : ∀ name rest, c :: text = name ++ rest → ¬IsPlaceholder name := by
        intro name' rest' hparts' hname'
        exact Nat.not_succ_le_zero _ (h.leftmost [] name' rest' hparts' hname')
      rw [fill_of_no_placeholder hno, ih ((nextPlaceholder_cons_iff hno).mp h)]
      rfl

theorem putTogether_cons (gap name line last : Text) (pieces : List (Text × Text))
    (lines : List Text) :
    putTogether ((gap, name) :: pieces) (line :: lines) last =
      gap ++ line ++ putTogether pieces lines last := by
  simp [putTogether]

theorem Cuts.putTogether_eq (h : Cuts text pieces last) :
    text = putTogether pieces (pieces.map Prod.snd) last := by
  induction h with
  | last _ => rfl
  | next hnext _ ih => rw [List.map_cons, putTogether_cons, ← ih, hnext.parts, List.append_assoc]

theorem choose_of_kept (h : wildcards.get? name = none ∨ wildcards.get? name = some []) (s : σ) :
    wildcards.choose name s = (none, s) := by
  rcases h with h | h <;> simp [Wildcards.choose, h, ChoiceSource.pick]

theorem choose_of_chosen {list : List Text} (h : wildcards.get? name = some list)
    (hpos : 0 < list.length) (s : σ) :
    wildcards.choose name s =
      (some (list.get (ChoiceSource.choose list.length hpos s).1),
        (ChoiceSource.choose list.length hpos s).2) := by
  obtain ⟨first, more, rfl⟩ := List.exists_cons_of_length_pos hpos
  rw [Wildcards.choose, h, Option.getD_some, ChoiceSource.pick,
    choose_get_eq_pickOne rfl hpos]

/-- A supply makes one more choice after others. -/
theorem makes_concat {s s' : σ} {n i : Nat} :
    Makes s (made ++ [(n, i)]) s' ↔ ∃ between, Makes s made between ∧ ∃ hn : 0 < n,
      (ChoiceSource.choose n hn between).1.val = i ∧ (ChoiceSource.choose n hn between).2 = s' := by
  simp only [makes_append, Makes, eq_comm]

theorem Cuts.exists_replaces (h : Cuts text pieces last) (wildcards : Wildcards) (s : σ) :
    ∃ lines made, Replaces wildcards (pieces.map Prod.snd) lines made ∧
      Makes s made (fill wildcards text s).2 ∧
      (fill wildcards text s).1 = putTogether pieces lines last := by
  induction h with
  | last hnone =>
      rw [fill_of_none hnone]
      exact ⟨[], [], .nil, rfl, rfl⟩
  | @next text gap name rest last pieces hnext _ ih =>
      obtain ⟨lines, made, hreplaces, hmakes, hout⟩ := ih
      simp only [hnext.fill_eq, hout]
      rcases hlist : wildcards.get? name with _ | (_ | ⟨first, more⟩)
      · rw [choose_of_kept (Or.inl hlist)]
        exact ⟨name :: lines, made, .kept (Or.inl hlist) hreplaces, hmakes,
          (putTogether_cons gap name name last pieces lines).symm⟩
      · rw [choose_of_kept (Or.inr hlist)]
        exact ⟨name :: lines, made, .kept (Or.inr hlist) hreplaces, hmakes,
          (putTogether_cons gap name name last pieces lines).symm⟩
      · have hpos : 0 < (first :: more).length := Nat.succ_pos _
        rw [choose_of_chosen hlist hpos]
        exact ⟨_, _, .chosen hlist _ hreplaces, makes_concat.mpr ⟨_, hmakes, hpos, rfl, rfl⟩,
          (putTogether_cons gap name _ last pieces lines).symm⟩

theorem Cuts.fill_eq (h : Cuts text pieces last)
    (hreplaces : Replaces wildcards (pieces.map Prod.snd) lines made) {s s' : σ}
    (hmakes : Makes s made s') :
    fill wildcards text s = (putTogether pieces lines last, s') := by
  induction h generalizing lines made s' with
  | last hnone =>
      cases hreplaces
      obtain rfl : s' = s := hmakes
      rw [fill_of_none hnone]
      rfl
  | @next text gap name rest last pieces hnext _ ih =>
      rw [hnext.fill_eq]
      cases hreplaces with
      | chosen hlist i hreplaces =>
          obtain ⟨between, hmade, hpos, hi, rfl⟩ := makes_concat.mp hmakes
          obtain rfl := Fin.ext hi
          rw [ih hreplaces hmade, putTogether_cons]
          simp only [choose_of_chosen hlist hpos, Option.getD_some]
      | kept hlist hreplaces =>
          rw [ih hreplaces hmakes, putTogether_cons]
          simp only [choose_of_kept hlist, Option.getD_none]

/-- **Placeholders are replaced at once.** Every text is cut in exactly one way into the next
placeholders, one after another, and the gaps between them. For every supply of choices, expansion
gives the text that is put together from the same gaps and, for each placeholder, a line of the list
that has the placeholder as its name, or the placeholder itself where there is no such list or no
line in it; and what is drawn is one choice for each of the lines, the last one first. -/
theorem placeholders_replaced_at_once (wildcards : Wildcards) (text : Text) :
    ∃ pieces last,
      (∀ pieces' last', Cuts text pieces' last' ↔ pieces' = pieces ∧ last' = last) ∧
      text = putTogether pieces (pieces.map Prod.snd) last ∧
      ∀ {σ : Type} [ChoiceSource σ] (s s' : σ) (out : Text),
        expandPlaceholders wildcards text s = (out, s') ↔
          ∃ lines made, Replaces wildcards (pieces.map Prod.snd) lines made ∧ Makes s made s' ∧
            out = putTogether pieces lines last := by
  obtain ⟨pieces, last, hcuts⟩ := exists_cuts text
  refine ⟨pieces, last, fun pieces' last' => ⟨hcuts.unique, ?_⟩, hcuts.putTogether_eq, ?_⟩
  · rintro ⟨rfl, rfl⟩
    exact hcuts
  intro σ _ s s' out
  rw [expandPlaceholders_eq_fill]
  constructor
  · intro h
    simpa [h] using hcuts.exists_replaces wildcards s
  · rintro ⟨lines, made, hreplaces, hmakes, rfl⟩
    exact hcuts.fill_eq hreplaces hmakes

end TagPrompt
