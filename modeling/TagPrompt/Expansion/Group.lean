import TagPrompt.Choice.Basic
import TagPrompt.Text.Basic

/-! Choice groups. A group `<a|b|c>` stands for one of its alternatives, which may hold groups in
turn. Expansion replaces the leftmost group by the alternative chosen and reads on at the place
where the group began, so that groups inside the chosen alternative come next and those of the
others never. A group that is not closed is no group, nor is anything after its opening; a closing
mark or a bar outside groups stands for itself. -/

namespace TagPrompt

/-- A group after its opening mark: its alternatives and the text behind it. -/
structure ChoiceGroup where
  first : Text
  more : List Text
  after : Text

namespace ChoiceGroup

/-- Reads a group up to its closing mark. `depth` counts the inner groups that are open, `held` is
the current alternative so far, newest character first, and `done` the alternatives before it, the
newest first. -/
def readFrom (depth : Nat) (held : Text) (done : List Text) : Text → Option ChoiceGroup
  | [] => none
  | c :: rest =>
      if c = '<' then readFrom (depth + 1) (c :: held) done rest
      else if c = '>' then
        match depth with
        | 0 =>
            match done.reverse with
            | [] => some ⟨held.reverse, [], rest⟩
            | first :: more => some ⟨first, more ++ [held.reverse], rest⟩
        | inner + 1 => readFrom inner (c :: held) done rest
      else if c = '|' ∧ depth = 0 then readFrom 0 [] (held.reverse :: done) rest
      else readFrom depth (c :: held) done rest

/-- Reads a group whose opening mark has just been passed; one that never closes is none. -/
def read? (text : Text) : Option ChoiceGroup := readFrom 0 [] [] text

def alternatives (group : ChoiceGroup) : List Text := group.first :: group.more

/-! ### Mark by mark -/

section

variable {c : Char} {depth : Nat} (held : Text) (done : List Text)

theorem readFrom_opening (depth : Nat) (rest : Text) :
    readFrom depth held done ('<' :: rest) = readFrom (depth + 1) ('<' :: held) done rest := by
  simp [readFrom]

theorem readFrom_closing (depth : Nat) (rest : Text) :
    readFrom (depth + 1) held done ('>' :: rest) = readFrom depth ('>' :: held) done rest := by
  simp [readFrom]

theorem readFrom_bar (rest : Text) :
    readFrom 0 held done ('|' :: rest) = readFrom 0 [] (held.reverse :: done) rest := by
  simp [readFrom]

theorem readFrom_other (hopen : c ≠ '<') (hclose : c ≠ '>') (hbar : ¬(c = '|' ∧ depth = 0))
    (rest : Text) : readFrom depth held done (c :: rest) = readFrom depth (c :: held) done rest := by
  simp [readFrom, hopen, hclose, hbar]

theorem exists_readFrom_end (rest : Text) :
    ∃ group, readFrom 0 held done ('>' :: rest) = some group ∧
      group.alternatives = done.reverse ++ [held.reverse] ∧ group.after = rest := by
  cases hdone : done.reverse with
  | nil => exact ⟨⟨held.reverse, [], rest⟩, by simp [readFrom, hdone], rfl, rfl⟩
  | cons first more =>
      exact ⟨⟨first, more ++ [held.reverse], rest⟩, by simp [readFrom, hdone], rfl, rfl⟩

/-- Whatever its mark, a character is held, or the next alternative begins behind it, or the group
ends there. -/
theorem readFrom_cons_cases (depth : Nat) (c : Char) (rest : Text) :
    (∃ inner, readFrom depth held done (c :: rest) = readFrom inner (c :: held) done rest) ∨
      readFrom depth held done (c :: rest) = readFrom 0 [] (held.reverse :: done) rest ∨
      ∃ group, readFrom depth held done (c :: rest) = some group ∧
        group.alternatives = done.reverse ++ [held.reverse] ∧ group.after = rest := by
  by_cases hopen : c = '<'
  · subst hopen
    exact .inl ⟨depth + 1, readFrom_opening held done depth rest⟩
  by_cases hclose : c = '>'
  · subst hclose
    cases depth with
    | zero => exact .inr (.inr (exists_readFrom_end held done rest))
    | succ inner => exact .inl ⟨inner, readFrom_closing held done inner rest⟩
  by_cases hbar : c = '|' ∧ depth = 0
  · obtain ⟨rfl, rfl⟩ := hbar
    exact .inr (.inl (readFrom_bar held done rest))
  · exact .inl ⟨depth, readFrom_other held done hopen hclose hbar rest⟩

end

/-! ### Groups are longer than their alternatives -/

/-- While a group is read, every alternative so far keeps to a bound together with the text still to
be read; in the end the closing mark has been read as well, so they stay below it. -/
theorem length_alternative_readFrom {text : Text} {depth bound : Nat} {held : Text}
    {done : List Text} {group : ChoiceGroup} (h : readFrom depth held done text = some group)
    (hheld : held.length + text.length ≤ bound)
    (hdone : ∀ known ∈ done, known.length + text.length ≤ bound) {alternative : Text}
    (hmem : alternative ∈ group.alternatives) :
    alternative.length + group.after.length < bound := by
  induction text generalizing depth held done with
  | nil => cases h
  | cons c rest ih =>
      rw [List.length_cons] at hheld
      have hrest : ∀ known ∈ done, known.length + rest.length < bound := hdone
      have hkept : ∀ known ∈ done, known.length + rest.length ≤ bound :=
        fun known hknown => Nat.le_of_lt (hrest known hknown)
      rcases readFrom_cons_cases held done depth c rest with
        ⟨inner, hread⟩ | hread | ⟨closed, hread, halternatives, hafter⟩
      · rw [hread] at h
        refine ih h ?_ hkept
        rw [List.length_cons]
        omega
      · rw [hread] at h
        refine ih h ?_ (List.forall_mem_cons.mpr ⟨?_, hkept⟩)
        · rw [List.length_nil]
          omega
        · rw [List.length_reverse]
          omega
      · obtain rfl : closed = group := Option.some.inj (hread.symm.trans h)
        rw [halternatives, List.mem_append, List.mem_reverse, List.mem_singleton] at hmem
        rw [hafter]
        rcases hmem with hknown | rfl
        · exact hrest alternative hknown
        · rw [List.length_reverse]
          omega

/-- Splicing an alternative in place of its group makes the text shorter. -/
theorem length_splice_lt {text : Text} {group : ChoiceGroup} (h : read? text = some group)
    {alternative : Text} (mem : alternative ∈ group.alternatives) :
    (alternative ++ group.after).length < text.length := by
  rw [List.length_append]
  exact length_alternative_readFrom h (Nat.le_of_eq (Nat.zero_add _)) nofun mem

end ChoiceGroup

/-- Expands the groups of a text, one choice for each group that is met. -/
def expandGroups {σ : Type} [ChoiceSource σ] (text : Text) (s : σ) : Text × σ :=
  match text with
  | [] => ([], s)
  | c :: rest =>
      if c = '<' then
        match h : ChoiceGroup.read? rest with
        | none => (c :: rest, s)
        | some group =>
            let choice := ChoiceSource.choose group.alternatives.length (Nat.succ_pos _) s
            have := ChoiceGroup.length_splice_lt h (List.get_mem group.alternatives choice.1)
            expandGroups (group.alternatives.get choice.1 ++ group.after) choice.2
      else
        let (expanded, s) := expandGroups rest s
        (c :: expanded, s)
termination_by text.length
decreasing_by
  · exact Nat.lt_succ_of_lt this
  · exact Nat.lt_succ_self _

end TagPrompt
