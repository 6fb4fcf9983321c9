import TagPrompt.Proofs.Expansion.Groups

/-! Where groups end and what they offer, said by counting. A group ends at the first place where as
many marks have closed as opened since it began, and its alternatives are divided by the bars that
stand in no inner group. Reading a group mark by mark gives these alternatives, each nested in
itself, so an alternative that is put in place of its group joins with nothing behind it. -/

namespace TagPrompt

variable {text rest body after : Text} {c : Char} {depth : Nat}

/-- The body of the group that a text begins with, and the text behind that group. -/
def groupAt? (text : Text) : Option (Text × Text) :=
  ((List.range text.length).find? fun place =>
    (text.take (place + 1)).count '<' == (text.take (place + 1)).count '>').map fun place =>
      ((text.take place).drop 1, text.drop (place + 1))

/-- The parts between the bars outside groups, for a text that stands behind `depth` open groups. -/
def alternativesFrom (depth : Nat) : Text → List Text
  | [] => [[]]
  | c :: rest =>
      if c = '|' ∧ depth = 0 then [] :: alternativesFrom 0 rest
      else
        let inner := if c = '<' then depth + 1 else if c = '>' then depth - 1 else depth
        (alternativesFrom inner rest).modifyHead (c :: ·)

/-- The alternatives that the body of a group offers. -/
def alternativesOf (body : Text) : List Text := alternativesFrom 0 body

/-- A text behind `depth` open groups that closes these and all that it opens itself. -/
inductive Nested : Nat → Text → Prop
  | nil : Nested 0 []
  | opening {depth : Nat} {rest : Text} (h : Nested (depth + 1) rest) : Nested depth ('<' :: rest)
  | closing {depth : Nat} {rest : Text} (h : Nested depth rest) : Nested (depth + 1) ('>' :: rest)
  | other {depth : Nat} {c : Char} {rest : Text} (hopen : c ≠ '<') (hclose : c ≠ '>')
      (h : Nested depth rest) : Nested depth (c :: rest)

/-- A text that nowhere closes more than it has opened and the `depth` groups open before it. -/
def StaysWithin (depth : Nat) (text : Text) : Prop :=
  ∀ n, (text.take n).count '>' ≤ (text.take n).count '<' + depth

theorem length_of_groupAt? (h : groupAt? text = some (body, after)) :
    body.length < text.length ∧ after.length < text.length := by
  obtain ⟨place, hplace, heq⟩ := Option.map_eq_some_iff.mp h
  obtain ⟨-, hmem, -⟩ := List.find?_range_eq_some.mp hplace
  obtain ⟨rfl, rfl⟩ := Prod.mk.inj heq
  have hlt := List.mem_range.mp hmem
  simp
  omega

theorem alternativesFrom_ne_nil (depth : Nat) (text : Text) : alternativesFrom depth text ≠ [] := by
  induction text generalizing depth with
  | nil => simp [alternativesFrom]
  | cons c rest ih =>
      rw [alternativesFrom]
      split_ifs <;> simp [ih]

theorem length_alternativesOf_pos (body : Text) : 0 < (alternativesOf body).length :=
  List.length_pos_iff.mpr (alternativesFrom_ne_nil 0 body)

/-- A part is left of the text when what is around it is taken away. -/
theorem sublist_of_mem_alternativesFrom {part : Text} (h : part ∈ alternativesFrom depth text) :
    part.Sublist text := by
  induction text generalizing depth part with
  | nil => simp_all [alternativesFrom]
  | cons c rest ih =>
      rw [alternativesFrom] at h
      split at h
      · rcases List.mem_cons.mp h with rfl | h
        · exact List.nil_sublist _
        · exact (ih h).cons c
      · generalize (if c = '<' then depth + 1 else if c = '>' then depth - 1 else depth) = inner at h
        dsimp only at h
        obtain ⟨first, more, heq⟩ := List.exists_cons_of_ne_nil (alternativesFrom_ne_nil inner rest)
        rw [heq, List.modifyHead_cons, List.mem_cons] at h
        rcases h with rfl | h
        · exact (ih (heq ▸ List.mem_cons_self)).cons_cons c
        · exact (ih (heq ▸ List.mem_cons_of_mem first h)).cons c

theorem length_le_of_mem_alternativesFrom {part : Text} (h : part ∈ alternativesFrom depth text) :
    part.length ≤ text.length :=
  (sublist_of_mem_alternativesFrom h).length_le

/-! ### Mark by mark -/

theorem staysWithin_nil (depth : Nat) : StaysWithin depth [] := by
  intro n
  simp

/-- One more mark in front, where the groups open behind it are at least those that it leaves. -/
theorem StaysWithin.cons {inner : Nat} (h : StaysWithin inner rest)
    (hstep : inner + (if c = '>' then 1 else 0) ≤ depth + (if c = '<' then 1 else 0)) :
    StaysWithin depth (c :: rest) := by
  intro n
  cases n with
  | zero => simp
  | succ n =>
      have := h n
      simp only [List.take_succ_cons, List.count_cons, beq_iff_eq]
      omega

/-! ### Nested texts -/

theorem Nested.append (hfront : Nested depth text) (hrest : Nested 0 rest) :
    Nested depth (text ++ rest) := by
  induction hfront with
  | nil => exact hrest
  | opening _ ih => exact .opening ih
  | closing _ ih => exact .closing ih
  | other hopen hclose _ ih => exact .other hopen hclose ih

/-- The mark that closes the outermost of the open groups splits a nested text. -/
theorem Nested.exists_split (h : Nested (depth + 1) text) :
    ∃ body after, text = body ++ '>' :: after ∧ Nested depth body ∧ Nested 0 after := by
  induction text generalizing depth with
  | nil => cases h
  | cons c rest ih =>
      cases h with
      | opening h =>
          obtain ⟨body, after, rfl, hbody, hafter⟩ := ih h
          exact ⟨'<' :: body, after, rfl, .opening hbody, hafter⟩
      | closing h =>
          cases depth with
          | zero => exact ⟨[], rest, rfl, .nil, h⟩
          | succ depth =>
              obtain ⟨body, after, rfl, hbody, hafter⟩ := ih h
              exact ⟨'>' :: body, after, rfl, .closing hbody, hafter⟩
      | other hopen hclose h =>
          obtain ⟨body, after, rfl, hbody, hafter⟩ := ih h
          exact ⟨c :: body, after, rfl, .other hopen hclose hbody, hafter⟩

theorem Nested.count_eq (h : Nested depth text) : text.count '>' = text.count '<' + depth := by
  induction h with
  | nil => rfl
  | opening _ ih =>
      simp [ih]
      omega
  | closing _ ih =>
      simp [ih]
      omega
  | other hopen hclose _ ih => simp [hopen, hclose, ih]

theorem Nested.staysWithin (h : Nested depth text) : StaysWithin depth text := by
  induction h with
  | nil => exact staysWithin_nil 0
  | opening _ ih => exact ih.cons (by simp)
  | closing _ ih => exact ih.cons (by simp)
  | other hopen hclose _ ih => exact ih.cons (by simp [hopen, hclose])

/-- The parts of a nested text are nested; the first closes the groups that are open before it. -/
theorem Nested.exists_alternatives (h : Nested depth text) :
    ∃ first more, alternativesFrom depth text = first :: more ∧
      Nested depth first ∧ ∀ part ∈ more, Nested 0 part := by
  induction h with
  | nil => exact ⟨[], [], rfl, .nil, by simp⟩
  | opening _ ih =>
      obtain ⟨first, more, heq, hfirst, hmore⟩ := ih
      exact ⟨'<' :: first, more, by simp [alternativesFrom, heq], .opening hfirst, hmore⟩
  | closing _ ih =>
      obtain ⟨first, more, heq, hfirst, hmore⟩ := ih
      exact ⟨'>' :: first, more, by simp [alternativesFrom, heq], .closing hfirst, hmore⟩
  | @other depth c rest hopen hclose _ ih =>
      obtain ⟨first, more, heq, hfirst, hmore⟩ := ih
      by_cases hbar : c = '|' ∧ depth = 0
      · obtain ⟨rfl, rfl⟩ := hbar
        refine ⟨[], first :: more, by simp [alternativesFrom, heq], .nil, ?_⟩
        simpa using ⟨hfirst, hmore⟩
      · refine ⟨c :: first, more, ?_, .other hopen hclose hfirst, hmore⟩
        simp [alternativesFrom, hbar, hopen, hclose, heq]

theorem Nested.of_mem_alternativesOf {part : Text} (h : Nested 0 body)
    (hpart : part ∈ alternativesOf body) : Nested 0 part := by
  obtain ⟨first, more, heq, hfirst, hmore⟩ := h.exists_alternatives
  rw [alternativesOf, heq, List.mem_cons] at hpart
  rcases hpart with rfl | hpart
  · exact hfirst
  · exact hmore part hpart

/-! ### The group that a text begins with -/

/-- Reading on behind open groups comes to the mark that closes the outermost one, or to the end. -/
theorem exists_nested_or_staysWithin (depth : Nat) (text : Text) :
    (∃ body after, text = body ++ '>' :: after ∧ Nested depth body) ∨
      StaysWithin depth text ∧ ∀ held done, ChoiceGroup.readFrom depth held done text = none := by
  induction text generalizing depth with
  | nil => exact .inr ⟨staysWithin_nil depth, fun _ _ => rfl⟩
  | cons c rest ih =>
      by_cases hopen : c = '<'
      · subst hopen
        rcases ih (depth + 1) with ⟨body, after, rfl, hbody⟩ | ⟨hwithin, hread⟩
        · exact .inl ⟨'<' :: body, after, rfl, .opening hbody⟩
        · refine .inr ⟨hwithin.cons (by simp), fun held done => ?_⟩
          rw [ChoiceGroup.readFrom_opening, hread]
      by_cases hclose : c = '>'
      · subst hclose
        cases depth with
        | zero => exact .inl ⟨[], rest, rfl, .nil⟩
        | succ depth =>
            rcases ih depth with ⟨body, after, rfl, hbody⟩ | ⟨hwithin, hread⟩
            · exact .inl ⟨'>' :: body, after, rfl, .closing hbody⟩
            · refine .inr ⟨hwithin.cons (by simp), fun held done => ?_⟩
              rw [ChoiceGroup.readFrom_closing, hread]
      rcases ih depth with ⟨body, after, rfl, hbody⟩ | ⟨hwithin, hread⟩
      · exact .inl ⟨c :: body, after, rfl, .other hopen hclose hbody⟩
      · refine .inr ⟨hwithin.cons (by simp [hopen, hclose]), fun held done => ?_⟩
        by_cases hbar : c = '|' ∧ depth = 0
        · obtain ⟨rfl, rfl⟩ := hbar
          rw [ChoiceGroup.readFrom_bar, hread]
        · rw [ChoiceGroup.readFrom_other held done hopen hclose hbar, hread]

/-- What reading a group makes of its body: `held` goes in front of the first alternative. -/
theorem Nested.exists_readFrom (h : Nested depth body) (held : Text) (done : List Text)
    (after : Text) :
    ∃ group, ChoiceGroup.readFrom depth held done (body ++ '>' :: after) = some group ∧
      group.alternatives =
        done.reverse ++ (alternativesFrom depth body).modifyHead (held.reverse ++ ·) ∧
      group.after = after := by
  induction h generalizing held done with
  | nil => simpa [alternativesFrom] using ChoiceGroup.exists_readFrom_end held done after
  | opening _ ih =>
      simpa [ChoiceGroup.readFrom_opening, alternativesFrom, List.modifyHead_modifyHead,
        Function.comp_def] using ih ('<' :: held) done
  | closing _ ih =>
      simpa [ChoiceGroup.readFrom_closing, alternativesFrom, List.modifyHead_modifyHead,
        Function.comp_def] using ih ('>' :: held) done
  | @other depth c rest hopen hclose h ih =>
      by_cases hbar : c = '|' ∧ depth = 0
      · obtain ⟨rfl, rfl⟩ := hbar
        obtain ⟨first, more, heq, -, -⟩ := h.exists_alternatives
        simpa [ChoiceGroup.readFrom_bar, alternativesFrom, heq] using ih [] (held.reverse :: done)
      · simpa [ChoiceGroup.readFrom_other held done hopen hclose hbar, alternativesFrom, hopen,
          hclose, hbar, List.modifyHead_modifyHead, Function.comp_def] using ih (c :: held) done

theorem groupAt?_of_nested (h : Nested 0 body) (after : Text) :
    groupAt? ('<' :: (body ++ '>' :: after)) = some (body, after) := by
  -- before the end the opening mark itself keeps the counts apart, as the body stays within it
  have hplace : (List.range ('<' :: (body ++ '>' :: after)).length).find? (fun place =>
      (('<' :: (body ++ '>' :: after)).take (place + 1)).count '<' ==
        (('<' :: (body ++ '>' :: after)).take (place + 1)).count '>') = some (body.length + 1) := by
    refine List.find?_range_eq_some.mpr ⟨?_, by simp, fun place hlt => ?_⟩
    · simp [List.take_append, List.take_of_length_le, h.count_eq]
    · have hwithin := h.staysWithin place
      simp [List.take_append_of_le_length (Nat.le_of_lt_succ hlt)]
      omega
  rw [groupAt?, hplace]
  simp [List.drop_append]

theorem groupAt?_of_staysWithin (h : StaysWithin 0 rest) : groupAt? ('<' :: rest) = none := by
  rw [groupAt?, Option.map_eq_none_iff, List.find?_range_eq_none]
  intro place _
  have := h place
  simp
  omega

theorem Nested.exists_read? (h : Nested 0 body) (after : Text) :
    ∃ group, ChoiceGroup.read? (body ++ '>' :: after) = some group ∧
      group.alternatives = alternativesOf body ∧ group.after = after := by
  obtain ⟨first, more, heq, -, -⟩ := h.exists_alternatives
  simpa [ChoiceGroup.read?, alternativesOf, heq] using h.exists_readFrom [] [] after

theorem nested_of_groupAt? (h : groupAt? ('<' :: rest) = some (body, after)) :
    Nested 0 body ∧ rest = body ++ '>' :: after := by
  rcases exists_nested_or_staysWithin 0 rest with ⟨body', after', rfl, hbody⟩ | ⟨hwithin, -⟩
  · rw [groupAt?_of_nested hbody, Option.some.injEq, Prod.mk.injEq] at h
    obtain ⟨rfl, rfl⟩ := h
    exact ⟨hbody, rfl⟩
  · rw [groupAt?_of_staysWithin hwithin] at h
    cases h

theorem read?_eq_none_of_groupAt? (h : groupAt? ('<' :: rest) = none) :
    ChoiceGroup.read? rest = none := by
  rcases exists_nested_or_staysWithin 0 rest with ⟨body, after, rfl, hbody⟩ | ⟨-, hread⟩
  · rw [groupAt?_of_nested hbody] at h
    cases h
  · exact hread [] []

/-- No group is read exactly where the text nowhere closes more than it opens. -/
theorem read?_eq_none_iff : ChoiceGroup.read? rest = none ↔ StaysWithin 0 rest := by
  rcases exists_nested_or_staysWithin 0 rest with ⟨body, after, rfl, hbody⟩ | ⟨hwithin, hread⟩
  · obtain ⟨group, hgroup, -, -⟩ := hbody.exists_read? after
    refine iff_of_false (by simp [hgroup]) fun hwithin => ?_
    have htake : (body ++ '>' :: after).take (body.length + 1) = body ++ ['>'] := by
      simp [List.take_append, List.take_of_length_le]
    have hclosed := hwithin (body.length + 1)
    rw [htake, List.count_append, List.count_append, hbody.count_eq,
      show ['>'].count '>' = 1 from rfl, show ['>'].count '<' = 0 from rfl] at hclosed
    omega
  · exact iff_of_true (hread [] []) hwithin

/-- An alternative put in place of its group is left when the rest of the group is taken away. -/
theorem ChoiceGroup.splice_sublist {group : ChoiceGroup} (h : ChoiceGroup.read? text = some group)
    {alternative : Text} (hmem : alternative ∈ group.alternatives) :
    (alternative ++ group.after).Sublist text := by
  rcases exists_nested_or_staysWithin 0 text with ⟨body, after, rfl, hbody⟩ | ⟨-, hread⟩
  · obtain ⟨group', hgroup', halternatives, rfl⟩ := hbody.exists_read? after
    obtain rfl : group' = group := Option.some.inj (hgroup'.symm.trans h)
    rw [halternatives] at hmem
    exact (sublist_of_mem_alternativesFrom hmem).append (List.sublist_cons_self '>' _)
  · cases (hread [] []).symm.trans h

end TagPrompt
