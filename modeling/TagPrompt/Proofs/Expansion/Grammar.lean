import Mathlib.Data.Set.Basic
import Mathlib.Data.Stream.Init
import TagPrompt.Proofs.Expansion.Nesting

/-! The grammar of choice groups. A text is evaluated from its outermost groups inwards: a group is
one choice, the chosen alternative is evaluated on its own, and the text behind the group after it.
Expansion, which puts the alternative in place of the group and reads on there, is this evaluation:
alternatives are nested, so none takes in what stands behind its group. -/

namespace TagPrompt

variable {σ : Type} [ChoiceSource σ] {text rest body after : Text} {c : Char}

/-- Evaluates a text: the outermost groups one after another, each by an alternative of its own. -/
def evaluate (text : Text) (s : σ) : Text × σ :=
  match text with
  | [] => ([], s)
  | c :: rest =>
      if c = '<' then
        match h : groupAt? (c :: rest) with
        | none => (c :: rest, s)
        | some (body, after) =>
            have := length_of_groupAt? h
            let (i, s) := ChoiceSource.choose (alternativesOf body).length
              (length_alternativesOf_pos body) s
            have := length_le_of_mem_alternativesFrom (List.get_mem (alternativesOf body) i)
            let (chosen, s) := evaluate ((alternativesOf body).get i) s
            let (behind, s) := evaluate after s
            (chosen ++ behind, s)
      else
        let (behind, s) := evaluate rest s
        (c :: behind, s)
termination_by text.length
decreasing_by
  all_goals simp only [List.length_cons] at *; omega

/-- The texts that a text stands for, each with the choices that give it, in order: of how many
alternatives which one. -/
inductive Derives : Text → List (Nat × Nat) → Text → Prop
  | nil : Derives [] [] []
  | character {c : Char} {rest out : Text} {made : List (Nat × Nat)} (hc : c ≠ '<')
      (h : Derives rest made out) : Derives (c :: rest) made (c :: out)
  | unclosed {rest : Text} (h : groupAt? ('<' :: rest) = none) :
      Derives ('<' :: rest) [] ('<' :: rest)
  | group {rest body after chosen behind : Text} {made made' : List (Nat × Nat)}
      (h : groupAt? ('<' :: rest) = some (body, after)) (i : Fin (alternativesOf body).length)
      (hchosen : Derives ((alternativesOf body).get i) made chosen)
      (hbehind : Derives after made' behind) :
      Derives ('<' :: rest) (((alternativesOf body).length, i.val) :: (made ++ made'))
        (chosen ++ behind)

/-- A supply that is asked for choices in turn: what it answers, and what is left of it. -/
def Makes (s : σ) : List (Nat × Nat) → σ → Prop
  | [], s' => s' = s
  | (n, i) :: made, s' => ∃ hn : 0 < n, (ChoiceSource.choose n hn s).1.val = i ∧
      Makes (ChoiceSource.choose n hn s).2 made s'

/-- A stream of positions as a supply, each position brought into range. -/
instance : ChoiceSource (Stream' Nat) :=
  ⟨fun n hn positions => (⟨positions.head % n, Nat.mod_lt _ hn⟩, positions.tail)⟩

/-! ### Expansion is evaluation -/

theorem choose_get_eq_pickOne {α : Type} {items : List α} {first : α} {more : List α}
    (h : items = first :: more) (hpos : 0 < items.length) (s : σ) :
    ChoiceSource.pickOne first more s =
      (items.get (ChoiceSource.choose items.length hpos s).1,
        (ChoiceSource.choose items.length hpos s).2) := by
  subst h
  rfl

/-- A group is replaced by the alternative chosen. -/
theorem expandGroups_of_nested (h : Nested 0 body) (after : Text) (s : σ) :
    expandGroups ('<' :: (body ++ '>' :: after)) s =
      let choice := ChoiceSource.choose _ (length_alternativesOf_pos body) s
      expandGroups ((alternativesOf body).get choice.1 ++ after) choice.2 := by
  obtain ⟨group, hread, halternatives, rfl⟩ := h.exists_read? after
  rw [expandGroups_group hread,
    choose_get_eq_pickOne halternatives.symm (length_alternativesOf_pos body)]

/-- A nested text leaves no group open, so it is expanded before anything behind it. -/
theorem expandGroups_append_of_nested {front : Text} (h : Nested 0 front) (rest : Text) (s : σ) :
    expandGroups (front ++ rest) s =
      ((expandGroups front s).1 ++ (expandGroups rest (expandGroups front s).2).1,
        (expandGroups rest (expandGroups front s).2).2) := by
  -- the expansion of `front` goes on with a shorter text, not with a part of `front`
  induction hlength : front.length using Nat.strong_induction_on generalizing front s with
  | _ length ih =>
      subst hlength
      cases h with
      | nil => rw [List.nil_append, expandGroups_nil, List.nil_append]
      | opening h =>
          obtain ⟨body, after, rfl, hbody, hafter⟩ := h.exists_split
          let choice := ChoiceSource.choose _ (length_alternativesOf_pos body) s
          have hmem := List.get_mem (alternativesOf body) choice.1
          have hnested := (hbody.of_mem_alternativesOf hmem).append hafter
          have hshort := length_le_of_mem_alternativesFrom hmem
          have hspliced := ih ((alternativesOf body).get choice.1 ++ after).length
            (by simp only [List.length_cons, List.length_append]; omega) hnested choice.2 rfl
          rw [List.append_assoc] at hspliced
          rw [List.cons_append, List.append_assoc, List.cons_append, expandGroups_of_nested hbody,
            expandGroups_of_nested hbody]
          exact hspliced
      | other hopen _ h =>
          rw [List.cons_append, expandGroups_cons hopen, expandGroups_cons hopen,
            ih _ (by simp) h s rfl, List.cons_append]

theorem expandGroups_eq_evaluate (text : Text) (s : σ) : expandGroups text s = evaluate text s := by
  fun_induction evaluate text s with
  | case1 s => exact expandGroups_nil s
  | case2 s rest h => exact expandGroups_open (read?_eq_none_of_groupAt? h) s
  | case3 s rest body after i s₁ hchoice _ chosen s₂ hchosen behind s₃ hbehind h _ ih ih' =>
      obtain ⟨hbody, rfl⟩ := nested_of_groupAt? h
      have hnested := hbody.of_mem_alternativesOf (List.get_mem (alternativesOf body) i)
      rw [expandGroups_of_nested hbody, hchoice]
      dsimp only
      rw [expandGroups_append_of_nested hnested, ih, hchosen, ih', hbehind]
  | case4 s c rest hc behind s' hbehind ih => rw [expandGroups_cons hc, ih, hbehind]

/-! ### Evaluation is derivation -/

theorem makes_append {s s' : σ} {made made' : List (Nat × Nat)} :
    Makes s (made ++ made') s' ↔ ∃ between, Makes s made between ∧ Makes between made' s' := by
  induction made generalizing s with
  | nil => simp [Makes]
  | cons choice made ih =>
      obtain ⟨n, i⟩ := choice
      simp only [List.cons_append, Makes, ih]
      constructor
      · rintro ⟨hn, hi, between, hmade, hmade'⟩
        exact ⟨between, ⟨hn, hi, hmade⟩, hmade'⟩
      · rintro ⟨between, ⟨hn, hi, hmade⟩, hmade'⟩
        exact ⟨hn, hi, between, hmade, hmade'⟩

theorem exists_derives_evaluate (text : Text) (s : σ) :
    ∃ made, Makes s made (evaluate text s).2 ∧ Derives text made (evaluate text s).1 := by
  fun_induction evaluate text s with
  | case1 s => exact ⟨[], rfl, .nil⟩
  | case2 s rest h => exact ⟨[], rfl, .unclosed h⟩
  | case3 s rest body after i s₁ hchoice _ chosen s₂ hchosen behind s₃ hbehind h _ ih ih' =>
      rw [hchosen] at ih
      rw [hbehind] at ih'
      obtain ⟨made, hmade, hderives⟩ := ih
      obtain ⟨made', hmade', hderives'⟩ := ih'
      refine ⟨((alternativesOf body).length, i.val) :: (made ++ made'),
        ⟨length_alternativesOf_pos body, ?_, ?_⟩, .group h i hderives hderives'⟩
      · rw [hchoice]
      · rw [hchoice]
        exact makes_append.mpr ⟨s₂, hmade, hmade'⟩
  | case4 s c rest hc behind s' hbehind ih =>
      rw [hbehind] at ih
      obtain ⟨made, hmade, hderives⟩ := ih
      exact ⟨made, hmade, .character hc hderives⟩

theorem Derives.evaluate_eq {made : List (Nat × Nat)} {out : Text} (h : Derives text made out)
    {s s' : σ} (hmakes : Makes s made s') : evaluate text s = (out, s') := by
  induction h generalizing s s' with
  | nil =>
      obtain rfl : s' = s := hmakes
      rw [evaluate]
  | character hc _ ih => rw [evaluate, if_neg hc, ih hmakes]
  | unclosed h =>
      obtain rfl : s' = s := hmakes
      rw [evaluate, if_pos rfl]
      split
      · rfl
      · simp_all
  | @group rest body after chosen behind made made' h i _ _ ih ih' =>
      obtain ⟨hn, hi, hmade⟩ := hmakes
      obtain ⟨between, hmade, hmade'⟩ := makes_append.mp hmade
      obtain rfl := Fin.ext hi
      rw [evaluate, if_pos rfl]
      split
      · simp_all
      · rename_i body' after' h'
        obtain ⟨rfl, rfl⟩ : body' = body ∧ after' = after := by simpa [h] using h'.symm
        simp only [ih hmade, ih' hmade']

/-- The positions of a derivation, drawn from a stream, make its choices. -/
theorem Derives.makes_stream {made : List (Nat × Nat)} {out : Text} (h : Derives text made out)
    (rest : Stream' Nat) : Makes (made.map Prod.snd ++ₛ rest) made rest := by
  induction h generalizing rest with
  | nil => rfl
  | character _ _ ih => exact ih rest
  | unclosed _ => rfl
  | @group _ body _ _ _ made made' _ i _ _ ih ih' =>
      refine ⟨length_alternativesOf_pos body, Nat.mod_eq_of_lt i.isLt, ?_⟩
      change Makes ((made ++ made').map Prod.snd ++ₛ rest) (made ++ made') rest
      rw [List.map_append, Stream'.append_append_stream]
      exact makes_append.mpr ⟨_, ih _, ih' rest⟩

/-- **Expansion follows the grammar.** Expanding a text by splicing is evaluating it from its
outermost groups inwards, with the same result and the same supply left, for every supply of choices;
and it ends in a result exactly when the choices that the supply makes derive that result. So the
results over all streams of positions are the texts that are derived. The scan of the text in place
has the results of splicing and no others, by `rescanning_ends`, so all this holds of it as well. -/
theorem expansion_follows_grammar (text : Text) :
    (∀ {σ : Type} [ChoiceSource σ] (s : σ), expandGroups text s = evaluate text s) ∧
      (∀ {σ : Type} [ChoiceSource σ] (s s' : σ) (out : Text), expandGroups text s = (out, s') ↔
        ∃ made, Makes s made s' ∧ Derives text made out) ∧
      {out | ∃ positions : Stream' Nat, (expandGroups text positions).1 = out} =
        {out | ∃ made, Derives text made out} := by
  have hderives : ∀ {σ : Type} [ChoiceSource σ] (s s' : σ) (out : Text),
      expandGroups text s = (out, s') ↔ ∃ made, Makes s made s' ∧ Derives text made out := by
    intro σ _ s s' out
    rw [expandGroups_eq_evaluate]
    constructor
    · intro h
      simpa [h] using exists_derives_evaluate text s
    · rintro ⟨made, hmakes, h⟩
      exact h.evaluate_eq hmakes
  refine ⟨expandGroups_eq_evaluate text, hderives, ?_⟩
  ext out
  constructor
  · rintro ⟨positions, rfl⟩
    obtain ⟨made, -, h⟩ := (hderives positions _ _).mp rfl
    exact ⟨made, h⟩
  · rintro ⟨made, h⟩
    let rest : Stream' Nat := Stream'.const 0
    exact ⟨made.map Prod.snd ++ₛ rest,
      congrArg Prod.fst ((hderives _ rest out).mpr ⟨made, h.makes_stream rest, h⟩)⟩

end TagPrompt
