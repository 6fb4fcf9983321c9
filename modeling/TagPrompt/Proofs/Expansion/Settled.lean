import TagPrompt.Expansion.Placeholder
import TagPrompt.Proofs.Expansion.Nesting

/-! Expanded texts. What is left of a text has no group that closes in front of its first opening
mark, and nothing closes the group that this mark opens. Such a text has nothing left to choose, so
expanding it again returns it as it is. -/

namespace TagPrompt

variable {σ : Type} [ChoiceSource σ] {text rest : Text} {c : Char}

/-- The first opening mark of the text, if it has one, is nowhere matched by a closing mark: behind
it, the text nowhere closes more groups than it opens. -/
def Settled (text : Text) : Prop :=
  ∀ front rest, text = front ++ '<' :: rest → '<' ∉ front → StaysWithin 0 rest

theorem settled_nil : Settled [] := by
  intro front rest h
  simp at h

theorem settled_open (h : StaysWithin 0 rest) : Settled ('<' :: rest) := by
  intro front rest' heq hfront
  cases front with
  | nil =>
      obtain ⟨-, rfl⟩ := List.cons.inj heq
      exact h
  | cons d front =>
      obtain ⟨rfl, -⟩ := List.cons.inj heq
      exact absurd List.mem_cons_self hfront

theorem settled_cons_iff (hc : c ≠ '<') : Settled (c :: rest) ↔ Settled rest := by
  constructor
  · rintro h front rest' rfl hfront
    refine h (c :: front) rest' rfl ?_
    simp [hfront, Ne.symm hc]
  · intro h front rest' heq hfront
    cases front with
    | nil => exact absurd (List.cons.inj heq).1 hc
    | cons d front =>
        obtain ⟨rfl, rfl⟩ := List.cons.inj heq
        exact h front rest' rfl (mt (List.mem_cons_of_mem c) hfront)

/-- Whatever is chosen, nothing that could be chosen is left. -/
theorem settled_expandGroups (text : Text) (s : σ) : Settled (expandGroups text s).1 := by
  fun_induction expandGroups text s with
  | case1 s => exact settled_nil
  | case2 s rest hread => exact settled_open (read?_eq_none_iff.mp hread)
  | case3 s rest group hgroup choice _ ih => exact ih
  | case4 s c rest hc expanded s' hrest ih =>
      rw [hrest] at ih
      exact (settled_cons_iff hc).mpr ih

theorem expandGroups_of_settled (h : Settled text) (s : σ) : expandGroups text s = (text, s) := by
  induction text with
  | nil => exact expandGroups_nil s
  | cons c rest ih =>
      by_cases hc : c = '<'
      · subst hc
        exact expandGroups_open (read?_eq_none_iff.mpr (h [] rest rfl List.not_mem_nil)) s
      · rw [expandGroups_cons hc, ih ((settled_cons_iff hc).mp h)]

/-- **Expanded texts are settled.** Whatever supply makes the choices, and whatever the text leaves
open or the lines of placeholders bring along: in the expansion of the groups of a text, and in its
full expansion, the first opening mark is nowhere matched. So expanding the groups once more, with
any supply, returns it as it is and asks for no choice. Only settled texts are returned as they
are. The scan of a text in place ends in the same expansion, by `rescanning_ends`, so what it
leaves is settled and a second scan of that replaces nothing. -/
theorem expansion_is_settled (wildcards : Wildcards) (text : Text) {σ : Type} [ChoiceSource σ]
    (s : σ) :
    let once := (expandGroups text s).1
    let full := (expand wildcards text s).1
    Settled once ∧ Settled full ∧
      (∀ {τ : Type} [ChoiceSource τ] (s' : τ),
        expandGroups once s' = (once, s') ∧ expandGroups full s' = (full, s')) ∧
      (once = text ↔ Settled text) := by
  intro once full
  have honce : Settled once := settled_expandGroups text s
  have hfull : Settled full := settled_expandGroups _ _
  refine ⟨honce, hfull, fun s' => ⟨expandGroups_of_settled honce s', ?_⟩, ?_, ?_⟩
  · exact expandGroups_of_settled hfull s'
  · intro h
    rwa [← h]
  · intro h
    exact congrArg Prod.fst (expandGroups_of_settled h s)

end TagPrompt
