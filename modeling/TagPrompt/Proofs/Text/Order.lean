import Mathlib.Data.List.Sort
import TagPrompt.Text.Basic

/-! The order of texts by code points is total, so sorting depends on the texts alone and not on the
order in which they were given. -/

namespace TagPrompt.Text

theorem precedes_cons {c d : Char} {s t : Text} :
    precedes (c :: s) (d :: t) = true ↔
      c.toNat < d.toNat ∨ c.toNat = d.toNat ∧ precedes s t = true := by
  simp only [precedes, Bool.or_eq_true, Bool.and_eq_true, decide_eq_true_eq, beq_iff_eq]

theorem precedes_total (s t : Text) : precedes s t = true ∨ precedes t s = true := by
  induction s generalizing t with
  | nil => exact Or.inl rfl
  | cons c s ih =>
      cases t with
      | nil => exact Or.inr rfl
      | cons d t =>
          rw [precedes_cons, precedes_cons]
          rcases Nat.lt_trichotomy c.toNat d.toNat with hlt | heq | hgt
          · exact Or.inl (Or.inl hlt)
          · exact (ih t).imp (fun h => Or.inr ⟨heq, h⟩) fun h => Or.inr ⟨heq.symm, h⟩
          · exact Or.inr (Or.inl hgt)

theorem precedes_trans {s t u : Text} (hst : precedes s t = true) (htu : precedes t u = true) :
    precedes s u = true := by
  induction s generalizing t u with
  | nil => rfl
  | cons c s ih =>
      cases t with
      | nil => cases hst
      | cons d t =>
          cases u with
          | nil => cases htu
          | cons e u =>
              rw [precedes_cons] at hst htu ⊢
              rcases hst with hcd | ⟨hcd, hst⟩
              · exact Or.inl (by omega)
              · rcases htu with hde | ⟨hde, htu⟩
                · exact Or.inl (by omega)
                · exact Or.inr ⟨hcd.trans hde, ih hst htu⟩

theorem precedes_antisymm {s t : Text} (hst : precedes s t = true) (hts : precedes t s = true) :
    s = t := by
  induction s generalizing t with
  | nil =>
      cases t with
      | nil => rfl
      | cons d t => cases hts
  | cons c s ih =>
      cases t with
      | nil => cases hst
      | cons d t =>
          rw [precedes_cons] at hst hts
          rcases hst with hlt | ⟨heq, hst⟩
          · omega
          · rcases hts with hlt | ⟨-, hts⟩
            · omega
            · rw [Char.toNat_inj.mp heq, ih hst hts]

theorem sorted_perm (ts : List Text) : (sorted ts).Perm ts := List.mergeSort_perm ts precedes

theorem mem_sorted {ts : List Text} {t : Text} : t ∈ sorted ts ↔ t ∈ ts := (sorted_perm ts).mem_iff

theorem pairwise_sorted (ts : List Text) : (sorted ts).Pairwise fun s t => precedes s t = true := by
  have htotal : ∀ s t : Text, (precedes s t || precedes t s) = true := by
    intro s t
    rw [Bool.or_eq_true]
    exact precedes_total s t
  exact @List.pairwise_mergeSort Text precedes (fun _ _ _ => precedes_trans) htotal ts

/-- Lists without repetitions sort alike exactly when they hold the same texts. -/
theorem sorted_eq_iff {ts us : List Text} (hts : ts.Nodup) (hus : us.Nodup) :
    sorted ts = sorted us ↔ ∀ t, t ∈ ts ↔ t ∈ us := by
  constructor
  · intro h t
    rw [← mem_sorted, h, mem_sorted]
  · intro h
    have hperm : (sorted ts).Perm (sorted us) :=
      calc
        (sorted ts).Perm ts := sorted_perm ts
        ts.Perm us := (List.perm_ext_iff_of_nodup hts hus).mpr h
        us.Perm (sorted us) := (sorted_perm us).symm
    exact hperm.eq_of_pairwise (fun _ _ _ _ => precedes_antisymm) (pairwise_sorted ts)
      (pairwise_sorted us)

end TagPrompt.Text
