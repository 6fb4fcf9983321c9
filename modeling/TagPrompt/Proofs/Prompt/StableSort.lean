import Mathlib.Data.List.Sort

/-! Sorting by rank without changing the order of items of one rank. There is only one list that is
in order of rank and holds the items of every rank as they stood. Where one part of a list ranks
below the rest, that list is put together from those of the two parts. -/

namespace TagPrompt

variable {α ρ : Type} [LinearOrder ρ] {rank : α → ρ} {items items' : List α}

/-- The items of one rank, as they stand. -/
def atRank (rank : α → ρ) (r : ρ) (items : List α) : List α :=
  items.filter fun item => rank item = r

/-- The items in order of rank, those of one rank as they stood. -/
structure IsStableSort (rank : α → ρ) (items sorted : List α) : Prop where
  ordered : sorted.Pairwise fun a b => rank a ≤ rank b
  atRank_eq : ∀ r, atRank rank r sorted = atRank rank r items

theorem mem_atRank {r : ρ} {item : α} :
    item ∈ atRank rank r items ↔ item ∈ items ∧ rank item = r := by
  rw [atRank, List.mem_filter, decide_eq_true_eq]

theorem mem_iff_of_atRank_eq (h : ∀ r, atRank rank r items = atRank rank r items') (item : α) :
    item ∈ items ↔ item ∈ items' :=
  calc item ∈ items
    _ ↔ item ∈ atRank rank (rank item) items := (mem_atRank.trans (and_iff_left rfl)).symm
    _ ↔ item ∈ atRank rank (rank item) items' := by rw [h]
    _ ↔ item ∈ items' := mem_atRank.trans (and_iff_left rfl)

theorem atRank_cons (r : ρ) (first : α) (rest : List α) :
    atRank rank r (first :: rest) =
      if rank first = r then first :: atRank rank r rest else atRank rank r rest := by
  rw [atRank, List.filter_cons]
  simp only [decide_eq_true_eq]
  rfl

theorem atRank_append (r : ρ) (front back : List α) :
    atRank rank r (front ++ back) = atRank rank r front ++ atRank rank r back :=
  List.filter_append ..

/-- Lists in order of rank are determined by what they hold at every rank. -/
theorem eq_of_atRank_eq (hordered : items.Pairwise fun a b => rank a ≤ rank b)
    (hordered' : items'.Pairwise fun a b => rank a ≤ rank b)
    (h : ∀ r, atRank rank r items = atRank rank r items') : items = items' := by
  induction items generalizing items' with
  | nil =>
      apply Eq.symm
      apply List.eq_nil_iff_forall_not_mem.mpr
      intro item hmem
      exact absurd ((mem_iff_of_atRank_eq h item).mpr hmem) List.not_mem_nil
  | cons a rest ih =>
      have hmem := mem_iff_of_atRank_eq h
      cases items' with
      | nil => exact absurd ((hmem a).mp List.mem_cons_self) List.not_mem_nil
      | cons b rest' =>
          obtain ⟨hleast, hrest⟩ := List.pairwise_cons.mp hordered
          obtain ⟨hleast', hrest'⟩ := List.pairwise_cons.mp hordered'
          -- each of the two first items is somewhere in the other list, so neither ranks above
          have hab : rank a ≤ rank b := by
            rcases List.mem_cons.mp ((hmem b).mpr List.mem_cons_self) with rfl | hb
            · exact le_refl _
            · exact hleast b hb
          have hba : rank b ≤ rank a := by
            rcases List.mem_cons.mp ((hmem a).mp List.mem_cons_self) with rfl | ha
            · exact le_refl _
            · exact hleast' a ha
          have hrank : rank a = rank b := le_antisymm hab hba
          obtain ⟨rfl, -⟩ : a = b ∧ atRank rank (rank b) rest = atRank rank (rank b) rest' := by
            simpa [atRank_cons, hrank] using h (rank b)
          refine congrArg (a :: ·) (ih hrest hrest' fun r => ?_)
          have hr := h r
          rw [atRank_cons, atRank_cons] at hr
          split at hr
          · exact (List.cons.inj hr).2
          · exact hr

/-- Items that pass a test together at every rank, in front of the others of that rank. -/
theorem atRank_filter_append {test : α → Bool} (r : ρ)
    (h : ∀ a ∈ items, ∀ b ∈ items, rank a = rank b → test a = true → test b = true) :
    atRank rank r (items.filter test) ++ atRank rank r (items.filter fun item => !test item) =
      atRank rank r items := by
  simp only [atRank, List.filter_filter]
  by_cases hpass : ∃ a ∈ items, rank a = r ∧ test a = true
  · obtain ⟨a, ha, rfl, htest⟩ := hpass
    have hall : ∀ b ∈ items, rank b = rank a → test b = true := by
      intro b hb hrank
      exact h a ha b hb hrank.symm htest
    have hfront : items.filter (fun b => decide (rank b = rank a) && test b) =
        items.filter fun b => decide (rank b = rank a) := by
      apply List.filter_congr
      intro b hb
      simpa using hall b hb
    have hback : items.filter (fun b => decide (rank b = rank a) && !test b) = [] := by
      apply List.filter_eq_nil_iff.mpr
      intro b hb
      simpa using hall b hb
    rw [hfront, hback, List.append_nil]
  · push Not at hpass
    have hfront : items.filter (fun b => decide (rank b = r) && test b) = [] := by
      apply List.filter_eq_nil_iff.mpr
      intro b hb
      simpa using hpass b hb
    have hback : items.filter (fun b => decide (rank b = r) && !test b) =
        items.filter fun b => decide (rank b = r) := by
      apply List.filter_congr
      intro b hb
      simpa using hpass b hb
    rw [hfront, hback, List.nil_append]

namespace IsStableSort

variable {sorted sorted' : List α}

theorem mem_iff (h : IsStableSort rank items sorted) (item : α) : item ∈ sorted ↔ item ∈ items :=
  mem_iff_of_atRank_eq h.atRank_eq item

/-- Items none of which ranks below another are left as they are. -/
theorem of_not_lt (h : ∀ a ∈ items, ∀ b ∈ items, ¬rank a < rank b) :
    IsStableSort rank items items where
  ordered := List.pairwise_of_forall_mem_list fun a ha b hb => not_lt.mp (h b hb a ha)
  atRank_eq _ := rfl

/-- What is sorted stably is known from what stands at every rank. -/
theorem eq_iff (h : IsStableSort rank items sorted) (h' : IsStableSort rank items' sorted') :
    sorted = sorted' ↔ ∀ r, atRank rank r items = atRank rank r items' := by
  constructor
  · rintro rfl r
    rw [← h.atRank_eq, ← h'.atRank_eq]
  · intro hranks
    refine eq_of_atRank_eq h.ordered h'.ordered fun r => ?_
    rw [h.atRank_eq, h'.atRank_eq, hranks]

/-- The items that pass a test, sorted, go in front of the others, where these rank higher. -/
theorem append (test : α → Bool)
    (hbelow : ∀ a ∈ items, ∀ b ∈ items, test a = true → test b = false → rank a < rank b)
    (hfront : IsStableSort rank (items.filter test) sorted)
    (hback : IsStableSort rank (items.filter fun item => !test item) sorted') :
    IsStableSort rank items (sorted ++ sorted') := by
  constructor
  · refine List.pairwise_append.mpr ⟨hfront.ordered, hback.ordered, fun a ha b hb => ?_⟩
    obtain ⟨ha, htest⟩ := List.mem_filter.mp ((hfront.mem_iff a).mp ha)
    obtain ⟨hb, hother⟩ := List.mem_filter.mp ((hback.mem_iff b).mp hb)
    exact le_of_lt (hbelow a ha b hb htest (by simpa using hother))
  · intro r
    rw [atRank_append, hfront.atRank_eq, hback.atRank_eq]
    apply atRank_filter_append
    intro a ha b hb hrank htest
    by_contra hother
    exact absurd hrank (ne_of_lt (hbelow a ha b hb htest (by simpa using hother)))

end IsStableSort

/-- Merge sort is stable: what stands at one rank is in order, so it stays a sublist. -/
theorem isStableSort_mergeSort (rank : α → ρ) (items : List α) :
    IsStableSort rank items (items.mergeSort fun a b => rank a ≤ rank b) := by
  have htrans : ∀ a b c : α, decide (rank a ≤ rank b) = true → decide (rank b ≤ rank c) = true →
      decide (rank a ≤ rank c) = true := by
    intro a b c hab hbc
    simp only [decide_eq_true_eq] at hab hbc ⊢
    exact le_trans hab hbc
  have htotal : ∀ a b : α, (decide (rank a ≤ rank b) || decide (rank b ≤ rank a)) = true := by
    intro a b
    simpa using le_total (rank a) (rank b)
  constructor
  · simpa using List.pairwise_mergeSort htrans htotal items
  · intro r
    have hordered : (atRank rank r items).Pairwise fun a b => decide (rank a ≤ rank b) = true := by
      apply List.pairwise_of_forall_mem_list
      intro a ha b hb
      rw [decide_eq_true_eq, (mem_atRank.mp ha).2, (mem_atRank.mp hb).2]
    have hsublist := (List.sublist_mergeSort htrans htotal hordered List.filter_sublist).filter
      fun item => decide (rank item = r)
    rw [atRank, List.filter_filter] at hsublist
    simp only [Bool.and_self] at hsublist
    have hlength := ((List.mergeSort_perm items fun a b => decide (rank a ≤ rank b)).filter
      fun item => decide (rank item = r)).length_eq
    exact (hsublist.eq_of_length hlength.symm).symm

end TagPrompt
