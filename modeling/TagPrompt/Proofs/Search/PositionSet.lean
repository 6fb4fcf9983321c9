import Mathlib.Data.List.Sort
import TagPrompt.Search.PositionSet

/-! Membership in sets of offsets. Every operation is known by its members, and a set is known by
its members, because its list ascends. -/

namespace TagPrompt.PositionSet

theorem mem_def {s : PositionSet} {x : Offset} : x ∈ s ↔ x ∈ s.values := Iff.rfl

/-- Offsets that ascend are known by their members. -/
theorem eq_of_ascending {xs ys : List Offset} (hxs : xs.Pairwise (· < ·))
    (hys : ys.Pairwise (· < ·)) (h : ∀ x, x ∈ xs ↔ x ∈ ys) : xs = ys := by
  have : Std.Antisymm (α := Offset) (· < ·) :=
    ⟨fun x y hxy hyx => absurd hyx (UInt32.lt_asymm hxy)⟩
  have : Std.Irrefl (α := Offset) (· < ·) := ⟨UInt32.lt_irrefl⟩
  exact hxs.eq_of_mem_iff hys h

theorem ext_mem {s t : PositionSet} (h : ∀ x, x ∈ s ↔ x ∈ t) : s = t := by
  have hvalues : s.values = t.values := eq_of_ascending s.ascending t.ascending h
  cases s
  cases t
  cases hvalues
  rfl

theorem contains_iff {s : PositionSet} {x : Offset} : s.contains x = true ↔ x ∈ s := by
  rw [contains, List.contains_iff_mem, mem_def]

theorem not_mem_empty (x : Offset) : x ∉ empty := List.not_mem_nil

theorem mem_insert {s : PositionSet} {x y : Offset} : y ∈ insert x s ↔ y = x ∨ y ∈ s := mem_place

theorem mem_foldr_insert {xs : List Offset} {s : PositionSet} {x : Offset} :
    x ∈ xs.foldr insert s ↔ x ∈ xs ∨ x ∈ s := by
  induction xs with
  | nil => simp
  | cons y xs ih => rw [List.foldr_cons, mem_insert, ih, List.mem_cons, or_assoc]

theorem mem_ofList {xs : List Offset} {x : Offset} : x ∈ ofList xs ↔ x ∈ xs := by
  rw [ofList, mem_foldr_insert]
  exact or_iff_left (not_mem_empty x)

theorem mem_union {s t : PositionSet} {x : Offset} : x ∈ s.union t ↔ x ∈ s ∨ x ∈ t :=
  mem_foldr_insert

theorem mem_inter {s t : PositionSet} {x : Offset} : x ∈ s.inter t ↔ x ∈ s ∧ x ∈ t := by
  simp only [inter, mem_def, List.mem_filter, contains_iff]

theorem mem_diff {s t : PositionSet} {x : Offset} : x ∈ s.diff t ↔ x ∈ s ∧ x ∉ t := by
  simp only [diff, mem_def, List.mem_filter, Bool.not_eq_true', ← Bool.not_eq_true, contains_iff]

theorem mem_foldl_inter {sets : List PositionSet} {first : PositionSet} {x : Offset} :
    x ∈ sets.foldl inter first ↔ ∀ s ∈ first :: sets, x ∈ s := by
  induction sets generalizing first with
  | nil => simp
  | cons s sets ih =>
      rw [List.foldl_cons, ih]
      simp only [List.forall_mem_cons, mem_inter, and_assoc]

/-! ### The ends -/

theorem exists_least {s : PositionSet} (h : s.values ≠ []) :
    ∃ x ∈ s, s.least? = some x ∧ ∀ y ∈ s, x ≤ y := by
  obtain ⟨x, xs, hvalues⟩ := List.exists_cons_of_ne_nil h
  have hascending := s.ascending
  rw [hvalues, List.pairwise_cons] at hascending
  simp only [mem_def, least?, hvalues]
  refine ⟨x, List.mem_cons_self, rfl, fun y hy => ?_⟩
  rcases List.mem_cons.mp hy with rfl | hy
  · exact UInt32.le_refl y
  · exact UInt32.le_of_lt (hascending.1 y hy)

theorem exists_greatest {s : PositionSet} (h : s.values ≠ []) :
    ∃ x ∈ s, s.greatest? = some x ∧ ∀ y ∈ s, y ≤ x := by
  obtain ⟨xs, x, hvalues⟩ := (List.eq_nil_or_concat' s.values).resolve_left h
  have hascending := s.ascending
  rw [hvalues, List.pairwise_append] at hascending
  simp only [mem_def, greatest?, hvalues]
  refine ⟨x, List.mem_concat_self, List.getLast?_concat, fun y hy => ?_⟩
  rcases List.mem_append.mp hy with hy | hy
  · exact UInt32.le_of_lt (hascending.2.2 y hy x List.mem_cons_self)
  · exact List.mem_singleton.mp hy ▸ UInt32.le_refl x

end TagPrompt.PositionSet
