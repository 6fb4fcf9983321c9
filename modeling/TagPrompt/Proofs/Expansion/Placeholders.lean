import Mathlib.Tactic.SplitIfs
import TagPrompt.Expansion.Placeholder

/-! Replacing placeholders. Although they are replaced by their places in the whole text, from the
last to the first, the outcome is known from the front: every placeholder of the text is replaced by
a line of its list, where it has one, and all between them stays. What follows a text and has no
underscore has no part in it. -/

namespace TagPrompt

variable {σ : Type} [ChoiceSource σ] {text ending rest : Text} {n : Nat}

/-! ### The end of a placeholder -/

theorem lengthToClosing?_of_not_mem (h : '_' ∉ text) : lengthToClosing? text = none := by
  induction text with
  | nil => rfl
  | cons c rest ih =>
      obtain ⟨hc, hrest⟩ := not_or.mp (mt List.mem_cons.mpr h)
      rw [lengthToClosing?, if_neg fun hunder => hc hunder.1.symm, ih hrest, Option.map_none, ite_self]

theorem lengthToClosing?_append (h : '_' ∉ ending) (text : Text) :
    lengthToClosing? (text ++ ending) = lengthToClosing? text := by
  induction text with
  | nil => exact lengthToClosing?_of_not_mem h
  | cons c rest ih =>
      have hhead : (rest ++ ending).head? = some '_' ↔ rest.head? = some '_' := by
        cases rest with
        | nil =>
            refine ⟨fun hfirst => ?_, nofun⟩
            exact absurd (List.mem_of_mem_head? hfirst) h
        | cons d rest => exact Iff.rfl
      rw [List.cons_append, lengthToClosing?, lengthToClosing?, ih]
      simp only [hhead]

theorem length_of_lengthToClosing? (h : lengthToClosing? text = some n) : n + 2 ≤ text.length := by
  induction text generalizing n with
  | nil => cases h
  | cons c rest ih =>
      rw [lengthToClosing?] at h
      split_ifs at h with hclosing
      · obtain rfl := Option.some.inj h
        cases rest with
        | nil => cases hclosing.2
        | cons d rest =>
            rw [List.length_cons, List.length_cons]
            omega
      · obtain ⟨m, hm, rfl⟩ := Option.map_eq_some_iff.mp h
        have hrest : m + 2 ≤ rest.length := ih hm
        rw [List.length_cons]
        omega

/-! ### Where placeholders are -/

theorem placeholdersFrom_closed (h : lengthToClosing? rest = some n) (position : Nat) :
    placeholdersFrom position ('_' :: '_' :: rest) =
      ⟨position, position + n + 4⟩ :: placeholdersFrom (position + n + 4) (rest.drop (n + 2)) := by
  rw [placeholdersFrom, h]

theorem placeholdersFrom_open (h : lengthToClosing? rest = none) (position : Nat) :
    placeholdersFrom position ('_' :: '_' :: rest) =
      placeholdersFrom (position + 1) ('_' :: rest) := by
  rw [placeholdersFrom, h]

theorem placeholdersFrom_cons {c : Char} (h : ∀ tail, c = '_' → rest = '_' :: tail → False)
    (position : Nat) :
    placeholdersFrom position (c :: rest) = placeholdersFrom (position + 1) rest := by
  rw [placeholdersFrom]
  exact h

/-! ### Filling from the front -/

/-- Replaces the placeholders of a text, with the choices for those behind made first. -/
def fill (wildcards : Wildcards) (text : Text) (s : σ) : Text × σ :=
  match text with
  | '_' :: '_' :: rest =>
      match lengthToClosing? rest with
      | some n =>
          let (after, s) := fill wildcards (rest.drop (n + 2)) s
          let name := '_' :: '_' :: rest.take (n + 2)
          let (line, s) := wildcards.choose name s
          (line.getD name ++ after, s)
      | none =>
          let (after, s) := fill wildcards ('_' :: rest) s
          ('_' :: after, s)
  | c :: rest =>
      let (after, s) := fill wildcards rest s
      (c :: after, s)
  | [] => ([], s)
termination_by text.length
decreasing_by
  all_goals simp only [List.length_cons, List.length_drop]; omega

theorem fill_closed (wildcards : Wildcards) (h : lengthToClosing? rest = some n) (s : σ) :
    fill wildcards ('_' :: '_' :: rest) s =
      let behind := fill wildcards (rest.drop (n + 2)) s
      let name := '_' :: '_' :: rest.take (n + 2)
      ((wildcards.choose name behind.2).1.getD name ++ behind.1,
        (wildcards.choose name behind.2).2) := by
  rw [fill, h]

theorem fill_open (wildcards : Wildcards) (h : lengthToClosing? rest = none) (s : σ) :
    fill wildcards ('_' :: '_' :: rest) s =
      ('_' :: (fill wildcards ('_' :: rest) s).1, (fill wildcards ('_' :: rest) s).2) := by
  rw [fill, h]

theorem fill_cons (wildcards : Wildcards) {c : Char}
    (h : ∀ tail, c = '_' → rest = '_' :: tail → False) (s : σ) :
    fill wildcards (c :: rest) s =
      (c :: (fill wildcards rest s).1, (fill wildcards rest s).2) := by
  rw [fill]
  exact h

/-- A placeholder at its place in a text is replaced by a line of its list, or stays. -/
theorem fillPlaceholder_at (wildcards : Wildcards) (front name after : Text) (s : σ) :
    fillPlaceholder wildcards ⟨front.length, front.length + name.length⟩
        (front ++ name ++ after, s) =
      (front ++ ((wildcards.choose name s).1.getD name ++ after), (wildcards.choose name s).2) := by
  have hcut : (⟨front.length, front.length + name.length⟩ : Span).cut (front ++ name ++ after) =
      name := by
    rw [Span.cut, List.append_assoc, List.drop_left, Nat.add_sub_cancel_left, List.take_left]
  have hsplice : ∀ line : Text,
      (⟨front.length, front.length + name.length⟩ : Span).splice line (front ++ name ++ after) =
        front ++ (line ++ after) := by
    intro line
    have hafter : (front ++ name ++ after).drop (front.length + name.length) = after := by
      rw [← List.length_append, List.drop_left]
    have hfront : (front ++ name ++ after).take front.length = front := by
      rw [List.append_assoc, List.take_left]
    rw [Span.splice, hafter, hfront, List.append_assoc]
  rw [fillPlaceholder, hcut]
  cases hchoose : wildcards.choose name s with
  | mk line s' =>
      cases line with
      | none => rw [Option.getD_none, List.append_assoc]
      | some line => exact congrArg (·, s') (hsplice line)

/-- Replacing by places, from the last to the first, is filling from the front. -/
theorem foldr_fillPlaceholder (wildcards : Wildcards) (front text : Text) (s : σ) :
    (placeholdersFrom front.length text).foldr (fillPlaceholder wildcards) (front ++ text, s) =
      (front ++ (fill wildcards text s).1, (fill wildcards text s).2) := by
  fun_induction fill wildcards text s generalizing front with
  | case1 rest n hclosing after s' hafter name line s'' hline ih =>
      have hlength : name.length = n + 4 := by
        have hrest : n + 2 ≤ rest.length := length_of_lengthToClosing? hclosing
        simp only [name, List.length_cons, List.length_take]
        omega
      have hsplit : front ++ '_' :: '_' :: rest = front ++ name ++ rest.drop (n + 2) := by
        simp only [name, List.append_assoc, List.cons_append, List.take_append_drop]
      have hposition : front.length + n + 4 = (front ++ name).length := by
        rw [List.length_append, hlength, Nat.add_assoc]
      rw [placeholdersFrom_closed hclosing, List.foldr_cons, hsplit, hposition, ih (front ++ name),
        hafter, List.length_append, fillPlaceholder_at, hline]
  | case2 rest hopen after s' hafter ih =>
      have hnext := ih (front ++ ['_'])
      rw [List.length_append, List.append_assoc, hafter, List.append_assoc] at hnext
      rw [placeholdersFrom_open hopen]
      exact hnext
  | case3 c rest hno after s' hafter ih =>
      have hnext := ih (front ++ [c])
      rw [List.length_append, List.append_assoc, hafter, List.append_assoc] at hnext
      rw [placeholdersFrom_cons hno]
      exact hnext
  | case4 =>
      rw [placeholdersFrom]
      rfl

theorem expandPlaceholders_eq_fill (wildcards : Wildcards) (text : Text) (s : σ) :
    expandPlaceholders wildcards text s = fill wildcards text s :=
  foldr_fillPlaceholder wildcards [] text s

/-! ### What follows a text -/

theorem fill_of_not_mem (wildcards : Wildcards) (h : '_' ∉ text) (s : σ) :
    fill wildcards text s = (text, s) := by
  induction text with
  | nil => rw [fill]
  | cons c rest ih =>
      obtain ⟨hc, hrest⟩ := not_or.mp (mt List.mem_cons.mpr h)
      rw [fill, ih hrest]
      exact fun tail hunder _ => hc hunder.symm

/-- What has no underscore stays behind the filled text before it. -/
theorem expandPlaceholders_append (wildcards : Wildcards) (h : '_' ∉ ending) (text : Text) (s : σ) :
    expandPlaceholders wildcards (text ++ ending) s =
      ((expandPlaceholders wildcards text s).1 ++ ending,
        (expandPlaceholders wildcards text s).2) := by
  simp only [expandPlaceholders_eq_fill]
  fun_induction fill wildcards text s with
  | case1 rest n hclosing after s' hafter name line s'' hline ih =>
      have hrest : n + 2 ≤ rest.length := length_of_lengthToClosing? hclosing
      have hclosing' : lengthToClosing? (rest ++ ending) = some n := by
        rw [lengthToClosing?_append h, hclosing]
      have hname : (rest ++ ending).take (n + 2) = rest.take (n + 2) :=
        List.take_append_of_le_length hrest
      rw [List.cons_append, List.cons_append, fill_closed wildcards hclosing', hname,
        List.drop_append_of_le_length hrest, ih, hafter]
      change ((wildcards.choose name s').1.getD name ++ (after ++ ending),
        (wildcards.choose name s').2) = _
      rw [hline, ← List.append_assoc]
  | case2 rest hopen after s' hafter ih =>
      have hopen' : lengthToClosing? (rest ++ ending) = none := by
        rw [lengthToClosing?_append h, hopen]
      rw [List.cons_append, List.cons_append, fill_open wildcards hopen', ← List.cons_append, ih,
        hafter, List.cons_append]
  | case3 c rest hno after s' hafter ih =>
      have hno' : ∀ tail, c = '_' → rest ++ ending = '_' :: tail → False := by
        intro tail hc hrest
        cases rest with
        | nil => exact h (List.mem_of_mem_head? (congrArg List.head? hrest))
        | cons d rest =>
            obtain ⟨rfl, -⟩ := List.cons.inj hrest
            exact hno rest hc rfl
      rw [List.cons_append, fill_cons wildcards hno', ih, hafter, List.cons_append]
  | case4 => exact fill_of_not_mem wildcards h s

end TagPrompt
