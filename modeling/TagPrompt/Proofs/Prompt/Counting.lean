import TagPrompt.Proofs.Prompt.RoundTrip

/-! Counting brackets in 32 bits. The level wraps around only where the brackets up to some place
come to a number that is no level, and such texts are those that counting with overflow checks
gives nothing for. Written prompts are none of them: the way between two levels does not leave the
numbers between them and zero. -/

namespace TagPrompt.Prompt

/-- What the brackets of a text come to: those that raise the level less those that lower it. -/
def netLevel (text : Text) : Int :=
  (text.count '{' + text.count ']' : Nat) - (text.count '}' + text.count '[' : Nat)

/-- A number that a level can be. -/
def IsLevel (n : Int) : Prop := -2 ^ 31 ≤ n ∧ n < 2 ^ 31

instance (n : Int) : Decidable (IsLevel n) := inferInstanceAs (Decidable (_ ∧ _))

variable {c : Char} {change n : Int} {text : Text} {last : LastSegment} {p : Prompt}

theorem isLevel_toInt (level : Int32) : IsLevel level.toInt := ⟨level.le_toInt, level.toInt_lt⟩

theorem toInt_ofInt_iff : (Int32.ofInt n).toInt = n ↔ IsLevel n :=
  ⟨fun h => h ▸ isLevel_toInt _, fun h => Int32.toInt_ofInt_of_le h.1 h.2⟩

/-! ### The number of the brackets -/

theorem netLevel_append (text text' : Text) :
    netLevel (text ++ text') = netLevel text + netLevel text' := by
  simp only [netLevel, List.count_append]
  omega

theorem netLevel_singleton (c : Char) : netLevel [c] = (levelChange? c).getD 0 := by
  simp only [netLevel, levelChange?, List.count_singleton, beq_iff_eq]
  split_ifs <;> simp_all

theorem netLevel_cons (c : Char) (text : Text) :
    netLevel (c :: text) = (levelChange? c).getD 0 + netLevel text := by
  rw [← List.singleton_append, netLevel_append, netLevel_singleton]

theorem netLevel_of_levelChange? (h : levelChange? c = some change) (text : Text) :
    netLevel (text ++ [c]) = netLevel text + change := by
  rw [netLevel_append, netLevel_singleton, h, Option.getD_some]

theorem netLevel_of_unmarked (h : levelChange? c = none) (text : Text) :
    netLevel (text ++ [c]) = netLevel text := by
  rw [netLevel_append, netLevel_singleton, h, Option.getD_none, Int.add_zero]

/-! ### Overflow checks -/

theorem countable_of_none (h : levelChange? c = none) (level : Int32) (rest : Text) :
    countable level (c :: rest) = countable level rest := by
  rw [countable, h]

theorem countable_bracket (h : levelChange? c = some change) (hn : IsLevel n) (rest : Text) :
    countable (.ofInt n) (c :: rest) = true ↔
      IsLevel (n + change) ∧ countable (.ofInt (n + change)) rest = true := by
  rw [countable, h]
  simp only [← Int32.ofInt_add, toInt_ofInt_iff.mpr hn, Bool.and_eq_true, decide_eq_true_eq,
    toInt_ofInt_iff]

theorem countable_of_change {level : Int32} {rest : Text} (h : levelChange? c = some change)
    (hcount : countable level (c :: rest) = true) :
    (level + .ofInt change).toInt = level.toInt + change ∧
      countable (level + .ofInt change) rest = true := by
  rwa [countable, h, Bool.and_eq_true, decide_eq_true_eq] at hcount

/-- Counting is within the levels exactly if the brackets up to each place come to a level. -/
theorem countable_iff (hn : IsLevel n) :
    countable (.ofInt n) text = true ↔ ∀ front, front <+: text → IsLevel (n + netLevel front) := by
  induction text generalizing n with
  | nil =>
      refine iff_of_true rfl fun front hfront => ?_
      rwa [List.prefix_nil.mp hfront, show netLevel [] = 0 from rfl, Int.add_zero]
  | cons c rest ih =>
      have hfronts : (∀ front, front <+: c :: rest → IsLevel (n + netLevel front)) ↔
          ∀ front, front <+: rest → IsLevel (n + (levelChange? c).getD 0 + netLevel front) := by
        constructor
        · intro h front hfront
          rw [Int.add_assoc, ← netLevel_cons]
          exact h (c :: front) (List.cons_prefix_cons.mpr ⟨rfl, hfront⟩)
        · rintro h (- | ⟨d, front⟩) hfront
          · rwa [show netLevel [] = 0 from rfl, Int.add_zero]
          · obtain ⟨rfl, hrest⟩ := List.cons_prefix_cons.mp hfront
            rw [netLevel_cons, ← Int.add_assoc]
            exact h front hrest
      rw [hfronts]
      cases hchange : levelChange? c with
      | none => rw [countable_of_none hchange, ih hn, Option.getD_none, Int.add_zero]
      | some change =>
          rw [countable_bracket hchange hn, Option.getD_some]
          constructor
          · exact fun ⟨hnext, hrest⟩ => (ih hnext).mp hrest
          · intro h
            have hnext : IsLevel (n + change) := by
              simpa [show netLevel [] = 0 from rfl] using h [] List.nil_prefix
            exact ⟨hnext, (ih hnext).mpr h⟩

theorem parse?_eq_some_iff :
    parse? text last = some p ↔ countable 0 text = true ∧ parse text last = p := by
  rw [parse?]
  split_ifs with h <;> simp [h]

theorem countable_zero_iff :
    countable 0 text = true ↔ ∀ front, front <+: text → IsLevel (netLevel front) := by
  have hcountable : countable (.ofInt 0) text = true ↔ _ := countable_iff (by decide)
  simp only [Int.zero_add] at hcountable
  exact hcountable

/-- Parsing with overflow checks has a result, the same as without, exactly if the brackets up to
each place of the text come to a level. -/
theorem parse?_eq_some_parse_iff :
    parse? text last = some (parse text last) ↔
      ∀ front, front <+: text → IsLevel (netLevel front) := by
  rw [parse?_eq_some_iff, and_iff_left rfl, countable_zero_iff]

/-! ### Written prompts -/

theorem eq_one_or_of_change (h : levelChange? c = some change) : change = 1 ∨ change = -1 := by
  unfold levelChange? at h
  split_ifs at h <;> cases h
  · exact .inl rfl
  · exact .inr rfl

/-- Brackets of one kind stay within the levels if they begin and end there. -/
theorem countable_replicate (h : levelChange? c = some change) (count : Nat) (hn : IsLevel n)
    (hend : IsLevel (n + count * change)) (rest : Text) :
    countable (.ofInt n) (List.replicate count c ++ rest) =
      countable (.ofInt (n + count * change)) rest := by
  induction count generalizing n with
  | zero => simp
  | succ count ih =>
      have hsum : n + change + count * change = n + (count + 1 : Nat) * change := by
        push_cast
        ring
      have hnext : IsLevel (n + change) := by
        unfold IsLevel at hn hend ⊢
        rcases eq_one_or_of_change h with rfl | rfl <;> push_cast at hend <;> omega
      rw [List.replicate_succ, List.cons_append, Bool.eq_iff_iff, countable_bracket h hn,
        and_iff_right hnext, ← Bool.eq_iff_iff, ih hnext (by rwa [hsum]), hsum]

theorem isLevel_waypoint {level target : Int} (hlevel : IsLevel level) (htarget : IsLevel target) :
    IsLevel (waypoint level target) := by
  unfold waypoint IsLevel at *
  omega

section Steps

variable {level target : Int} (hlevel : IsLevel level) (htarget : IsLevel target)

include hlevel htarget

theorem countable_closing (rest : Text) :
    countable (.ofInt level) (closing level target ++ rest) =
      countable (.ofInt (waypoint level target)) rest := by
  -- one of the two runs is empty, so the second begins at the level where the first ends
  have hmiddle : level + (min target 0 - level).toNat * 1 = max level (min target 0) := by omega
  have hend : max level (min target 0) + (level - max target 0).toNat * (-1) =
      waypoint level target := by
    unfold waypoint
    omega
  have hwaypoint := isLevel_waypoint hlevel htarget
  have hbetween : IsLevel (max level (min target 0)) := by
    unfold IsLevel at *
    omega
  rw [closing, List.append_assoc,
    countable_replicate (show levelChange? ']' = some 1 from rfl) _ hlevel (by rwa [hmiddle]),
    hmiddle, countable_replicate (show levelChange? '}' = some (-1) from rfl) _ hbetween
      (by rwa [hend]), hend]

theorem countable_opening (rest : Text) :
    countable (.ofInt (waypoint level target)) (opening level target ++ rest) =
      countable (.ofInt target) rest := by
  have hmiddle : waypoint level target + (target - max level 0).toNat * 1 =
      max (waypoint level target) target := by
    unfold waypoint
    omega
  have hend : max (waypoint level target) target + (min level 0 - target).toNat * (-1) =
      target := by
    unfold waypoint
    omega
  have hwaypoint := isLevel_waypoint hlevel htarget
  have hbetween : IsLevel (max (waypoint level target) target) := by
    unfold IsLevel at *
    omega
  rw [opening, List.append_assoc,
    countable_replicate (show levelChange? '{' = some 1 from rfl) _ hwaypoint (by rwa [hmiddle]),
    hmiddle, countable_replicate (show levelChange? '[' = some (-1) from rfl) _ hbetween
      (by rwa [hend]), hend]

end Steps

theorem countable_text {t : Text} (ht : t.IsPlain) (level : Int32) (rest : Text) :
    countable level (t ++ rest) = countable level rest := by
  have hmarks := ht.unmarked
  clear ht
  induction t with
  | nil => rfl
  | cons c t ih =>
      obtain ⟨hc, ht⟩ := List.forall_mem_cons.mp hmarks
      rw [List.cons_append, countable_of_none (not_mem_marks_iff.mp hc).2, ih ht]

theorem countable_continuation (h : p.IsPlain) (level : Int32) :
    countable level (continuation level.toInt p) = true := by
  induction p generalizing level with
  | nil => rfl
  | cons tag rest ih =>
      obtain ⟨htag, hrest⟩ := isPlain_cons.mp h
      have hlevel : Int32.ofInt level.toInt = level := Int32.ofInt_toInt level
      have hblank : levelChange? ' ' = none := rfl
      have hcomma : levelChange? ',' = none := rfl
      simp only [continuation, separator, List.append_assoc, List.cons_append, List.nil_append]
      nth_rewrite 1 [← hlevel]
      rw [countable_closing (isLevel_toInt _) (isLevel_toInt _), countable_of_none hcomma,
        countable_of_none hblank, countable_opening (isLevel_toInt _) (isLevel_toInt _),
        countable_text htag, Int32.ofInt_toInt, ih hrest]

/-- Counting the brackets of a written prompt does not overflow. -/
theorem countable_render (h : p.IsPlain) : countable 0 (render p) = true := by
  cases p with
  | nil => rfl
  | cons tag rest =>
      obtain ⟨htag, hrest⟩ := isPlain_cons.mp h
      have hzero : Int32.ofInt (waypoint 0 tag.level.toInt) = 0 := by
        rw [waypoint_zero]
        rfl
      rw [render_cons h, List.append_assoc, ← hzero,
        countable_opening (by decide) (isLevel_toInt _), countable_text htag, Int32.ofInt_toInt,
        countable_continuation hrest]

theorem parse?_render (h : p.IsPlain) : parse? (render p) .kept = some p :=
  parse?_eq_some_iff.mpr ⟨countable_render h, parse_render h⟩

end TagPrompt.Prompt
