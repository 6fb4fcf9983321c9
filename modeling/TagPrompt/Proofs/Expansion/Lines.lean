import Mathlib.Data.List.Forall2
import TagPrompt.Proofs.Expansion.Placeholders
import TagPrompt.Proofs.Wildcards.CleanLists

/-! Placeholders and lines. A placeholder is looked for on one line, so a text is expanded line by
line, the last line first, and lists whose lines hold no line end put none in. So expansion keeps
the number of lines, and each line without a placeholder stays what it is and where it is. -/

namespace TagPrompt

variable {σ : Type} [ChoiceSource σ] {wildcards : Wildcards} {text line rest : Text} {n i : Nat}

/-! ### Places of lines -/

/-- One span lies in another one. -/
def Span.Within (inner outer : Span) : Prop :=
  outer.start ≤ inner.start ∧ inner.stop ≤ outer.stop

instance (inner outer : Span) : Decidable (inner.Within outer) :=
  inferInstanceAs (Decidable (_ ∧ _))

/-- Where a line begins: each line before it takes its characters and a line end. -/
def lineStart (text : Text) (i : Nat) : Nat :=
  (((Text.split '\n' text).take i).map fun line => line.length + 1).sum

/-- The span of a line. -/
def lineSpan (text : Text) (i : Nat) : Span :=
  ⟨lineStart text i, lineStart text i + ((Text.split '\n' text)[i]?.getD []).length⟩

theorem lineStart_succ (h : '\n' ∉ line) (rest : Text) (i : Nat) :
    lineStart (line ++ '\n' :: rest) (i + 1) = line.length + 1 + lineStart rest i := by
  rw [lineStart, Text.split_append_separator h, List.take_succ_cons, List.map_cons, List.sum_cons,
    lineStart]

/-- A text is one line, or a line, a line end and further lines. -/
theorem exists_first_line (text : Text) :
    '\n' ∉ text ∨ ∃ line rest, '\n' ∉ line ∧ text = line ++ '\n' :: rest := by
  by_cases h : '\n' ∈ text
  · obtain ⟨line, rest, htext, hline⟩ := List.eq_append_cons_of_mem h
    exact Or.inr ⟨line, rest, hline, htext⟩
  · exact Or.inl h

/-! ### Placeholders of a line -/

/-- Nothing behind a line end closes a placeholder in front of it. -/
theorem lengthToClosing?_line (line rest : Text) :
    lengthToClosing? (line ++ '\n' :: rest) = lengthToClosing? line := by
  induction line with
  | nil =>
      have hclosed : lengthToClosing? ('\n' :: rest) = none := by simp [lengthToClosing?]
      exact hclosed
  | cons c line ih =>
      have hhead : (line ++ '\n' :: rest).head? = some '_' ↔ line.head? = some '_' := by
        cases line with
        | nil => simp
        | cons d line => exact Iff.rfl
      rw [List.cons_append, lengthToClosing?, lengthToClosing?, ih]
      simp only [hhead]

theorem not_opening_line {c : Char} (hno : ∀ tail, c = '_' → line = '_' :: tail → False)
    (rest : Text) : ∀ tail, c = '_' → line ++ '\n' :: rest = '_' :: tail → False := by
  intro tail hc htail
  cases line with
  | nil => cases htail
  | cons d line =>
      obtain ⟨rfl, -⟩ := List.cons.inj htail
      exact hno line hc rfl

/-- The placeholders of a text are those of its first line and those of the lines behind it. -/
theorem placeholdersFrom_line (position : Nat) (line rest : Text) :
    placeholdersFrom position (line ++ '\n' :: rest) =
      placeholdersFrom position line ++ placeholdersFrom (position + (line.length + 1)) rest := by
  fun_induction placeholdersFrom position line with
  | case1 position tail n hclosing ih =>
      have htail : n + 2 ≤ tail.length := length_of_lengthToClosing? hclosing
      have hclosing' : lengthToClosing? (tail ++ '\n' :: rest) = some n := by
        rw [lengthToClosing?_line, hclosing]
      have hposition : position + n + 4 + ((tail.drop (n + 2)).length + 1) =
          position + (('_' :: '_' :: tail).length + 1) := by
        rw [List.length_drop, List.length_cons, List.length_cons]
        omega
      rw [List.cons_append, List.cons_append, placeholdersFrom_closed hclosing',
        List.drop_append_of_le_length htail, ih, hposition, List.cons_append]
  | case2 position tail hopen ih =>
      have hopen' : lengthToClosing? (tail ++ '\n' :: rest) = none := by
        rw [lengthToClosing?_line, hopen]
      have hposition : position + 1 + (('_' :: tail).length + 1) =
          position + (('_' :: '_' :: tail).length + 1) := by
        simp only [List.length_cons]
        omega
      rw [List.cons_append, List.cons_append, placeholdersFrom_open hopen', ← List.cons_append, ih,
        hposition]
  | case3 position c tail hno ih =>
      have hposition : position + 1 + (tail.length + 1) =
          position + ((c :: tail).length + 1) := by
        rw [List.length_cons]
        omega
      rw [List.cons_append, placeholdersFrom_cons (not_opening_line hno rest), ih, hposition]
  | case4 position =>
      rw [List.nil_append, placeholdersFrom_cons (by simp), List.nil_append, List.length_nil,
        Nat.zero_add]

/-- A placeholder lies in the text it is found in. -/
theorem within_of_mem_placeholdersFrom {position : Nat} {span : Span}
    (h : span ∈ placeholdersFrom position text) :
    span.Within ⟨position, position + text.length⟩ := by
  fun_induction placeholdersFrom position text with
  | case1 position tail n hclosing ih =>
      have htail : n + 2 ≤ tail.length := length_of_lengthToClosing? hclosing
      rcases List.mem_cons.mp h with rfl | h
      · refine ⟨Nat.le_refl _, ?_⟩
        simp only [List.length_cons]
        omega
      · obtain ⟨hstart, hstop⟩ := ih h
        simp only [List.length_drop] at hstart hstop
        refine ⟨?_, ?_⟩ <;> simp only [List.length_cons] <;> omega
  | case2 position tail hopen ih =>
      obtain ⟨hstart, hstop⟩ := ih h
      simp only [List.length_cons] at hstart hstop
      refine ⟨?_, ?_⟩ <;> simp only [List.length_cons] <;> omega
  | case3 position c tail hno ih =>
      obtain ⟨hstart, hstop⟩ := ih h
      refine ⟨?_, ?_⟩ <;> simp only [List.length_cons] at * <;> omega
  | case4 position => exact absurd h List.not_mem_nil

/-- The placeholders of each line are among those of the text. -/
theorem placeholdersFrom_subset {position : Nat} (h : (Text.split '\n' text)[i]? = some line) :
    placeholdersFrom (position + lineStart text i) line ⊆ placeholdersFrom position text := by
  induction i generalizing position text with
  | zero =>
      rcases exists_first_line text with hone | ⟨first, rest, hfirst, rfl⟩
      · rw [Text.split_of_not_mem hone] at h
        cases h
        exact fun _ hspan => hspan
      · rw [Text.split_append_separator hfirst] at h
        cases h
        rw [placeholdersFrom_line]
        exact List.subset_append_left _ _
  | succ i ih =>
      rcases exists_first_line text with hone | ⟨first, rest, hfirst, rfl⟩
      · rw [Text.split_of_not_mem hone] at h
        cases h
      · rw [Text.split_append_separator hfirst, List.getElem?_cons_succ] at h
        rw [lineStart_succ hfirst, ← Nat.add_assoc, placeholdersFrom_line]
        exact fun _ hspan => List.mem_append_right _ (ih h hspan)

/-! ### Filling line by line -/

theorem fill_line (wildcards : Wildcards) (line rest : Text) (s : σ) :
    fill wildcards (line ++ '\n' :: rest) s =
      let behind := fill wildcards rest s
      ((fill wildcards line behind.2).1 ++ '\n' :: behind.1, (fill wildcards line behind.2).2) := by
  generalize hbehind : fill wildcards rest s = behind
  obtain ⟨after, s'⟩ := behind
  dsimp only
  fun_induction fill wildcards line s' with
  | case1 tail n hclosing before s₁ hbefore name chosen s₂ hchosen ih =>
      have htail : n + 2 ≤ tail.length := length_of_lengthToClosing? hclosing
      have hclosing' : lengthToClosing? (tail ++ '\n' :: rest) = some n := by
        rw [lengthToClosing?_line, hclosing]
      have hname : (tail ++ '\n' :: rest).take (n + 2) = tail.take (n + 2) :=
        List.take_append_of_le_length htail
      rw [List.cons_append, List.cons_append, fill_closed wildcards hclosing', hname,
        List.drop_append_of_le_length htail, ih, hbefore]
      change ((wildcards.choose name s₁).1.getD name ++ (before ++ '\n' :: after),
        (wildcards.choose name s₁).2) = _
      rw [hchosen, ← List.append_assoc]
  | case2 tail hopen before s₁ hbefore ih =>
      have hopen' : lengthToClosing? (tail ++ '\n' :: rest) = none := by
        rw [lengthToClosing?_line, hopen]
      rw [List.cons_append, List.cons_append, fill_open wildcards hopen', ← List.cons_append, ih,
        hbefore, List.cons_append]
  | case3 c tail hno before s₁ hbefore ih =>
      rw [List.cons_append, fill_cons wildcards (not_opening_line hno rest), ih, hbefore,
        List.cons_append]
  | case4 =>
      rw [List.nil_append, fill_cons wildcards (by simp), hbehind, List.nil_append]

/-- A line stays one line, as no list has more than single lines. -/
theorem not_mem_fill (hclean : wildcards.IsClean) (h : '\n' ∉ line) (s : σ) :
    '\n' ∉ (fill wildcards line s).1 := by
  fun_induction fill wildcards line s with
  | case1 tail n hclosing before s₁ hbefore name chosen s₂ hchosen ih =>
      have htail : '\n' ∉ tail := fun hmem => h (by simp [hmem])
      have hbehind : '\n' ∉ before := by
        have hfilled := ih fun hmem => htail (List.mem_of_mem_drop hmem)
        rwa [hbefore] at hfilled
      have hput : '\n' ∉ chosen.getD name := by
        cases chosen with
        | none =>
            intro hmem
            simp only [Option.getD_none, name, List.mem_cons, Char.reduceEq, false_or] at hmem
            exact htail (List.mem_of_mem_take hmem)
        | some line => exact (hclean.of_choose (congrArg Prod.fst hchosen)).oneLine
      intro hmem
      exact (List.mem_append.mp hmem).elim hput hbehind
  | case2 tail hopen before s₁ hbefore ih =>
      rw [hbefore] at ih
      obtain ⟨hc, htail⟩ := List.ne_and_not_mem_of_not_mem_cons h
      exact List.not_mem_cons_of_ne_of_not_mem hc (ih htail)
  | case3 c tail hno before s₁ hbefore ih =>
      rw [hbefore] at ih
      obtain ⟨hc, htail⟩ := List.ne_and_not_mem_of_not_mem_cons h
      exact List.not_mem_cons_of_ne_of_not_mem hc (ih htail)
  | case4 => exact h

/-- The lines of a text are filled one by one, each with what the lines behind it have left of the
supply. -/
theorem split_fill (hclean : wildcards.IsClean) (text : Text) (s : σ) :
    List.Forall₂ (fun line out => ∃ s' : σ, out = (fill wildcards line s').1)
      (Text.split '\n' text) (Text.split '\n' (fill wildcards text s).1) := by
  induction hlength : text.length using Nat.strong_induction_on generalizing text s with
  | _ length ih =>
      subst hlength
      rcases exists_first_line text with hone | ⟨line, rest, hline, rfl⟩
      · rw [Text.split_of_not_mem hone, Text.split_of_not_mem (not_mem_fill hclean hone s)]
        exact .cons ⟨s, rfl⟩ .nil
      · have hshort : rest.length < (line ++ '\n' :: rest).length := by
          rw [List.length_append, List.length_cons]
          omega
        rw [fill_line]
        dsimp only
        rw [Text.split_append_separator hline,
          Text.split_append_separator (not_mem_fill hclean hline _)]
        exact .cons ⟨_, rfl⟩ (ih _ hshort rest s rfl)

/-- A text without placeholders is expanded to itself. -/
theorem fill_of_placeholdersFrom_eq_nil {position : Nat} (h : placeholdersFrom position text = [])
    (s : σ) : fill wildcards text s = (text, s) := by
  have hplaces := foldr_fillPlaceholder wildcards (List.replicate position ' ') text s
  rw [List.length_replicate, h, List.foldr_nil, Prod.mk.injEq] at hplaces
  exact Prod.ext (List.append_cancel_left hplaces.1).symm hplaces.2.symm

/-- **Expansion keeps lines.** Whatever has been done to a store, by giving names texts and by
loading directories, each line in it is trimmed, not empty and on one line, so what is chosen is not
blank. Over such a store, whoever chooses, the expansion of a text has as many line ends as the
text, and each line in which no placeholder of the text lies stays as it is and where it is. -/
theorem expansion_keeps_lines (h : Relation.ReflTransGen Wildcards.Step .empty wildcards) :
    (∀ named ∈ wildcards.lists, ∀ line ∈ named.2,
        line ≠ [] ∧ Text.trim line = line ∧ '\n' ∉ line) ∧
      (∀ {σ : Type} [ChoiceSource σ] (name line : Text) (s : σ),
        (wildcards.choose name s).1 = some line → Text.trim line ≠ []) ∧
      ∀ {σ : Type} [ChoiceSource σ] (text : Text) (s : σ),
        (expandPlaceholders wildcards text s).1.count '\n' = text.count '\n' ∧
          ∀ i line, (Text.split '\n' text)[i]? = some line →
            (∀ span ∈ placeholders text, ¬span.Within (lineSpan text i)) →
              (Text.split '\n' (expandPlaceholders wildcards text s).1)[i]? = some line := by
  have hclean := Wildcards.isClean_of_steps h
  refine ⟨?_, ?_, ?_⟩
  · intro named hnamed line hline
    obtain ⟨hne, htrim, hone⟩ := hclean named hnamed line hline
    exact ⟨hne, htrim, hone⟩
  · intro σ _ name line s hchoose
    have hline := hclean.of_choose hchoose
    rw [hline.trim_eq]
    exact hline.ne_nil
  · intro σ _ text s
    rw [expandPlaceholders_eq_fill]
    have hlines := split_fill hclean text s
    constructor
    · have hlength := hlines.length_eq
      rw [Text.length_split, Text.length_split] at hlength
      exact (Nat.succ.inj hlength).symm
    · intro i line hline hno
      have hnone : placeholdersFrom (lineStart text i) line = [] := by
        rw [List.eq_nil_iff_forall_not_mem]
        intro span hspan
        have hmem : placeholdersFrom (0 + lineStart text i) line ⊆ placeholders text :=
          placeholdersFrom_subset hline
        rw [Nat.zero_add] at hmem
        refine hno span (hmem hspan) ?_
        rw [lineSpan, hline, Option.getD_some]
        exact within_of_mem_placeholdersFrom hspan
      obtain ⟨hi, rfl⟩ := List.getElem?_eq_some_iff.mp hline
      have hi' : i < (Text.split '\n' (fill wildcards text s).1).length := hlines.length_eq ▸ hi
      obtain ⟨s', hout⟩ := hlines.get hi hi'
      rw [List.get_eq_getElem, List.get_eq_getElem, fill_of_placeholdersFrom_eq_nil hnone] at hout
      rw [List.getElem?_eq_getElem hi', hout]

/-- A placeholder on the middle one of three lines, and underscores on the lines around it. -/
theorem expansion_keeps_lines_around_placeholder :
    let wildcards := Wildcards.empty.insert "__a__".toList "red\r\n \n blue".toList
    let text := "1__\n__a__\n__2".toList
    wildcards.lists = [("__a__".toList, ["red".toList, "blue".toList])] ∧
      ∀ {σ : Type} [ChoiceSource σ] (s : σ),
        (expandPlaceholders wildcards text s).1.count '\n' = 2 ∧
          (Text.split '\n' (expandPlaceholders wildcards text s).1)[0]? = some "1__".toList ∧
          (Text.split '\n' (expandPlaceholders wildcards text s).1)[2]? = some "__2".toList := by
  intro wildcards text
  refine ⟨by decide, ?_⟩
  intro σ _ s
  have hplaces : placeholders text = [⟨4, 9⟩] := by
    simp [placeholders, placeholdersFrom, lengthToClosing?, text]
  have hstore : Relation.ReflTransGen Wildcards.Step .empty wildcards :=
    .single (.insert .empty "__a__".toList "red\r\n \n blue".toList)
  obtain ⟨-, -, hlines⟩ := expansion_keeps_lines hstore
  obtain ⟨hcount, hkept⟩ := hlines text s
  rw [hplaces] at hkept
  refine ⟨hcount, ?_, ?_⟩
  · exact hkept 0 "1__".toList (by decide) (by decide)
  · exact hkept 2 "__2".toList (by decide) (by decide)

end TagPrompt
