import Mathlib.Data.List.Infix
import TagPrompt.Proofs.Expansion.Placeholders
import TagPrompt.Proofs.Wildcards.Loading

/-! Which lists can be addressed. A placeholder ends at the first two underscores behind its
opening ones, so the placeholder of a name is found as a whole only where the name and the
underscore that follows it have no two underscores in a row. The list of any other name is never
asked for, whatever the text. -/

namespace TagPrompt.Wildcards

variable {σ : Type} [ChoiceSource σ] {files : FileTree} {directory name key text rest : Text}
  {names : List Bytes} {list : List Text} {w w' : Wildcards} {n : Nat}

/-! ### Addressable names -/

/-- The names whose placeholder ends where the name does: they are on one line, and no two
underscores stand in a row in them and the first closing underscore. -/
def Addressable (name : Text) : Prop := '\n' ∉ name ∧ ¬ "__".toList <:+: name ++ ['_']

instance (name : Text) : Decidable (Addressable name) :=
  inferInstanceAs (Decidable (_ ∧ _))

theorem addressable_cons_iff {c : Char} :
    Addressable (c :: rest) ↔
      ¬(c = '_' ∧ (rest ++ ['_']).head? = some '_') ∧ c ≠ '\n' ∧ Addressable rest := by
  have hfirst : "__".toList <+: c :: (rest ++ ['_']) ↔
      c = '_' ∧ (rest ++ ['_']).head? = some '_' := by
    cases rest with
    | nil => simp [eq_comm]
    | cons d rest => simp [eq_comm]
  rw [Addressable, Addressable, List.cons_append, List.infix_cons_iff, hfirst, List.mem_cons]
  tauto

theorem head?_append_closing (name after : Text) :
    (name ++ ('_' :: '_' :: after)).head? = (name ++ ['_']).head? := by
  cases name <;> rfl

/-- Behind an addressable name, the closing underscores are the first two in a row. -/
theorem lengthToClosing?_of_addressable (h : Addressable name) (after : Text) :
    lengthToClosing? (name ++ '_' :: '_' :: after) = some name.length := by
  induction name with
  | nil => rfl
  | cons c rest ih =>
      obtain ⟨hclosing, hline, hrest⟩ := addressable_cons_iff.mp h
      rw [List.cons_append, lengthToClosing?, head?_append_closing, if_neg hclosing, if_neg hline,
        ih hrest]
      rfl

/-- What stands in front of the first two underscores in a row of a line is an addressable name. -/
theorem exists_of_lengthToClosing? (h : lengthToClosing? text = some n) :
    ∃ name after, Addressable name ∧ name.length = n ∧ text = name ++ '_' :: '_' :: after := by
  induction text generalizing n with
  | nil => cases h
  | cons c rest ih =>
      rw [lengthToClosing?] at h
      split_ifs at h with hclosing hline
      · obtain ⟨rfl, hnext⟩ := hclosing
        obtain ⟨after, rfl⟩ := List.head?_eq_some_iff.mp hnext
        obtain rfl := Option.some.inj h
        exact ⟨[], after, by decide, rfl, rfl⟩
      · obtain ⟨m, hm, rfl⟩ := Option.map_eq_some_iff.mp h
        obtain ⟨name, after, hname, rfl, rfl⟩ := ih hm
        rw [head?_append_closing] at hclosing
        refine ⟨c :: name, after, ?_, rfl, rfl⟩
        exact addressable_cons_iff.mpr ⟨hclosing, hline, hname⟩

/-! ### The placeholder of an addressable name -/

/-- The part of a text up to the closing underscores of a placeholder is that placeholder. -/
theorem take_closing (name after : Text) :
    '_' :: '_' :: (name ++ '_' :: '_' :: after).take (name.length + 2) = placeholderOf name := by
  rw [List.take_length_add_append]
  rfl

/-- The placeholder of an addressable name is found as a whole. -/
theorem expandPlaceholders_placeholderOf (w : Wildcards) (h : Addressable name) (s : σ) :
    expandPlaceholders w (placeholderOf name) s =
      ((w.choose (placeholderOf name) s).1.getD (placeholderOf name),
        (w.choose (placeholderOf name) s).2) := by
  have hclosing : lengthToClosing? (name ++ ['_', '_']) = some name.length :=
    lengthToClosing?_of_addressable h []
  have hbehind : (name ++ ['_', '_']).drop (name.length + 2) = [] := by
    rw [List.drop_length_add_append]
    rfl
  calc expandPlaceholders w (placeholderOf name) s
      = fill w ('_' :: '_' :: (name ++ ['_', '_'])) s := expandPlaceholders_eq_fill w _ s
    _ = _ := by
        rw [fill_closed w hclosing, hbehind, take_closing name [], fill]
        simp only [List.append_nil]

/-- Where the list of a name has a line, one of its lines is chosen. -/
theorem exists_choose_of_get? (h : w.get? key = some list) (hlist : list ≠ []) (s : σ) :
    ∃ line ∈ list, (w.choose key s).1 = some line := by
  obtain ⟨first, more, rfl⟩ := List.exists_cons_of_ne_nil hlist
  rw [choose, h, Option.getD_some, ChoiceSource.pick]
  exact ⟨_, List.get_mem _ _, rfl⟩

/-! ### Lists that are never asked for -/

theorem choose_congr (h : w.get? key = w'.get? key) (s : σ) : w.choose key s = w'.choose key s := by
  rw [choose, choose, h]

/-- Stores that agree on the lists of addressable names fill every text alike. -/
theorem fill_congr
    (h : ∀ name, Addressable name → w.get? (placeholderOf name) = w'.get? (placeholderOf name))
    (text : Text) (s : σ) : fill w text s = fill w' text s := by
  fun_induction fill w text s with
  | case1 rest n hclosing after s' hafter placeholder line s'' hline ih =>
      -- what is cut out of a text is always the placeholder of an addressable name
      have hget : w.get? placeholder = w'.get? placeholder := by
        obtain ⟨name, behind, hname, rfl, rfl⟩ := exists_of_lengthToClosing? hclosing
        rw [show placeholder = placeholderOf name from take_closing name behind]
        exact h name hname
      rw [fill_closed w' hclosing, ← ih, hafter]
      change _ = ((w'.choose placeholder s').1.getD placeholder ++ after,
        (w'.choose placeholder s').2)
      rw [← choose_congr hget, hline]
  | case2 rest hopen after s' hafter ih => rw [fill_open w' hopen, ← ih, hafter]
  | case3 c rest hno after s' hafter ih => rw [fill_cons w' hno, ← ih, hafter]
  | case4 => rw [fill]

/-- No text asks for the list of a name that is not addressable, so it may as well be any other. -/
theorem expandPlaceholders_insert_of_not_addressable (h : ¬Addressable name) (w : Wildcards)
    (text other : Text) (s : σ) :
    expandPlaceholders (w.insert (placeholderOf name) other) text s =
      expandPlaceholders w text s := by
  rw [expandPlaceholders_eq_fill, expandPlaceholders_eq_fill]
  apply fill_congr
  intro asked hasked
  apply get?_insert_of_ne
  intro hplaceholder
  obtain rfl := placeholderOf_injective hplaceholder
  exact h hasked

/-! ### Lists of a directory -/

/-- **Lists by the names of their files.** Whatever order the files of a directory are loaded in,
each `NAME.txt` can be read, and if its name is addressable and it has a line that is not blank,
then whoever chooses, the placeholder `__NAME__` is replaced by one of its lines. If the name is not
addressable, no text is expanded to anything that depends on the list. -/
theorem placeholder_replaced_by_line_of_file (hload : LoadsAs files directory names w)
    (hname : name ≠ []) (hfile : Utf8.encode (name ++ ".txt".toList) ∈ names) :
    ∃ text, files.readText (joinPath directory (name ++ ".txt".toList)) = .ok text ∧
      (Addressable name → Text.lines text ≠ [] → ∀ {σ : Type} [ChoiceSource σ] (s : σ),
        (expandPlaceholders w (placeholderOf name) s).1 ∈ Text.lines text) ∧
      (¬Addressable name → ∀ {σ : Type} [ChoiceSource σ] (input other : Text) (s : σ),
        expandPlaceholders (w.insert (placeholderOf name) other) input s =
          expandPlaceholders w input s) := by
  obtain ⟨text, hread, hlist⟩ := hload.exists_text hname hfile
  refine ⟨text, hread, ?_, ?_⟩
  · intro haddressable hlines σ _ s
    obtain ⟨line, hline, hchoose⟩ := exists_choose_of_get? hlist hlines s
    rw [expandPlaceholders_placeholderOf w haddressable, hchoose]
    exact hline
  · intro haddressable σ _ input other s
    exact expandPlaceholders_insert_of_not_addressable haddressable w input other s

/-- A file `eye_color.txt` in a directory. -/
theorem placeholder_replaced_by_line_of_file_single_underscore :
    let files := FileTree.put {} "w/eye_color.txt".toList (Utf8.encode "red\n\n blue".toList)
    ∃ w, load files "w".toList = .ok w ∧ ∀ {σ : Type} [ChoiceSource σ] (s : σ),
      (expandPlaceholders w "__eye_color__".toList s).1 ∈ ["red".toList, "blue".toList] := by
  intro files
  have hlist : files.list "w".toList = .ok [Utf8.encode "eye_color.txt".toList] := by decide
  have hloaded : load files "w".toList =
      .ok ⟨[("__eye_color__".toList, ["red".toList, "blue".toList])]⟩ := by decide
  have hread : files.readText (joinPath "w".toList "eye_color.txt".toList) =
      .ok "red\n\n blue".toList := by decide
  refine ⟨_, hloaded, ?_⟩
  intro σ _ s
  obtain ⟨text, htext, haddressed, -⟩ :=
    placeholder_replaced_by_line_of_file (loadsAs_of_load hlist hloaded)
      (show "eye_color".toList ≠ [] by decide) (List.mem_singleton_self _)
  obtain rfl : "red\n\n blue".toList = text := Except.ok.inj (hread.symm.trans htext)
  exact haddressed (by decide) (by decide) s

/-- The list of a file `hair_.txt` is loaded, but its placeholder ends one underscore too early. -/
theorem placeholder_of_trailing_underscore_stays :
    let files := FileTree.put {} "w/hair_.txt".toList (Utf8.encode "red\n".toList)
    ∃ w, load files "w".toList = .ok w ∧ w.get? "__hair___".toList = some ["red".toList] ∧
      ∀ {σ : Type} [ChoiceSource σ] (s : σ),
        expandPlaceholders w "__hair___".toList s = ("__hair___".toList, s) := by
  intro files
  have hloaded : load files "w".toList = .ok ⟨[("__hair___".toList, ["red".toList])]⟩ := by decide
  refine ⟨_, hloaded, by decide, ?_⟩
  intro σ _ s
  have hclosing : lengthToClosing? "hair___".toList = some 4 := by decide
  have hlast : fill ⟨[("__hair___".toList, ["red".toList])]⟩ ['_'] s = (['_'], s) := by
    rw [fill_cons, fill]
    intro tail _ hrest
    cases hrest
  have hbehind : "hair___".toList.drop (4 + 2) = ['_'] := by decide
  rw [expandPlaceholders_eq_fill]
  change fill _ ('_' :: '_' :: "hair___".toList) s = _
  rw [fill_closed _ hclosing, hbehind, hlast]
  rfl

end TagPrompt.Wildcards
