import TagPrompt.Files.Tree
import TagPrompt.Proofs.Text.Utf8

/-! Files that are written and found again. A path is found where its names lead, and the node there
is the one that was put there last; names in a directory lead to places of their own. -/

namespace TagPrompt.FileTree

variable {tree : FileTree} {path directory : Text} {here place : FilePath} {names : List Bytes}
  {node last : FileNode}

/-! ### Finding -/

theorem eq_of_walk (h : walk tree here node names = .ok (place, last)) :
    place = names.foldl enter here ∧ (names ≠ [] → nodeAt? tree place = some last) := by
  induction names generalizing here node with
  | nil =>
      cases h
      exact ⟨rfl, fun hne => absurd rfl hne⟩
  | cons name names ih =>
      rw [walk.eq_def] at h
      dsimp only at h
      split at h
      · cases h
      split at h
      · cases h
      split at h
      · cases h
      rename_i next hnext
      obtain ⟨hplace, hnode⟩ := ih h
      refine ⟨hplace, fun _ => ?_⟩
      cases names with
      | nil =>
          cases h
          exact hnext
      | cons other names => exact hnode (List.cons_ne_nil other names)

/-- A path that leads to a node leads there by its names. -/
theorem eq_of_find (h : find tree path = .ok (place, node)) :
    place = located (Utf8.encode path) ∧ nodeAt? tree place = some node := by
  rw [find] at h
  dsimp only at h
  split at h
  · cases h
  split at h
  · cases h
  split at h
  · cases h
  rename_i hnames
  obtain ⟨hplace, hnode⟩ := eq_of_walk h
  exact ⟨hplace, hnode fun hnil => hnames (List.isEmpty_iff.mpr hnil)⟩

/-- What is known at the end of a path is found there. -/
theorem eq_of_find_of_lookup (h : find tree path = .ok (place, node))
    (hlookup : tree.nodes.lookup place = some last) : node = last := by
  have hnode := (eq_of_find h).2
  rw [nodeAt?, hlookup] at hnode
  exact (Option.some.inj hnode).symm

theorem readText_of_find {text : Text}
    (h : find tree path = .ok (place, .file (Utf8.encode text))) :
    readText tree path = .ok text := by
  simp only [readText, h, textOf, Utf8.decode_encode]

/-! ### Writing -/

theorem lookup_put_self (tree : FileTree) (path : Text) (content : Bytes) :
    (tree.put path content).nodes.lookup (located (Utf8.encode path)) = some (.file content) :=
  List.lookup_cons_self

theorem lookup_put_of_ne (h : place ≠ located (Utf8.encode path)) (content : Bytes) :
    (tree.put path content).nodes.lookup place = tree.nodes.lookup place := by
  rw [put, insert, List.lookup_cons, beq_eq_false_iff_ne.mpr h]

/-! ### Names in a directory -/

/-- A name of a node in a directory. -/
structure IsPlainName (name : Bytes) : Prop where
  ne_nil : name ≠ []
  ne_dot : name ≠ dotName
  ne_up : name ≠ upName
  slash_not_mem : slash ∉ name

instance (name : Bytes) : Decidable (IsPlainName name) :=
  decidable_of_iff (name ≠ [] ∧ name ≠ dotName ∧ name ≠ upName ∧ slash ∉ name)
    ⟨fun h => ⟨h.1, h.2.1, h.2.2.1, h.2.2.2⟩,
      fun h => ⟨h.ne_nil, h.ne_dot, h.ne_up, h.slash_not_mem⟩⟩

theorem enter_plain {name : Bytes} (h : IsPlainName name) (here : FilePath) :
    enter here name = here ++ [name] := by
  simp [enter, h.ne_nil, h.ne_dot, h.ne_up]

theorem namesOf_cons_slash (path : Bytes) : namesOf (slash :: path) = [] :: namesOf path := by
  rw [namesOf, if_pos rfl]

theorem namesOf_ne_nil (path : Bytes) : namesOf path ≠ [] := by
  cases path with
  | nil => exact List.cons_ne_nil _ _
  | cons b rest =>
      rw [namesOf]
      split_ifs
      · exact List.cons_ne_nil _ _
      · split <;> exact List.cons_ne_nil _ _

theorem namesOf_append_slash (front back : Bytes) :
    namesOf (front ++ slash :: back) = namesOf front ++ namesOf back := by
  induction front with
  | nil => exact namesOf_cons_slash back
  | cons b front ih =>
      rw [List.cons_append, namesOf, namesOf]
      split_ifs
      · rw [ih, List.cons_append]
      · obtain ⟨name, names, hnames⟩ := List.exists_cons_of_ne_nil (namesOf_ne_nil front)
        rw [ih, hnames, List.cons_append, List.cons_append]

theorem namesOf_of_slash_not_mem {name : Bytes} (h : slash ∉ name) : namesOf name = [name] := by
  induction name with
  | nil => rfl
  | cons b name ih =>
      have hb : b ≠ slash := Ne.symm (List.ne_of_not_mem_cons h)
      rw [namesOf, if_neg hb, ih (List.not_mem_of_not_mem_cons h)]

theorem located_of_slash_not_mem {name : Bytes} (h : slash ∉ name) :
    located name = enter [] name := by
  cases name with
  | nil => rfl
  | cons b name =>
      have hb : b ≠ slash := Ne.symm (List.ne_of_not_mem_cons h)
      rw [located, route, if_neg hb, namesOf_of_slash_not_mem h]
      rfl

/-- The last name of a path is entered from where the names before it lead. -/
theorem exists_located_append_slash (front : Bytes) :
    ∃ here, ∀ name, slash ∉ name → located (front ++ slash :: name) = enter here name := by
  cases front with
  | nil =>
      refine ⟨[rootName], fun name hname => ?_⟩
      rw [List.nil_append, located, route, if_pos rfl, namesOf_of_slash_not_mem hname]
      rfl
  | cons b front =>
      refine ⟨located (b :: front), fun name hname => ?_⟩
      rw [List.cons_append, located, located, route, route]
      split_ifs
      · rw [namesOf_append_slash, namesOf_of_slash_not_mem hname]
        exact List.foldl_append
      · rw [← List.cons_append, namesOf_append_slash, namesOf_of_slash_not_mem hname]
        exact List.foldl_append

/-- Plain names in a directory lead to nodes of these names. -/
theorem exists_located_joinPath (directory : Text) :
    ∃ here, ∀ name, IsPlainName (Utf8.encode name) →
      located (Utf8.encode (joinPath directory name)) = here ++ [Utf8.encode name] := by
  by_cases hempty : directory = []
  · refine ⟨[], fun name hname => ?_⟩
    rw [hempty, ← enter_plain hname, ← located_of_slash_not_mem hname.slash_not_mem]
    rfl
  -- the slash in front of the name is the directory's own or is put there
  obtain ⟨front, hfront⟩ : ∃ front, ∀ name, joinPath directory name = front ++ '/' :: name := by
    by_cases hslash : directory.getLast? = some '/'
    · obtain ⟨front, rfl⟩ := List.getLast?_eq_some_iff.mp hslash
      exact ⟨front, fun name => by simp [joinPath]⟩
    · exact ⟨directory, fun name => by simp [joinPath, hempty, hslash]⟩
  obtain ⟨here, hhere⟩ := exists_located_append_slash (Utf8.encode front)
  refine ⟨here, fun name hname => ?_⟩
  rw [hfront, Utf8.encode_append, Utf8.encode_cons, ← enter_plain hname]
  exact hhere (Utf8.encode name) hname.slash_not_mem

theorem located_joinPath_ne {name name' : Text} (hname : IsPlainName (Utf8.encode name))
    (hname' : IsPlainName (Utf8.encode name')) (hne : Utf8.encode name ≠ Utf8.encode name') :
    located (Utf8.encode (joinPath directory name)) ≠
      located (Utf8.encode (joinPath directory name')) := by
  obtain ⟨here, hhere⟩ := exists_located_joinPath directory
  rw [hhere name hname, hhere name' hname']
  exact fun h => hne (List.head_eq_of_cons_eq (List.append_cancel_left h))

end TagPrompt.FileTree
