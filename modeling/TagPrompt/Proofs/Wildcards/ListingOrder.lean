import Mathlib.Data.List.Nodup
import Mathlib.Data.List.Perm.Basic
import TagPrompt.Proofs.Wildcards.Loading

/-! Loading in any order. A directory lists its files in whatever order it likes. As no two files
have one stem, no list takes the place of another one, so the lists that are loaded are the same in
every order; and as the first file that cannot be read ends the loading, there is no order in which
a directory with such a file loads. -/

namespace TagPrompt.Wildcards

variable {files : FileTree} {directory stem text key : Text} {file : Bytes}
  {names listed : List Bytes} {stems : List Text} {lists : List (Text × List Text)}
  {list : List Text} {w : Wildcards}

/-- The path that the file of a stem is read by. -/
def pathOf (directory stem : Text) : Text := joinPath directory (stem ++ ".txt".toList)

/-- The outcomes that loading a directory can have: its files are added in some order of its
listing. -/
inductive Loading (files : FileTree) (directory : Text) : Except DataError Wildcards → Prop
  | missing (hlist : files.list directory = .error .notFound) : Loading files directory (.ok empty)
  | refused {fault : OsFault} (hlist : files.list directory = .error fault)
      (hfault : fault ≠ .notFound) :
      Loading files directory (.error (.unreadable directory (.system fault)))
  | listed {listed names : List Bytes} (hlist : files.list directory = .ok listed)
      (horder : names.Perm listed) : Loading files directory (ofFiles files directory names)

/-- A stem has this name and this list: its placeholder and the lines of its file. -/
structure HasList (files : FileTree) (directory stem : Text) (named : Text × List Text) : Prop where
  name_eq : named.1 = placeholderOf stem
  list_eq : ∃ text, files.readText (pathOf directory stem) = .ok text ∧ named.2 = Text.lines text

theorem loading_load (files : FileTree) (directory : Text) :
    Loading files directory (load files directory) := by
  rw [load]
  split
  · exact .missing (by assumption)
  · exact .refused (by assumption) (by assumption)
  · exact .listed (by assumption) (.refl _)

/-! ### Files and stems -/

/-- A name has a stem exactly when it is UTF-8 and `.txt` follows something in it. -/
theorem stemText?_eq_some_iff :
    stemText? file = some stem ↔ stem ≠ [] ∧ file = Utf8.encode (stem ++ ".txt".toList) := by
  constructor
  · intro h
    rw [stemText?] at h
    split at h
    · rename_i decoded hdecoded
      cases h
      obtain ⟨front, hfront, hdecode⟩ := Option.map_eq_some_iff.mp hdecoded
      rw [stem?] at hfront
      split_ifs at hfront with hparts
      cases hfront
      rw [Bool.and_eq_true, Bool.not_eq_true', List.isEmpty_eq_false_iff, beq_iff_eq] at hparts
      obtain ⟨hne, hextension⟩ := hparts
      have hencode := Utf8.encode_of_decode hdecode
      refine ⟨?_, ?_⟩
      · rintro rfl
        exact hne hencode.symm
      · rw [Utf8.encode_append, hencode, ← hextension, List.take_append_drop]
    · cases h
  · rintro ⟨hne, rfl⟩
    exact stemText?_encode hne

theorem mem_filterMap_stemText?_iff :
    stem ∈ names.filterMap stemText? ↔
      stem ≠ [] ∧ Utf8.encode (stem ++ ".txt".toList) ∈ names := by
  simp only [List.mem_filterMap, stemText?_eq_some_iff]
  constructor
  · rintro ⟨file, hfile, hne, rfl⟩
    exact ⟨hne, hfile⟩
  · rintro ⟨hne, hfile⟩
    exact ⟨_, hfile, hne, rfl⟩

theorem nodup_stems (h : names.Nodup) : (names.filterMap stemText?).Nodup := by
  refine List.Nodup.filterMap ?_ h
  intro file file' stem hfile hfile'
  rw [(stemText?_eq_some_iff.mp hfile).2, (stemText?_eq_some_iff.mp hfile').2]

theorem nodup_eraseDups (names : List Bytes) : names.eraseDups.Nodup := by
  induction hlength : names.length using Nat.strong_induction_on generalizing names with
  | _ length ih =>
      cases names with
      | nil => exact List.nodup_nil
      | cons name names =>
          have hshort : (names.filter fun other => !other == name).length < length := by
            rw [← hlength, List.length_cons]
            exact Nat.lt_succ_of_le (List.length_filter_le _ names)
          rw [List.eraseDups_cons, List.nodup_cons, List.mem_eraseDups]
          refine ⟨?_, ih _ hshort _ rfl⟩
          simp

theorem nodup_of_list (h : files.list directory = .ok listed) : listed.Nodup := by
  rw [FileTree.list] at h
  split at h <;> cases h
  exact nodup_eraseDups _

/-! ### Adding files -/

theorem addFile_of_no_stem (h : stemText? file = none) (w : Wildcards) :
    addFile files directory w file = .ok w := by
  rw [addFile, h]

theorem addFile_of_text (h : stemText? file = some stem)
    (hread : files.readText (pathOf directory stem) = .ok text) (w : Wildcards) :
    addFile files directory w file = .ok (w.insert (placeholderOf stem) text) := by
  rw [pathOf] at hread
  simp only [addFile, h, hread]

theorem addFile_of_fault {fault : IoFault} (h : stemText? file = some stem)
    (hread : files.readText (pathOf directory stem) = .error fault) (w : Wildcards) :
    addFile files directory w file = .error (.unreadable (pathOf directory stem) fault) := by
  rw [pathOf] at hread ⊢
  simp only [addFile, h, hread]

theorem insert_of_new (h : key ∉ w.lists.map Prod.fst) (text : Text) :
    w.insert key text = ⟨(key, Text.lines text) :: w.lists⟩ := by
  have hkept : w.lists.filter (fun named => named.1 != key) = w.lists := by
    rw [List.filter_eq_self]
    intro named hnamed
    rw [bne_iff_ne]
    rintro rfl
    exact h (List.mem_map_of_mem hnamed)
  rw [insert, hkept]

/-- Files with lists of new names put these in front of those that are there. -/
theorem foldlM_addFile
    (hlists : List.Forall₂ (HasList files directory) (names.filterMap stemText?) lists)
    (hnew : (lists.reverse.map Prod.fst ++ w.lists.map Prod.fst).Nodup) :
    names.foldlM (addFile files directory) w = .ok ⟨lists.reverse ++ w.lists⟩ := by
  induction names generalizing lists w with
  | nil =>
      cases hlists
      rfl
  | cons file names ih =>
      rw [List.foldlM_cons]
      cases hstem : stemText? file with
      | none =>
          rw [List.filterMap_cons_none hstem] at hlists
          rw [addFile_of_no_stem hstem]
          exact ih hlists hnew
      | some stem =>
          rw [List.filterMap_cons_some hstem] at hlists
          cases hlists with
          | @cons _ named _ lists hnamed hlists =>
              obtain ⟨name, list⟩ := named
              obtain ⟨rfl, text, hread, rfl⟩ := hnamed
              rw [List.reverse_cons, List.map_append, List.append_assoc] at hnew
              have hfresh : placeholderOf stem ∉ w.lists.map Prod.fst :=
                (List.nodup_cons.mp (List.nodup_append.mp hnew).2.1).1
              rw [addFile_of_text hstem hread, List.reverse_cons, List.append_assoc,
                insert_of_new hfresh]
              exact ih hlists hnew

/-- The first file that cannot be read ends the loading. -/
theorem exists_fault_of_foldlM (w : Wildcards)
    (h : ∃ stem ∈ names.filterMap stemText?, ∀ text,
      files.readText (pathOf directory stem) ≠ .ok text) :
    ∃ stem ∈ names.filterMap stemText?, ∃ fault,
      files.readText (pathOf directory stem) = .error fault ∧
        names.foldlM (addFile files directory) w =
          .error (.unreadable (pathOf directory stem) fault) := by
  induction names generalizing w with
  | nil =>
      obtain ⟨stem, hstem, -⟩ := h
      exact absurd hstem List.not_mem_nil
  | cons file names ih =>
      rw [List.foldlM_cons]
      cases hstem : stemText? file with
      | none =>
          rw [List.filterMap_cons_none hstem] at h ⊢
          rw [addFile_of_no_stem hstem]
          exact ih w h
      | some stem =>
          rw [List.filterMap_cons_some hstem] at h ⊢
          cases hread : files.readText (pathOf directory stem) with
          | error fault =>
              rw [addFile_of_fault hstem hread]
              exact ⟨stem, List.mem_cons_self, fault, hread, rfl⟩
          | ok text =>
              rw [addFile_of_text hstem hread]
              have hlater : ∃ stem ∈ names.filterMap stemText?, ∀ text,
                  files.readText (pathOf directory stem) ≠ .ok text := by
                obtain ⟨later, hlater, hfault⟩ := h
                rcases List.mem_cons.mp hlater with rfl | hlater
                · exact absurd hread (hfault text)
                · exact ⟨later, hlater, hfault⟩
              obtain ⟨later, hmem, hfault⟩ := ih (w.insert (placeholderOf stem) text) hlater
              exact ⟨later, List.mem_cons_of_mem stem hmem, hfault⟩

/-! ### Lists of a directory -/

theorem exists_lists
    (h : ∀ stem ∈ stems, ∃ text, files.readText (pathOf directory stem) = .ok text) :
    ∃ lists, List.Forall₂ (HasList files directory) stems lists := by
  induction stems with
  | nil => exact ⟨[], .nil⟩
  | cons stem stems ih =>
      obtain ⟨⟨text, hread⟩, hstems⟩ := List.forall_mem_cons.mp h
      obtain ⟨lists, hlists⟩ := ih hstems
      exact ⟨(placeholderOf stem, Text.lines text) :: lists,
        .cons ⟨rfl, text, hread, rfl⟩ hlists⟩

theorem map_fst_lists (h : List.Forall₂ (HasList files directory) stems lists) :
    lists.map Prod.fst = stems.map placeholderOf := by
  induction h with
  | nil => rfl
  | cons hnamed _ ih => rw [List.map_cons, List.map_cons, hnamed.name_eq, ih]

theorem mem_lists (h : List.Forall₂ (HasList files directory) stems lists) (hstem : stem ∈ stems)
    (hread : files.readText (pathOf directory stem) = .ok text) :
    (placeholderOf stem, Text.lines text) ∈ lists := by
  induction h with
  | nil => exact absurd hstem List.not_mem_nil
  | @cons first named _ _ hnamed _ ih =>
      rcases List.mem_cons.mp hstem with rfl | hstem
      · obtain ⟨hname, text', hread', hlines⟩ := hnamed
        cases hread.symm.trans hread'
        exact List.mem_cons.mpr (Or.inl (Prod.ext hname.symm hlines.symm))
      · exact List.mem_cons_of_mem named (ih hstem)

theorem get?_eq_some_iff (h : (w.lists.map Prod.fst).Nodup) :
    w.get? key = some list ↔ (key, list) ∈ w.lists := by
  constructor
  · intro hget
    obtain ⟨before, behind, hsplit, -⟩ := List.lookup_eq_some_iff.mp hget
    simp [hsplit]
  · intro hmem
    obtain ⟨before, behind, hsplit⟩ := List.append_of_mem hmem
    refine List.lookup_eq_some_iff.mpr ⟨before, behind, hsplit, ?_⟩
    intro named hnamed
    rw [hsplit, List.map_append, List.nodup_append] at h
    have hother := h.2.2 named.1 (List.mem_map_of_mem hnamed) key (by simp)
    simpa using hother.symm

/-- In every order, the files of a directory whose text files can all be read give the same
lists. -/
theorem exists_store_of_perm (hnodup : listed.Nodup) (horder : names.Perm listed)
    (hlists : List.Forall₂ (HasList files directory) (listed.filterMap stemText?) lists) :
    ∃ w, ofFiles files directory names = .ok w ∧ w.lists.Perm lists := by
  obtain ⟨found, hfound, hperm⟩ :=
    List.perm_comp_forall₂ (horder.filterMap stemText?) hlists
  have hkeys : (found.map Prod.fst).Nodup := by
    rw [map_fst_lists hfound]
    exact (nodup_stems (horder.nodup_iff.mpr hnodup)).map placeholderOf_injective
  have hnone : empty.lists = [] := rfl
  have hnew : (found.reverse.map Prod.fst ++ empty.lists.map Prod.fst).Nodup := by
    rwa [hnone, List.map_nil, List.append_nil, List.map_reverse, List.nodup_reverse]
  refine ⟨_, foldlM_addFile hfound hnew, ?_⟩
  rw [hnone, List.append_nil]
  exact (List.reverse_perm found).trans hperm

/-- **Loading does not depend on the order of the listing.** The text files of a directory are those
whose names are UTF-8 and have `.txt` behind something, and no two of them have one placeholder. If
all of them can be read, each gives one list, and whatever order the directory is listed in it loads
as exactly these lists. If one cannot be read, the directory does not load in any order, and the
error names a file that cannot be read. -/
theorem loading_in_any_order (hlist : files.list directory = .ok listed) :
    Loading files directory (load files directory) ∧
      (∀ stem, stem ∈ listed.filterMap stemText? ↔
        stem ≠ [] ∧ Utf8.encode (stem ++ ".txt".toList) ∈ listed) ∧
      ((listed.filterMap stemText?).map placeholderOf).Nodup ∧
      ((∀ stem ∈ listed.filterMap stemText?, ∃ text,
          files.readText (pathOf directory stem) = .ok text) →
        ∃ lists, List.Forall₂ (HasList files directory) (listed.filterMap stemText?) lists ∧
          ∀ outcome, Loading files directory outcome →
            ∃ w, outcome = .ok w ∧ w.lists.Perm lists ∧
              w.size = (listed.filterMap stemText?).length ∧
              ∀ key list, w.get? key = some list ↔ (key, list) ∈ lists) ∧
      ((∃ stem ∈ listed.filterMap stemText?, ∀ text,
          files.readText (pathOf directory stem) ≠ .ok text) →
        ∀ outcome, Loading files directory outcome →
          ∃ stem ∈ listed.filterMap stemText?, ∃ fault,
            files.readText (pathOf directory stem) = .error fault ∧
              outcome = .error (.unreadable (pathOf directory stem) fault)) := by
  have hnodup : listed.Nodup := nodup_of_list hlist
  have hkeys : ((listed.filterMap stemText?).map placeholderOf).Nodup :=
    (nodup_stems hnodup).map placeholderOf_injective
  have horders : ∀ outcome, Loading files directory outcome →
      ∃ names, names.Perm listed ∧ outcome = ofFiles files directory names := by
    intro outcome hloading
    cases hloading with
    | missing hmissing => exact nomatch hlist.symm.trans hmissing
    | refused hrefused _ => exact nomatch hlist.symm.trans hrefused
    | listed hlisted horder =>
        cases hlist.symm.trans hlisted
        exact ⟨_, horder, rfl⟩
  refine ⟨loading_load files directory, fun stem => mem_filterMap_stemText?_iff, hkeys, ?_, ?_⟩
  · intro hread
    obtain ⟨lists, hlists⟩ := exists_lists hread
    refine ⟨lists, hlists, fun outcome hloading => ?_⟩
    obtain ⟨names, horder, rfl⟩ := horders outcome hloading
    obtain ⟨w, hw, hperm⟩ := exists_store_of_perm hnodup horder hlists
    have hnames : (w.lists.map Prod.fst).Nodup := by
      rw [(hperm.map Prod.fst).nodup_iff, map_fst_lists hlists]
      exact hkeys
    refine ⟨w, hw, hperm, ?_, fun key list => ?_⟩
    · rw [size, hperm.length_eq, hlists.length_eq]
    · rw [get?_eq_some_iff hnames, hperm.mem_iff]
  · intro hfault outcome hloading
    obtain ⟨names, horder, rfl⟩ := horders outcome hloading
    have hmem : ∀ stem, stem ∈ names.filterMap stemText? ↔ stem ∈ listed.filterMap stemText? :=
      fun stem => (horder.filterMap stemText?).mem_iff
    simp only [← hmem] at hfault ⊢
    exact exists_fault_of_foldlM empty hfault

/-- Two lists, one of a file with several dots, beside files that give none; and a directory in
which one of two files is not UTF-8. -/
theorem loading_in_any_order_with_several_dots :
    let files : FileTree := ⟨[(["w".toList, "b.txt".toList].map Utf8.encode, .file [0x63]),
      (["w".toList, ".txt".toList].map Utf8.encode, .file [0xFF]),
      (["w".toList, "a.b.txt".toList].map Utf8.encode, .file [0x64, 0x0A, 0x65]),
      (["w".toList, "b.md".toList].map Utf8.encode, .file [0x66]),
      (["v".toList, "b.txt".toList].map Utf8.encode, .file [0x63]),
      (["v".toList, "bad.txt".toList].map Utf8.encode, .file [0xFF])]⟩
    (∀ outcome, Loading files "w".toList outcome →
      ∃ w, outcome = .ok w ∧ w.size = 2 ∧
        w.get? "__a.b__".toList = some ["d".toList, "e".toList]) ∧
      ∀ outcome, Loading files "v".toList outcome →
        outcome = .error (.unreadable "v/bad.txt".toList .notUtf8) := by
  intro files
  have hlist : files.list "w".toList =
      .ok (["b.txt", ".txt", "a.b.txt", "b.md"].map fun name => Utf8.encode name.toList) := by
    decide
  have hlist' : files.list "v".toList =
      .ok (["b.txt", "bad.txt"].map fun name => Utf8.encode name.toList) := by decide
  have hstems : (["b.txt", ".txt", "a.b.txt", "b.md"].map fun name =>
      Utf8.encode name.toList).filterMap stemText? = ["b".toList, "a.b".toList] := by decide
  have hstems' : (["b.txt", "bad.txt"].map fun name =>
      Utf8.encode name.toList).filterMap stemText? = ["b".toList, "bad".toList] := by decide
  have hb : files.readText (pathOf "w".toList "b".toList) = .ok "c".toList := by decide
  have hab : files.readText (pathOf "w".toList "a.b".toList) = .ok "d\ne".toList := by decide
  have hb' : files.readText (pathOf "v".toList "b".toList) = .ok "c".toList := by decide
  have hbad : files.readText (pathOf "v".toList "bad".toList) = .error .notUtf8 := by decide
  obtain ⟨-, -, -, hall, -⟩ := loading_in_any_order hlist
  obtain ⟨-, -, -, -, hsome⟩ := loading_in_any_order hlist'
  rw [hstems] at hall
  rw [hstems'] at hsome
  constructor
  · obtain ⟨lists, hlists, hstores⟩ := hall (by
      rintro stem (_ | ⟨_, _ | ⟨_, hnone⟩⟩)
      · exact ⟨_, hb⟩
      · exact ⟨_, hab⟩
      · exact absurd hnone List.not_mem_nil)
    have hmem : ("__a.b__".toList, ["d".toList, "e".toList]) ∈ lists :=
      mem_lists hlists (by decide) hab
    intro outcome hloading
    obtain ⟨w, houtcome, -, hsize, hget⟩ := hstores outcome hloading
    exact ⟨w, houtcome, hsize, (hget _ _).mpr hmem⟩
  · intro outcome hloading
    obtain ⟨stem, hstem, fault, hread, rfl⟩ :=
      hsome ⟨"bad".toList, by decide, fun text => by rw [hbad]; exact nofun⟩ outcome hloading
    rcases hstem with _ | ⟨_, _ | ⟨_, hnone⟩⟩
    · exact nomatch hb'.symm.trans hread
    · cases hbad.symm.trans hread
      rfl
    · exact absurd hnone List.not_mem_nil

end TagPrompt.Wildcards
