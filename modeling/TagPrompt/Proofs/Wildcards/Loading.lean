import TagPrompt.Proofs.Text.Utf8
import TagPrompt.Wildcards

/-! Loading the lists of a directory. A file that has a list by its name gives it to one name only,
so what the loaded lists hold under a name is what the files give that name, whatever order the
directory lists them in. -/

namespace TagPrompt.Wildcards

variable {files : FileTree} {directory stem text key : Text} {file : Bytes}
  {loaded names : List Bytes} {list : List Text} {w w' : Wildcards}

/-! ### Lists by name -/

theorem get?_empty (key : Text) : empty.get? key = none := rfl

theorem get?_insert_self (w : Wildcards) (key text : Text) :
    (w.insert key text).get? key = some (Text.lines text) :=
  List.lookup_cons_self

theorem get?_insert_of_ne {other : Text} (h : other ≠ key) (w : Wildcards) (text : Text) :
    (w.insert key text).get? other = w.get? other := by
  have hlists : ∀ lists : List (Text × List Text),
      (lists.filter fun named => named.1 != key).lookup other = lists.lookup other := by
    intro lists
    induction lists with
    | nil => rfl
    | cons named lists ih =>
        by_cases hkey : named.1 = key
        · have hother : (other == named.1) = false := beq_false_of_ne fun heq => h (heq.trans hkey)
          rw [List.filter_cons_of_neg (by simpa using hkey), List.lookup_cons, hother, ih]
        · rw [List.filter_cons_of_pos (by simpa using hkey), List.lookup_cons, List.lookup_cons, ih]
  change ((key, Text.lines text) :: w.lists.filter fun named => named.1 != key).lookup other = _
  rw [List.lookup_cons, beq_false_of_ne h]
  exact hlists w.lists

theorem placeholderOf_injective : Function.Injective placeholderOf := by
  intro stem stem' h
  exact List.append_cancel_left (List.append_cancel_right h)

/-! ### Files by name -/

theorem stemText?_encode (h : stem ≠ []) :
    stemText? (Utf8.encode (stem ++ ".txt".toList)) = some stem := by
  have hlength : (Utf8.encode (stem ++ ".txt".toList)).length - 4 = (Utf8.encode stem).length := by
    rw [Utf8.encode_append, List.length_append]
    exact Nat.add_sub_cancel _ 4
  have hstem : (Utf8.encode stem).isEmpty = false := by
    obtain ⟨c, rest, rfl⟩ := List.exists_cons_of_ne_nil h
    rw [List.isEmpty_eq_false_iff, Utf8.encode_cons]
    exact List.append_ne_nil_of_left_ne_nil (Utf8.encodeChar_ne_nil c) _
  have hparts : stem? (Utf8.encode (stem ++ ".txt".toList)) = some (Utf8.encode stem) := by
    rw [stem?, hlength, Utf8.encode_append, List.take_left, List.drop_left, hstem, beq_self_eq_true]
    rfl
  rw [stemText?, hparts, Option.map_some, Utf8.decode_encode]

/-- A file gives a name its list: the placeholder of its stem, the lines of its text. -/
def Gives (files : FileTree) (directory : Text) (file : Bytes) (key : Text) (list : List Text) :
    Prop :=
  ∃ stem text, stemText? file = some stem ∧ key = placeholderOf stem ∧
    files.readText (joinPath directory (stem ++ ".txt".toList)) = .ok text ∧
    list = Text.lines text

/-- Files that give one name its list have one stem, so they are read by one path. -/
theorem Gives.list_eq {file' : Bytes} {list' : List Text} (h : Gives files directory file key list)
    (h' : Gives files directory file' key list') : list' = list := by
  obtain ⟨stem, text, -, hkey, hread, rfl⟩ := h
  obtain ⟨stem', text', -, hkey', hread', rfl⟩ := h'
  obtain rfl := placeholderOf_injective (hkey.symm.trans hkey')
  rw [hread, Except.ok.injEq] at hread'
  rw [hread']

theorem exists_gives_concat_iff :
    (∃ file' ∈ loaded ++ [file], Gives files directory file' key list) ↔
      (∃ file' ∈ loaded, Gives files directory file' key list) ∨
        Gives files directory file key list := by
  simp only [List.mem_append, List.mem_singleton, or_and_right, exists_or, exists_eq_left]

/-! ### Loading file by file -/

/-- The lists of a store are those that some files give, each of them a file that can be read. -/
structure Holds (files : FileTree) (directory : Text) (loaded : List Bytes) (w : Wildcards) :
    Prop where
  readable : ∀ file ∈ loaded, ∀ stem, stemText? file = some stem →
    ∃ list, Gives files directory file (placeholderOf stem) list
  get?_iff : ∀ key list, w.get? key = some list ↔
    ∃ file ∈ loaded, Gives files directory file key list

theorem holds_empty (files : FileTree) (directory : Text) : Holds files directory [] empty := by
  refine ⟨nofun, fun key list => ⟨fun h => ?_, nofun⟩⟩
  rw [get?_empty] at h
  cases h

theorem Holds.passOver (h : Holds files directory loaded w) (hstem : stemText? file = none) :
    Holds files directory (loaded ++ [file]) w := by
  constructor
  · intro file' hfile stem hstem'
    rcases List.mem_append.mp hfile with hfile | hfile
    · exact h.readable file' hfile stem hstem'
    · obtain rfl := List.mem_singleton.mp hfile
      exact nomatch hstem.symm.trans hstem'
  · intro key list
    rw [exists_gives_concat_iff, h.get?_iff key list]
    refine (or_iff_left ?_).symm
    rintro ⟨stem, text, hstem', -⟩
    exact nomatch hstem.symm.trans hstem'

theorem Holds.insert (h : Holds files directory loaded w) (hstem : stemText? file = some stem)
    (hread : files.readText (joinPath directory (stem ++ ".txt".toList)) = .ok text) :
    Holds files directory (loaded ++ [file]) (w.insert (placeholderOf stem) text) := by
  have hgives : Gives files directory file (placeholderOf stem) (Text.lines text) :=
    ⟨stem, text, hstem, rfl, hread, rfl⟩
  constructor
  · intro file' hfile stem' hstem'
    rcases List.mem_append.mp hfile with hfile | hfile
    · exact h.readable file' hfile stem' hstem'
    · obtain rfl := List.mem_singleton.mp hfile
      obtain rfl := Option.some.inj (hstem.symm.trans hstem')
      exact ⟨Text.lines text, hgives⟩
  · intro key list
    rw [exists_gives_concat_iff, ← h.get?_iff key list]
    by_cases hkey : key = placeholderOf stem
    · -- A list that an earlier file gave this name is the one put in its place.
      subst hkey
      rw [get?_insert_self, Option.some.injEq]
      constructor
      · rintro rfl
        exact .inr hgives
      · rintro (hbefore | hfile)
        · obtain ⟨file', -, hgives'⟩ := (h.get?_iff _ _).mp hbefore
          exact hgives'.list_eq hgives
        · exact hfile.list_eq hgives
    · rw [get?_insert_of_ne hkey]
      refine (or_iff_left ?_).symm
      rintro ⟨stem', text', hstem', rfl, -⟩
      exact hkey (congrArg placeholderOf (Option.some.inj (hstem'.symm.trans hstem)))

theorem Holds.addFile (h : Holds files directory loaded w)
    (hadd : addFile files directory w file = .ok w') :
    Holds files directory (loaded ++ [file]) w' := by
  rw [Wildcards.addFile] at hadd
  cases hstem : stemText? file with
  | none =>
      rw [hstem] at hadd
      obtain rfl := Except.ok.inj hadd
      exact h.passOver hstem
  | some stem =>
      simp only [hstem] at hadd
      cases hread : files.readText (joinPath directory (stem ++ ".txt".toList)) with
      | error fault =>
          rw [hread] at hadd
          cases hadd
      | ok text =>
          rw [hread] at hadd
          obtain rfl := Except.ok.inj hadd
          exact h.insert hstem hread

theorem Holds.foldlM (h : Holds files directory loaded w)
    (hadd : names.foldlM (Wildcards.addFile files directory) w = .ok w') :
    Holds files directory (loaded ++ names) w' := by
  induction names generalizing loaded w with
  | nil =>
      obtain rfl := Except.ok.inj hadd
      rwa [List.append_nil]
  | cons file names ih =>
      rw [List.foldlM_cons] at hadd
      cases hfile : Wildcards.addFile files directory w file with
      | error fault =>
          rw [hfile] at hadd
          cases hadd
      | ok next =>
          rw [hfile] at hadd
          rw [List.append_cons]
          exact ih (h.addFile hfile) hadd

/-- What a directory loads as is known name by name, whatever order its files come in. -/
theorem holds_of_ofFiles (h : ofFiles files directory names = .ok w) :
    Holds files directory names w :=
  (holds_empty files directory).foldlM h

/-- A directory loads as some lists when its files are added in some order of its listing. -/
def LoadsAs (files : FileTree) (directory : Text) (listed : List Bytes) (w : Wildcards) : Prop :=
  files.list directory = .ok listed ∧
    ∃ names, names.Perm listed ∧ ofFiles files directory names = .ok w

theorem loadsAs_of_load (hlist : files.list directory = .ok names)
    (hload : load files directory = .ok w) : LoadsAs files directory names w := by
  rw [load, hlist] at hload
  exact ⟨hlist, names, .refl names, hload⟩

/-- A file of a directory that loads can be read, and its placeholder names its lines. -/
theorem LoadsAs.exists_text (h : LoadsAs files directory names w) (hstem : stem ≠ [])
    (hfile : Utf8.encode (stem ++ ".txt".toList) ∈ names) :
    ∃ text, files.readText (joinPath directory (stem ++ ".txt".toList)) = .ok text ∧
      w.get? (placeholderOf stem) = some (Text.lines text) := by
  obtain ⟨-, names', horder, hload⟩ := h
  have hholds : Holds files directory names' w := holds_of_ofFiles hload
  have hmem : Utf8.encode (stem ++ ".txt".toList) ∈ names' := horder.mem_iff.mpr hfile
  obtain ⟨list, hgives⟩ := hholds.readable _ hmem stem (stemText?_encode hstem)
  have hlist : w.get? (placeholderOf stem) = some list :=
    (hholds.get?_iff _ _).mpr ⟨_, hmem, hgives⟩
  obtain ⟨stem', text, -, hkey, hread, rfl⟩ := hgives
  obtain rfl := placeholderOf_injective hkey
  exact ⟨text, hread, hlist⟩

end TagPrompt.Wildcards
