import Mathlib.Data.List.Nodup
import TagPrompt.Proofs.Toml.Statements
import TagPrompt.Toml.Record

/-! Tables there and back. Statements that give each of some tables its header and its pairs, no key
twice, make a table of these tables; and the fields of a record are found in its table. -/

namespace TagPrompt

variable {names : List Text} {values : List (Option TomlValue)} {entries known : TomlEntries}

/-! ### Records -/

namespace TomlEntries

/-- The fields of a record that have a value, under their names. -/
def ofFields (names : List Text) (values : List (Option TomlValue)) : TomlEntries :=
  (names.zip values).filterMap fun field => field.2.map (Prod.mk field.1)

theorem ofFields_none (name : Text) (names : List Text) (values : List (Option TomlValue)) :
    ofFields (name :: names) (none :: values) = ofFields names values := rfl

theorem ofFields_some (name : Text) (value : TomlValue) (names : List Text)
    (values : List (Option TomlValue)) :
    ofFields (name :: names) (some value :: values) = (name, value) :: ofFields names values := rfl

theorem keys_ofFields_sublist (names : List Text) (values : List (Option TomlValue)) :
    ((ofFields names values).map Prod.fst).Sublist names := by
  induction names generalizing values with
  | nil => exact List.Sublist.refl []
  | cons name names ih =>
      cases values with
      | nil => exact List.nil_sublist _
      | cons value values =>
          cases value with
          | none =>
              rw [ofFields_none]
              exact (ih values).cons name
          | some value =>
              rw [ofFields_some, List.map_cons]
              exact (ih values).cons_cons name

theorem lookup_eq_none {key : Text} (h : key ∉ entries.map Prod.fst) :
    entries.lookup key = none := by
  rw [List.lookup_eq_none_iff]
  intro entry hentry
  rw [bne_iff_ne]
  rintro rfl
  exact h (List.mem_map_of_mem hentry)

/-- Each field is found under its name. -/
theorem lookup_ofFields (hnodup : names.Nodup) (hlength : names.length = values.length) :
    (names.map fun name => (ofFields names values).lookup name) = values := by
  induction names generalizing values with
  | nil => exact (List.length_eq_zero_iff.mp hlength.symm).symm
  | cons name names ih =>
      obtain ⟨hname, hnames⟩ := List.nodup_cons.mp hnodup
      cases values with
      | nil => cases hlength
      | cons value values =>
          have hrest := ih hnames (Nat.succ.inj hlength)
          cases value with
          | none =>
              have hkey : name ∉ (ofFields names values).map Prod.fst := fun h =>
                hname ((keys_ofFields_sublist names values).subset h)
              rw [ofFields_none, List.map_cons, hrest, lookup_eq_none hkey]
          | some value =>
              have hskip : ∀ other ∈ names,
                  ((name, value) :: ofFields names values).lookup other =
                    (ofFields names values).lookup other := by
                intro other hother
                have hne : other ≠ name := fun h => hname (h ▸ hother)
                rw [List.lookup_cons, beq_false_of_ne hne]
              rw [ofFields_some, List.map_cons, List.map_congr_left hskip, hrest,
                List.lookup_cons_self]

theorem fields?_ofFields (hnodup : names.Nodup) (hlength : names.length = values.length)
    (origin : TableOrigin) :
    (TomlValue.table origin (ofFields names values)).fields? names = some values := by
  rw [TomlValue.fields?, if_pos, lookup_ofFields hnodup hlength]
  rw [List.all_eq_true]
  intro entry hentry
  have hname : entry.1 ∈ names :=
    (keys_ofFields_sublist names values).subset (List.mem_map_of_mem hentry)
  simp [hname]

/-! ### Adding what is not there yet -/

/-- An entry as a pair of its table. -/
def pairOf (entry : Text × TomlValue) : TomlPair := ⟨[], entry.1, entry.2⟩

theorem get?_eq_none {key : Text} {rest : List Text}
    (h : (entries.map Prod.fst ++ key :: rest).Nodup) : get? entries key = none := by
  apply lookup_eq_none
  intro hkey
  exact (List.nodup_append.mp h).2.2 key hkey key List.mem_cons_self rfl

theorem addPairs_fresh {origin : TableOrigin} (horigin : origin ≠ .dotted)
    (h : (known.map Prod.fst ++ entries.map Prod.fst).Nodup) :
    addPairs origin (entries.map pairOf) known = some (known ++ entries) := by
  induction entries generalizing known with
  | nil =>
      show some known = some (known ++ [])
      rw [List.append_nil]
  | cons entry entries ih =>
      have hfresh : get? known entry.1 = none := get?_eq_none h
      have hadd : change true (addPair (pairOf entry)) (pairOf entry).path origin known =
          some (known ++ [entry]) := by
        show addPair (pairOf entry) origin known = _
        rw [addPair, if_neg (by simp [pairOf, horigin])]
        simp [pairOf, hfresh]
      have hrest : ((known ++ [entry]).map Prod.fst ++ entries.map Prod.fst).Nodup := by
        rw [List.map_append, List.append_assoc]
        exact h
      have hind := ih hrest
      rw [addPairs, List.append_assoc, List.singleton_append] at hind
      rw [addPairs, List.map_cons, List.foldlM_cons, hadd]
      exact hind

/-- A table of a document: its name and its entries. -/
abbrev Named := Text × TomlEntries

/-- A named table as a section of pairs, and as an entry of the table around it. -/
def sectionOf (named : Named) : TomlSection := .table [] named.1 (named.2.map pairOf)
def entryOf (named : Named) : Text × TomlValue := (named.1, .table .header named.2)

theorem addSection_fresh {named : Named} (hfresh : get? known named.1 = none)
    (hkeys : (named.2.map Prod.fst).Nodup) :
    addSection known (sectionOf named) = some (known ++ [entryOf named]) := by
  have hpairs : addPairs .header (named.2.map pairOf) [] = some ([] ++ named.2) :=
    addPairs_fresh nofun hkeys
  show addTable named.1 (named.2.map pairOf) .header known = _
  rw [addTable, hfresh]
  simp only [hpairs, Option.map_some]
  rfl

theorem addSections_fresh {tables : List Named} (known : TomlEntries)
    (hkeys : ∀ named ∈ tables, (named.2.map Prod.fst).Nodup)
    (h : (known.map Prod.fst ++ tables.map Prod.fst).Nodup) :
    (tables.map sectionOf).foldlM addSection known = some (known ++ tables.map entryOf) := by
  induction tables generalizing known with
  | nil =>
      show some known = some (known ++ [])
      rw [List.append_nil]
  | cons named tables ih =>
      obtain ⟨hnamed, htables⟩ := List.forall_mem_cons.mp hkeys
      have hrest : ((known ++ [entryOf named]).map Prod.fst ++ tables.map Prod.fst).Nodup := by
        rw [List.map_append, List.append_assoc]
        exact h
      have hind := ih (known ++ [entryOf named]) htables hrest
      rw [List.append_assoc, List.singleton_append] at hind
      rw [List.map_cons, List.foldlM_cons, addSection_fresh (get?_eq_none h) hnamed]
      exact hind

end TomlEntries

/-! ### Documents -/

namespace TomlReader

open TomlEntries

/-- The statements of a named table. -/
def statementsOf (named : Named) : List Statement :=
  .header false [] named.1 :: named.2.map fun entry => .pair (pairOf entry)

theorem documentOf_cons (statement : Statement) (statements : List Statement) :
    documentOf (statement :: statements) = place statement (documentOf statements) := rfl

theorem documentOf_pairs (entries : TomlEntries) (statements : List Statement) :
    documentOf ((entries.map fun entry => .pair (pairOf entry)) ++ statements) =
      { documentOf statements with
        pairs := entries.map pairOf ++ (documentOf statements).pairs } := by
  induction entries with
  | nil => rfl
  | cons entry entries ih =>
      rw [List.map_cons, List.cons_append, documentOf_cons, ih]
      rfl

theorem documentOf_tables (tables : List Named) :
    documentOf (tables.flatMap statementsOf) = ⟨[], tables.map sectionOf⟩ := by
  induction tables with
  | nil => rfl
  | cons named tables ih =>
      rw [List.flatMap_cons, statementsOf, List.cons_append, documentOf_cons, documentOf_pairs, ih]
      simp [place, sectionOf]

/-- A text of the lines of named tables is the table of them. -/
theorem parse_of_reads {t : Text} {tables : List Named}
    (h : Reads t (tables.flatMap statementsOf)) (hnames : (tables.map Prod.fst).Nodup)
    (hkeys : ∀ named ∈ tables, (named.2.map Prod.fst).Nodup) :
    TomlValue.parse t = some (.table .header (tables.map entryOf)) := by
  have hsections := addSections_fresh [] hkeys hnames
  rw [TomlValue.parse, parseDocument_of_reads h, Option.bind_some, documentOf_tables,
    TomlDocument.table?]
  show ((tables.map sectionOf).foldlM addSection []).bind _ = _
  rw [hsections]
  rfl

end TomlReader
end TagPrompt
