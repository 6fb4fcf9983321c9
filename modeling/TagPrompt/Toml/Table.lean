import TagPrompt.Text.Basic

/-! TOML values, and putting pairs and headers together to tables. Tables keep their entries in the
order in which keys first occur. Each key is defined once; a table that is not
there yet is made on the way to what is defined inside it, and the origin of a table says who may
enter it. -/

namespace TagPrompt

/-- How a table came to be, which decides what may be added to it later. -/
inductive TableOrigin
  /-- It was written between braces and is complete. -/
  | inline
  /-- It has a header of its own. -/
  | header
  /-- It was only passed on the way to a header, so it may still get its own. -/
  | implied
  /-- A dotted key made it or added to it, so only dotted keys add pairs to it. -/
  | dotted
  deriving DecidableEq, Repr

/-- A TOML value. Integers are of any size; floats and points in time are kept as they are written.
-/
inductive TomlValue
  | string (value : Text)
  | integer (value : Int)
  | float (written : Text)
  | boolean (value : Bool)
  | moment (written : Text)
  | array (items : List TomlValue)
  | table (origin : TableOrigin) (entries : List (Text × TomlValue))
  /-- The tables of one repeated header. -/
  | tableArray (tables : List (List (Text × TomlValue)))
  deriving Inhabited

abbrev TomlEntries := List (Text × TomlValue)

/-- A value under a dotted key: the keys of the tables that lead to it, and its own. -/
structure TomlPair where
  path : List Text
  key : Text
  value : TomlValue

/-- A run of pairs with the header that they stand under. -/
inductive TomlSection
  | table (path : List Text) (key : Text) (pairs : List TomlPair)
  /-- One more table of a repeated header. -/
  | element (path : List Text) (key : Text) (pairs : List TomlPair)

/-- A document as it is written: the pairs in front of all headers, then the sections. -/
structure TomlDocument where
  pairs : List TomlPair
  sections : List TomlSection

namespace TomlEntries

def get? (entries : TomlEntries) (key : Text) : Option TomlValue := entries.lookup key

/-- Gives a key its value, in place of any it had. -/
def put (key : Text) (value : TomlValue) : TomlEntries → TomlEntries
  | [] => [(key, value)]
  | (known, old) :: rest =>
      if known = key then (key, value) :: rest else (known, old) :: put key value rest

/-- What is done to the entries of a table that a path leads to. -/
abbrev Change := TableOrigin → TomlEntries → Option TomlEntries

/-- Whether a dotted key or a header may pass through a table. -/
def mayPass (dotted : Bool) : TableOrigin → Bool
  | .inline => false
  | .header => !dotted
  | .implied | .dotted => true

/-- What a table is after a dotted key or a header has passed through it: one that a dotted key has
added to gets no header of its own any more. -/
def passed (dotted : Bool) : TableOrigin → TableOrigin
  | .implied => if dotted then .dotted else .implied
  | origin => origin

/-- Changes the table at the end of a path. Tables that are missing on the way are made; a repeated
header stands for the last of its tables. -/
def change (dotted : Bool) (f : Change) : (path : List Text) → Change
  | [], origin, entries => f origin entries
  | key :: path, _, entries =>
      match get? entries key with
      | none =>
          let origin := passed dotted .implied
          (change dotted f path origin []).map fun made => put key (.table origin made) entries
      | some (.table origin inner) =>
          if mayPass dotted origin then
            let origin := passed dotted origin
            (change dotted f path origin inner).map fun changed =>
              put key (.table origin changed) entries
          else none
      | some (.tableArray tables) =>
          match tables.getLast? with
          | some last =>
              (change dotted f path .header last).map fun changed =>
                put key (.tableArray (tables.dropLast ++ [changed])) entries
          | none => none
      | some _ => none

/-- Adds a key that is not there yet. A table that dotted keys made or passed through takes pairs
from dotted keys only, any other table takes none from them. -/
def addPair (pair : TomlPair) : Change := fun origin entries =>
  if (origin = .dotted) = (pair.path = []) then none
  else if (get? entries pair.key).isSome then none
  else some (entries ++ [(pair.key, pair.value)])

/-- Adds pairs one after another to the table that they stand in. -/
def addPairs (origin : TableOrigin) (pairs : List TomlPair) (entries : TomlEntries) :
    Option TomlEntries :=
  pairs.foldlM (fun entries pair => change true (addPair pair) pair.path origin entries) entries

/-- Defines the table of a header. A table that headers of other tables implied is completed. -/
def addTable (key : Text) (pairs : List TomlPair) : Change := fun _ entries =>
  match get? entries key with
  | none => (addPairs .header pairs []).map fun made => entries ++ [(key, .table .header made)]
  | some (.table .implied known) =>
      (addPairs .header pairs known).map fun made => put key (.table .header made) entries
  | some _ => none

def addElement (key : Text) (pairs : List TomlPair) : Change := fun _ entries => do
  let made ← addPairs .header pairs []
  match get? entries key with
  | none => some (entries ++ [(key, .tableArray [made])])
  | some (.tableArray tables) => some (put key (.tableArray (tables ++ [made])) entries)
  | some _ => none

def addSection (entries : TomlEntries) : TomlSection → Option TomlEntries
  | .table path key pairs => change false (addTable key pairs) path .header entries
  | .element path key pairs => change false (addElement key pairs) path .header entries

end TomlEntries

def TomlValue.ofInlinePairs (pairs : List TomlPair) : Option TomlValue :=
  (TomlEntries.addPairs .inline pairs []).map (.table .inline)

/-- The table that a document describes, if its parts fit together. -/
def TomlDocument.table? (document : TomlDocument) : Option TomlValue := do
  let entries ← TomlEntries.addPairs .header document.pairs []
  return .table .header (← document.sections.foldlM TomlEntries.addSection entries)

end TagPrompt
