import TagPrompt.Toml.Number
import TagPrompt.Toml.Table

/-! TOML values of a fixed shape: records with named fields, and the simple values in them. A record
is a table, in which keys nobody asks for are passed over, or an array with the fields in order. -/

namespace TagPrompt.TomlValue

mutual

def isBounded : TomlValue → Bool
  | .integer value => TomlNumber.isBounded value
  | .float written => TomlNumber.isBoundedFloat written
  | .array items => areBounded items
  | .table _ entries => entriesAreBounded entries
  | .tableArray tables => tablesAreBounded tables
  | .string _ | .boolean _ | .moment _ => true

def areBounded : List TomlValue → Bool
  | [] => true
  | value :: rest => isBounded value && areBounded rest

def entriesAreBounded : TomlEntries → Bool
  | [] => true
  | (_, value) :: rest => isBounded value && entriesAreBounded rest

def tablesAreBounded : List TomlEntries → Bool
  | [] => true
  | entries :: rest => entriesAreBounded entries && tablesAreBounded rest

end

/-- The values of the named fields, `none` for a field that is absent. The other keys of a table may
have any value that can be held; what stands in an array behind the fields is not looked at. A point
in time counts as a table with a key of its own, which is nobody's field. -/
def fields? (names : List Text) : TomlValue → Option (List (Option TomlValue))
  | .table _ entries =>
      if entries.all fun (key, value) => names.contains key || value.isBounded then
        some (names.map fun name => entries.lookup name)
      else none
  | .moment _ => some (names.map fun _ => none)
  | .array items => some ((List.range names.length).map fun i => items[i]?)
  | .tableArray tables =>
      some ((List.range names.length).map fun i => tables[i]?.map (.table .header))
  | _ => none

def text? : TomlValue → Option Text
  | .string value => some value
  | _ => none

def flag? : TomlValue → Option Bool
  | .boolean value => some value
  | _ => none

/-- An integer from zero up to what 64 bits hold. -/
def count? : TomlValue → Option UInt64
  | .integer value =>
      if 0 ≤ value && value.toNat < UInt64.size then some value.toNat.toUInt64 else none
  | _ => none

/-- The value of a field that has a default. -/
def fieldOr {α : Type} (absent : α) (read : TomlValue → Option α) : Option TomlValue → Option α
  | none => some absent
  | some value => read value

end TagPrompt.TomlValue
