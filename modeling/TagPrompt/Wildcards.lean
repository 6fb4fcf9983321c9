import TagPrompt.Choice.Basic
import TagPrompt.DataFile

/-! Named lists of lines, one of which replaces each placeholder that has the name of the list. They
are loaded from a directory, in which each file `NAME.txt` gives the list of the placeholder
`__NAME__`. -/

namespace TagPrompt

/-- Named lists; a name has one list. -/
structure Wildcards where
  lists : List (Text × List Text) := []
  deriving DecidableEq, Repr, Inhabited

namespace Wildcards

def empty : Wildcards := {}

def size (w : Wildcards) : Nat := w.lists.length

def get? (w : Wildcards) (name : Text) : Option (List Text) := w.lists.lookup name

/-- Gives a name the lines of a text as its list, in place of any list it had. -/
def insert (w : Wildcards) (name text : Text) : Wildcards :=
  { lists := (name, Text.lines text) :: w.lists.filter fun named => named.1 != name }

/-- Chooses a line of the list of a name. Where there is no list or no line in it, nothing is
chosen and nothing drawn. -/
def choose {σ : Type} [ChoiceSource σ] (w : Wildcards) (name : Text) (s : σ) : Option Text × σ :=
  ChoiceSource.pick ((w.get? name).getD []) s

/-! ### The lists of a directory -/

/-- The part of a file name before its last dot, if the extension is `txt`. A name that has nothing
before that dot has no extension. -/
def stem? (name : Bytes) : Option Bytes :=
  let stem := name.take (name.length - 4)
  if !stem.isEmpty && name.drop (name.length - 4) == Utf8.encode ".txt".toList then some stem
  else none

/-- The placeholder that names the list of a file. -/
def placeholderOf (stem : Text) : Text := "__".toList ++ stem ++ "__".toList

/-- The name of a list, from the name of its file. A file that is no text file by its extension, or
whose name is not UTF-8, has no list. -/
def stemText? (name : Bytes) : Option Text :=
  match (stem? name).map Utf8.decode with
  | some (.ok stem) => some stem
  | _ => none

/-- Adds the list of a file in a directory, read by its path. A file that has no list by its name is
passed over. -/
def addFile (files : FileTree) (directory : Text) (w : Wildcards) (name : Bytes) :
    Except DataError Wildcards :=
  match stemText? name with
  | none => .ok w
  | some stem =>
      let path := joinPath directory (stem ++ ".txt".toList)
      match files.readText path with
      | .ok text => .ok (w.insert (placeholderOf stem) text)
      | .error fault => .error (.unreadable path fault)

/-- The lists of the files in a directory, in whatever order they are listed. -/
def ofFiles (files : FileTree) (directory : Text) (names : List Bytes) :
    Except DataError Wildcards :=
  names.foldlM (addFile files directory) empty

/-- The lists of a directory; a directory that does not exist has none. -/
def load (files : FileTree) (directory : Text) : Except DataError Wildcards :=
  match files.list directory with
  | .error .notFound => .ok empty
  | .error fault => .error (.unreadable directory (.system fault))
  | .ok names => ofFiles files directory names

end Wildcards
end TagPrompt
