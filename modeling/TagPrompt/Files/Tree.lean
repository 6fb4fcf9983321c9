import TagPrompt.Text.Utf8

/-! A snapshot of the files that a run can see. A node is known by the names that lead to it; every
proper beginning of a known path is a directory. Paths are walked name by name as an operating
system walks them: each name but the last has to be a directory, an empty name or a single dot
stays, two dots go up. Names and whole paths have a greatest length in bytes, and no path holds the
byte zero. -/

namespace TagPrompt

/-- Why the operating system refuses a path, or a read at the end of one. -/
inductive OsFault
  | notFound
  | notDirectory
  | isDirectory
  /-- A position is beyond those that a file can have. -/
  | invalidPosition
  /-- A name, or the path as a whole, is too long. -/
  | nameTooLong
  /-- The path holds the byte that ends paths. -/
  | zeroByte
  deriving DecidableEq, Repr

def OsFault.message : OsFault → String
  | .notFound => "No such file or directory (os error 2)"
  | .notDirectory => "Not a directory (os error 20)"
  | .isDirectory => "Is a directory (os error 21)"
  | .invalidPosition => "Invalid argument (os error 22)"
  | .nameTooLong => "File name too long (os error 36)"
  | .zeroByte => "file name contained an unexpected NUL byte"

/-- Why a text file cannot be read. -/
inductive IoFault
  | system (fault : OsFault)
  | notUtf8
  deriving DecidableEq, Repr

def IoFault.message : IoFault → String
  | .system fault => fault.message
  | .notUtf8 => "stream did not contain valid UTF-8"

/-- What stands at the end of a path. -/
inductive FileNode
  | file (content : Bytes)
  | directory
  deriving DecidableEq, Repr

/-- The names that lead to a node. -/
abbrev FilePath := List Bytes

def joinPath (directory name : Text) : Text :=
  if directory.isEmpty || directory.getLast? = some '/' then directory ++ name
  else directory ++ '/' :: name

/-- A snapshot of files and directories. -/
structure FileTree where
  nodes : List (FilePath × FileNode) := []

namespace FileTree

def slash : UInt8 := 0x2F

/-- The names of a path, empty ones included. -/
def namesOf (path : Bytes) : List Bytes :=
  match path with
  | [] => [[]]
  | b :: rest =>
      if b = slash then [] :: namesOf rest
      else
        match namesOf rest with
        | [] => [[b]]
        | name :: names => (b :: name) :: names

/-- The name that absolute paths begin with; no file can have it. -/
def rootName : Bytes := [slash]

/-- The name that stands for the directory it is in. -/
def dotName : Bytes := ['.'.toUInt8]

/-- The name that stands for the directory above. -/
def upName : Bytes := ['.'.toUInt8, '.'.toUInt8]

/-- Whether names lead to a directory that is there whatever the snapshot holds: the root, where the
snapshot was taken, and everything above it. -/
def isFixed (names : FilePath) : Bool := names == [rootName] || names.all (· == upName)

/-- The directory above; nothing is above the root. -/
def parent (here : FilePath) : FilePath :=
  if here = [rootName] then here else if isFixed here then here ++ [upName] else here.dropLast

def enter (here : FilePath) (name : Bytes) : FilePath :=
  if name.isEmpty || name = dotName then here
  else if name = upName then parent here
  else here ++ [name]

/-- Where a path starts, and the names on it. -/
def route (path : Bytes) : FilePath × List Bytes :=
  match path with
  | [] => ([], [])
  | b :: rest => if b = slash then ([rootName], namesOf rest) else ([], namesOf (b :: rest))

/-- The names that lead to the end of a path. -/
def located (path : Bytes) : FilePath :=
  let (start, names) := route path
  names.foldl enter start

def insert (tree : FileTree) (path : Bytes) (node : FileNode) : FileTree :=
  { nodes := (located path, node) :: tree.nodes }

def put (tree : FileTree) (path : Text) (content : Bytes) : FileTree :=
  tree.insert (Utf8.encode path) (.file content)

/-- The node at the end of known names. -/
def nodeAt? (tree : FileTree) (names : FilePath) : Option FileNode :=
  match tree.nodes.lookup names with
  | some node => some node
  | none =>
      if isFixed names || tree.nodes.any fun known => names.isPrefixOf known.1 then some .directory
      else none

/-- The greatest number of bytes in a name. -/
def nameLimit : Nat := 255

/-- The greatest number of bytes in a path. -/
def pathLimit : Nat := 4095

/-- Walks on from a node that is reached by `here`. A name is looked at only in a directory, so what
stands in front of it can be at fault first. -/
def walk (tree : FileTree) (here : FilePath) (node : FileNode) :
    List Bytes → Except OsFault (FilePath × FileNode)
  | [] => .ok (here, node)
  | name :: names =>
      match node with
      | .file _ => .error .notDirectory
      | .directory =>
          if nameLimit < name.length then .error .nameTooLong
          else
            match nodeAt? tree (enter here name) with
            | none => .error .notFound
            | some next => walk tree (enter here name) next names

/-- The node that a path leads to; the empty path leads nowhere. -/
def find (tree : FileTree) (path : Text) : Except OsFault (FilePath × FileNode) :=
  let path := Utf8.encode path
  if path.contains 0 then .error .zeroByte
  else if pathLimit < path.length then .error .nameTooLong
  else
    let (start, names) := route path
    if names.isEmpty then .error .notFound else walk tree start .directory names

def contains (tree : FileTree) (path : Text) : Bool :=
  match find tree path with
  | .ok _ => true
  | .error _ => false

/-- The text of a node, which has to be a file. -/
def textOf : FileNode → Except IoFault Text
  | .directory => .error (.system .isDirectory)
  | .file content =>
      match Utf8.decode content with
      | .ok text => .ok text
      | .error _ => .error .notUtf8

def readText (tree : FileTree) (path : Text) : Except IoFault Text :=
  match find tree path with
  | .ok (_, node) => textOf node
  | .error fault => .error (.system fault)

/-- The names directly below a directory, each once. -/
def childNames (tree : FileTree) (directory : FilePath) : List Bytes :=
  (tree.nodes.filterMap fun known =>
    if directory.isPrefixOf known.1 then known.1[directory.length]? else none).eraseDups

def list (tree : FileTree) (path : Text) : Except OsFault (List Bytes) :=
  match find tree path with
  | .ok (_, .file _) => .error .notDirectory
  | .ok (here, .directory) => .ok (childNames tree here)
  | .error fault => .error fault

end FileTree
end TagPrompt
