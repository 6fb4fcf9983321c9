import TagPrompt.Source.Http

/-! Files as sources, and the source at a location: one that begins as a web address is a web
resource, any other is the path of a file. -/

namespace TagPrompt

namespace LocalFile

/-- The number of positions that a file can have. -/
def positionLimit : Nat := UInt64.size / 2

/-- The greatest number of bytes that a buffer can have. -/
def bufferLimit : Nat := UInt64.size / 2 - 1

/-- A read of a range gives the bytes of the file that exist; an empty range does not touch it. The
position is sought and a buffer for the whole range is made before anything is read, in a directory
too; a buffer that cannot be made is a crash. -/
def reading (files : FileTree) (path : Text) (range : ByteRange) : Reading :=
  if range.isEmpty then .bytes []
  else
    match files.find path with
    | .error fault => .failed (.io fault)
    | .ok (_, node) =>
        if positionLimit ≤ range.start then .failed (.io .invalidPosition)
        else if bufferLimit < range.length then .crashed
        else
          match node with
          | .file content => .bytes (range.cut content)
          | .directory => .failed (.io .isDirectory)

/-- A file as a source. -/
def source (files : FileTree) (path : Text) : ByteSource :=
  { location := path, read := fun range => ⟨reading files path range, 0⟩ }

end LocalFile

def isWebAddress (location : Text) : Bool :=
  "http://".toList.isPrefixOf location || "https://".toList.isPrefixOf location

/-- The source at a location; nothing is read yet. -/
def openSource (files : FileTree) (web : Web) (location : Text) (limit : Millis) : ByteSource :=
  if isWebAddress location then HttpSource.source ⟨location, limit, web location⟩
  else LocalFile.source files location

end TagPrompt
