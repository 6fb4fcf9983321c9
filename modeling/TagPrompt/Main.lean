import TagPrompt.CommandLine.Run

/-! The program. It takes a snapshot of the files that its settings name, runs on the snapshot, and
prints what the run leaves behind. No network is reached from here: requests find a closed
connection. -/

namespace TagPrompt.Main

def bytesOf (content : ByteArray) : Bytes := content.toList

/-- Adds what is at a path: a file with its content, a directory with the files in it. -/
def addPath (files : FileTree) (path : Text) : IO FileTree := do
  let place := System.mkFilePath [String.ofList path]
  if ← place.isDir then
    let mut files := files.insert (Utf8.encode path) .directory
    for entry in ← place.readDir do
      let inside := Utf8.encode (joinPath path entry.fileName.toList)
      if ← entry.path.isDir then
        files := files.insert inside .directory
      else
        files := files.insert inside (.file (bytesOf (← IO.FS.readBinFile entry.path)))
    return files
  else if ← place.pathExists then
    return files.put path (bytesOf (← IO.FS.readBinFile place))
  else
    return files

/-- The paths that settings name. -/
def pathsOf (settings : Settings) : List Text :=
  [settings.source.positionsUrl, settings.source.corpusUrl, settings.data.tagIndexPath] ++
    settings.data.categoriesPath.toList ++ settings.data.wildcardDir.toList

/-- The snapshot that a run needs. -/
def snapshot (arguments : List Text) : IO FileTree := do
  match Invocation.parse arguments with
  | .error _ => return {}
  | .ok invocation =>
      let files ← addPath {} invocation.settingsPath
      match Settings.loadIfThere files invocation.settingsPath with
      | .error _ => return files
      | .ok settings => (pathsOf settings).foldlM addPath files

/-- A seed for choices that nobody fixed. -/
def freshSeed : IO UInt64 := do
  return (← IO.getRandomBytes 8).toList.foldl (fun seed b => seed * 256 + b.toUInt64) 0

def run (arguments : List Text) : IO UInt32 := do
  let environment : Environment :=
    { files := ← snapshot arguments
      web := fun _ _ => .closed
      seed := ← freshSeed }
  let transcript := environment.run arguments
  IO.print transcript.output
  IO.eprint transcript.reports
  return transcript.exitCode

end TagPrompt.Main

def main (arguments : List String) : IO UInt32 := TagPrompt.Main.run (arguments.map String.toList)
