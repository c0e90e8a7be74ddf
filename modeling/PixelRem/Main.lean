import PixelRem.Command.Snapshot
import Std.Time.Format

/-!
# The command line

Reads the part of the file system that a run looks at, runs the program on it,
and writes back what has changed.
-/

namespace PixelRem.Main

/-- The variables of the environment. -/
def environment : IO Environment := do
  let bytes ← IO.FS.readBinFile "/proc/self/environ"
  return (Text.splitOn 0 bytes.toList).filterMap fun entry => do
    let line ← entry.toString?
    let name := line.toList.takeWhile (· != '=')
    if name.isEmpty then none
    else some (String.ofList name, String.ofList (line.toList.drop (name.length + 1)))

/-- Adds a file or directory to a tree, if it exists, with the directories that it lies in; a
file with its content if `content` is set. -/
def loadNode (content : Bool) (t : FileTree) (path : String) : IO FileTree := do
  try
    let real ← IO.FS.realPath path
    let place := t.placeOf path
    let t := t.ensureFrom [] place.dropLast
    if ← real.isDir then return t.put place .directory
    else if content then return t.put place (.file (← IO.FS.readBinFile real).toList)
    else return t.put place (.file [])
  catch _ => return t

/-- Adds all that lies below a directory, without the content of files. -/
partial def loadBelow (t : FileTree) (path : String) : IO FileTree := do
  let t ← loadNode false t path
  if !t.isDirectory path then return t
  let mut t := t
  for entry in ← (← IO.FS.realPath path).readDir do
    t ← loadBelow t (Path.join path entry.fileName)
  return t

/-- The part of the file system that arguments call for. -/
def snapshot (args : List String) (env : Environment) : IO FileTree := do
  let here := Path.names (← IO.FS.realPath ".").toString
  let t ← (settingFiles args).foldlM (loadNode true) (FileTree.empty here)
  match conversion? args t env with
  | none => return t
  | some config =>
    let directories ← config.directories.foldlM loadBelow t
    let t ← (settingFiles args).foldlM (loadNode true) directories
    (config.sources t).foldlM (loadNode true) t

/-- Writes a node of a tree. -/
def writeNode (place : Place) (node : Node) : IO Unit :=
  let path := Path.ofNames true place
  match node with
  | .directory => IO.FS.createDirAll path
  | .file content => IO.FS.writeBinFile path ⟨content.toArray⟩

/-- Writes a text to a stream. -/
def put (stream : IO.FS.Stream) (t : Text) : IO Unit :=
  stream.write ⟨t.toArray⟩

/-- Runs the program and gives its exit code. -/
def run (args : List String) : IO UInt32 := do
  let env ← environment
  let before ← snapshot args env
  let now ← Std.Time.DateTime.now
  let (outcome, after) := runProgram args
    { files := before
      env := env
      reportTime := now.format "uuuu-MM-dd'T'HH:mm:ssXXX"
      logTime := now.format "uuuu-MM-dd'T'HH:mm:ss.SSSXX" }
  for (place, node) in after.changedSince before do
    writeNode place node
  put (← IO.getStdout) outcome.stdout
  put (← IO.getStderr) outcome.stderr
  match outcome.error with
  | none => return 0
  | some e =>
    put (← IO.getStderr) (utf8 "Error: " ++ e.message ++ utf8 "\n")
    return 1

end PixelRem.Main

/-- The program. -/
def main (args : List String) : IO UInt32 :=
  PixelRem.Main.run args
