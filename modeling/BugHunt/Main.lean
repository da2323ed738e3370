import BugHunt.Machine.Boot
import BugHunt.Session
/-!
The program. The files below the working directory are put on a model machine, the session runs
there, and the files that it left are written back.
-/

namespace BugHunt.Main

def bytesOf (content : ByteArray) : Bytes := content.toList

def arrayOf (content : Bytes) : ByteArray := ⟨content.toArray⟩

/-- Whether a file's content is that of a script, which is taken for executable. -/
def isScript (content : Bytes) : Bool := (utf8 "#!").isPrefixOf content

/-- An entry of a directory at its place, and all below it. Links are not followed. -/
partial def load (place : Place) (entry : IO.FS.DirEntry) : IO (List (Place × Node)) := do
  let here := place ++ [utf8 entry.fileName]
  match (← entry.path.symlinkMetadata).type with
  | .dir =>
    let inner ← (← entry.path.readDir).toList.mapM (load here)
    return (here, .directory) :: inner.flatten
  | .file =>
    let content := bytesOf (← IO.FS.readBinFile entry.path)
    return [(here, .file content (isScript content))]
  | _ => return []

/-- Writes one entry of the machine's tree to where it belongs below the working directory. -/
def save (here : Place) (before : FileTree) (entry : Place × Node) : IO Unit := do
  let (place, node) := entry
  if here.isPrefixOf place && before.node? place ≠ some node then
    let path := Text.lossy (Machine.pathOf place)
    match node with
    | .directory => IO.FS.createDirAll path
    | .file content _ => IO.FS.writeBinFile path (arrayOf content)
    | _ => return ()

/-- Removes a file that the machine has no more. -/
def drop (after : FileTree) (entry : Place × Node) : IO Unit := do
  match entry with
  | (place, .file ..) =>
    if (after.node? place).isNone then IO.FS.removeFile (Text.lossy (Machine.pathOf place))
  | _ => return ()

/-- Runs a session on what is below the working directory. -/
def run (arguments : List String) : IO Nat := do
  let directory ← IO.currentDir
  let here := (Path.ofString directory.toString).pieces.filter (!·.isEmpty)
  let machine := Machine.boot here
  let found := (← (← directory.readDir).toList.mapM (load here)).flatten
  let tree := found.foldl (fun tree (place, node) => tree.set place node) machine.tree
  let machine := { machine with tree }
  let around : Surroundings :=
    ⟨machine.herePath, machine.temporary, Path.ofString (← IO.appPath).toString, 1⟩
  let (status, after) := machine.run (Session.start around (arguments.map utf8))
  after.lines.forM fun line => IO.eprintln line.text
  after.tree.nodes.forM (save here machine.tree)
  found.forM (drop after.tree)
  return status

end BugHunt.Main

def main (arguments : List String) : IO UInt32 := do
  return (← BugHunt.Main.run arguments).toUInt32
