import BugHunt.FileTree.Operations
import BugHunt.Found
/-!
The regular files below a path. Links below it are neither followed nor reported, and what cannot
be read costs nothing but what lies beneath it.
-/

namespace BugHunt

namespace FileTree

mutual

/-- What lies below a directory that is shown as `path`, at most `depth` levels deep. -/
def searchDirectory (t : FileTree) (place : Place) (path : Path) : Nat → List Found
  | 0 => []
  | depth + 1 =>
    (t.children place).flatMap fun (name, node) =>
      t.searchEntry (place ++ [name]) (path.join ⟨name⟩) node depth

def searchEntry (t : FileTree) (place : Place) (path : Path) (node : Node) (depth : Nat) :
    List Found :=
  match node with
  | .file .. => [.file path]
  | .directory => t.searchDirectory place path depth
  | .locked => [.unreadable path .denied]
  | .link _ | .sink => []

end

/-- What a search from one root comes upon. A root that is a link to a directory is entered. -/
def search (t : FileTree) (here : Place) (root : Path) : List Found :=
  let depth := t.nodes.length + 1
  match t.existing here root false with
  | .error e => [.unreadable root e]
  | .ok (_, .link _) =>
    match t.existing here root true with
    | .error e => [.unreadable root e]
    | .ok (place, node) => if node.isDirectory then t.searchEntry place root node depth else []
  | .ok (place, node) => t.searchEntry place root node depth

end FileTree
end BugHunt
