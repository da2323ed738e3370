import BugHunt.Failure
/-!
A tree of files: directories, files and symbolic links by their place below the root, and where a
path leads in it.
-/

namespace BugHunt

/-- The names that lead from the root to an entry, without links, dots or blanks. -/
abbrev Place := List Bytes

inductive Node where
  | directory
  /-- A directory whose entries cannot be listed. -/
  | locked
  | file (content : Bytes) (executable : Bool)
  | link (target : Path)
  /-- Takes all that is written and holds nothing. -/
  | sink
  deriving DecidableEq, Repr, Inhabited

def Node.isDirectory : Node → Bool
  | .directory | .locked => true
  | _ => false

def Node.isFile : Node → Bool
  | .file .. => true
  | _ => false

structure FileTree where
  nodes : List (Place × Node)
  deriving Repr, Inhabited

namespace FileTree

def empty : FileTree := ⟨[]⟩

/-- What stands at a place; the root is always a directory. -/
def node? (t : FileTree) (place : Place) : Option Node :=
  if place = [] then some .directory else t.nodes.lookup place

def isDirectoryAt (t : FileTree) (place : Place) : Bool :=
  (t.node? place).any Node.isDirectory

/-- Puts a node at a place, in the order of its first coming. -/
def set (t : FileTree) (place : Place) (node : Node) : FileTree :=
  if (t.nodes.lookup place).isSome then
    ⟨t.nodes.map fun entry => if entry.1 = place then (place, node) else entry⟩
  else ⟨t.nodes ++ [(place, node)]⟩

def erase (t : FileTree) (place : Place) : FileTree :=
  ⟨t.nodes.filter fun entry => entry.1 != place⟩

/-- Removes a place and all below it. -/
def prune (t : FileTree) (place : Place) : FileTree :=
  ⟨t.nodes.filter fun entry => !place.isPrefixOf entry.1⟩

/-- The names and nodes that stand directly in a directory. -/
def children (t : FileTree) (place : Place) : List (Bytes × Node) :=
  t.nodes.filterMap fun (there, node) =>
    match there.getLast? with
    | some name => if there = place ++ [name] then some (name, node) else none
    | none => none

/-- Moves a place and all below it. -/
def move (t : FileTree) (source target : Place) : FileTree :=
  ⟨((t.prune target).nodes).map fun (there, node) =>
    if source.isPrefixOf there then (target ++ there.drop source.length, node) else (there, node)⟩

/-- Where a path leads. A path may lead to a free name in a directory that exists. -/
structure Target where
  place : Place
  node : Option Node
  deriving Repr

def longestName : Nat := 255
def longestPath : Nat := 4095

/-- How many symbolic links one path may lead over. -/
def mostLinks : Nat := 40

/-- Follows pieces of a path from a place. A link at the very end is followed only on demand. -/
def walk (t : FileTree) (followLast : Bool) (links : Nat) (here : Place) :
    List Bytes → Except Errno Target
  | [] => .ok ⟨here, t.node? here⟩
  | piece :: rest =>
    if !t.isDirectoryAt here then .error .notDirectory
    else if Path.isIdle piece then walk t followLast links here rest
    else if piece = [Path.dot, Path.dot] then walk t followLast links here.dropLast rest
    else if longestName < piece.length then .error .nameTooLong
    else match t.node? (here ++ [piece]) with
      | none =>
        if rest.all (·.isEmpty) then .ok ⟨here ++ [piece], none⟩ else .error .noEntry
      | some (.link target) =>
        if rest.isEmpty && !followLast then .ok ⟨here ++ [piece], some (.link target)⟩
        else match links with
          | 0 => .error .linkLoop
          | links + 1 =>
            walk t followLast links (if target.isAbsolute then [] else here)
              (target.pieces ++ rest)
      | some _ => walk t followLast links (here ++ [piece]) rest
termination_by pieces => (links, pieces.length)

/-- Where a path leads from the directory `here`. -/
def find (t : FileTree) (here : Place) (path : Path) (followLast : Bool) :
    Except Errno Target :=
  if path.bytes = [] then .error .noEntry
  else if longestPath < path.bytes.length then .error .nameTooLong
  else t.walk followLast mostLinks (if path.isAbsolute then [] else here) path.pieces

/-- The place and node that a path leads to. -/
def existing (t : FileTree) (here : Place) (path : Path) (followLast : Bool) :
    Except Errno (Place × Node) := do
  let target ← t.find here path followLast
  match target.node with
  | some node => .ok (target.place, node)
  | none => .error .noEntry

def endsInSlash (path : Path) : Bool := path.bytes.getLast? == some Path.slash

/-- The place of the file that a path opens for writing, and what is there now. -/
def writable (t : FileTree) (here : Place) (path : Path) : Except Errno Target := do
  let target ← t.find here path true
  if endsInSlash path then .error .isDirectory
  else if target.node.any Node.isDirectory then .error .isDirectory
  else .ok target

end FileTree
end BugHunt
