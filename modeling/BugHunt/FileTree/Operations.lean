import BugHunt.FileTree.Basic
/-!
Operations on a file tree. Each takes the directory that relative paths start from; an operation
that fails leaves the tree as it was.
-/

namespace BugHunt.FileTree

/-- What a path leads to, links included. -/
def stat (t : FileTree) (here : Place) (path : Path) : Except Errno Node :=
  (·.2) <$> t.existing here path true

def linkStat (t : FileTree) (here : Place) (path : Path) : Except Errno Node :=
  (·.2) <$> t.existing here path false

def «exists» (t : FileTree) (here : Place) (path : Path) : Bool :=
  (t.stat here path).toOption.isSome

def isFile (t : FileTree) (here : Place) (path : Path) : Bool :=
  (t.stat here path).toOption.any Node.isFile

def isDirectory (t : FileTree) (here : Place) (path : Path) : Bool :=
  (t.stat here path).toOption.any Node.isDirectory

def read (t : FileTree) (here : Place) (path : Path) : Except Errno Bytes := do
  match ← t.stat here path with
  | .file content _ => .ok content
  | .sink => .ok []
  | .directory | .locked => .error .isDirectory
  | .link _ => .error .linkLoop

/-- The node after new content has been written to what was there. -/
def rewritten (content : Bytes) : Option Node → Node
  | some (.file _ executable) => .file content executable
  | some .sink => .sink
  | _ => .file content false

/-- Makes the file hold exactly `content`; a new file cannot be executed. -/
def write (t : FileTree) (here : Place) (path : Path) (content : Bytes) :
    Except Errno FileTree := do
  let target ← t.writable here path
  .ok (t.set target.place (rewritten content target.node))

/-- Makes sure that the file exists. -/
def touch (t : FileTree) (here : Place) (path : Path) : Except Errno FileTree := do
  let target ← t.writable here path
  .ok (if target.node.isSome then t else t.set target.place (.file [] false))

def setExecutable (t : FileTree) (here : Place) (path : Path) (executable : Bool) :
    Except Errno FileTree := do
  match ← t.existing here path true with
  | (place, .file content _) => .ok (t.set place (.file content executable))
  | _ => .ok t

def createDirectory (t : FileTree) (here : Place) (path : Path) : Except Errno FileTree := do
  let target ← t.find here path false
  if target.node.isSome then .error .alreadyThere
  else .ok (t.set target.place .directory)

/-- Creates a directory with the parents it lacks, at most `depth` of them. An error leaves the
parents that were made. -/
def createWithParents (t : FileTree) (here : Place) (path : Path) :
    Nat → FileTree × Except Errno Unit
  | 0 => (t, .error .invalid)
  | depth + 1 =>
    if path.bytes = [] then (t, .ok ())
    else match t.createDirectory here path with
      | .ok t => (t, .ok ())
      | .error .noEntry =>
        match path.parent? with
        | none => (t, .error .noEntry)
        | some parent =>
          match t.createWithParents here parent depth with
          | (t, .error e) => (t, .error e)
          | (t, .ok ()) =>
            match t.createDirectory here path with
            | .ok t => (t, .ok ())
            | .error e => if t.isDirectory here path then (t, .ok ()) else (t, .error e)
      | .error e => if t.isDirectory here path then (t, .ok ()) else (t, .error e)

/-- Makes sure that a directory and its parents exist. -/
def createDirectories (t : FileTree) (here : Place) (path : Path) : FileTree × Except Errno Unit :=
  t.createWithParents here path (path.bytes.length + 1)

def link (t : FileTree) (here : Place) (path target : Path) : Except Errno FileTree := do
  let found ← t.find here path false
  if found.node.isSome then .error .alreadyThere
  else .ok (t.set found.place (.link target))

/-- Removes a file or a link. -/
def remove (t : FileTree) (here : Place) (path : Path) : Except Errno FileTree := do
  let (place, node) ← t.existing here path false
  if node.isDirectory then .error .isDirectory else .ok (t.erase place)

/-- Removes an empty directory. -/
def removeDirectory (t : FileTree) (here : Place) (path : Path) : Except Errno FileTree := do
  let (place, node) ← t.existing here path false
  if !node.isDirectory then .error .notDirectory
  else if place = [] || !(t.children place).isEmpty then .error .notEmpty
  else .ok (t.erase place)

/-- Removes a directory and all below it, or a link to one. -/
def removeTree (t : FileTree) (here : Place) (path : Path) : Except Errno FileTree := do
  match ← t.existing here path false with
  | (place, .link _) => .ok (t.erase place)
  | (place, node) => if node.isDirectory then .ok (t.prune place) else .error .notDirectory

/-- Gives the source the target's name, in place of what bears it. -/
def rename (t : FileTree) (here : Place) (source target : Path) : Except Errno FileTree := do
  let (place, node) ← t.existing here source false
  let goal ← t.find here target false
  if place = goal.place then .ok t
  else if node.isDirectory then
    if place.isPrefixOf goal.place then .error .invalid
    else match goal.node with
      | none => .ok (t.move place goal.place)
      | some there =>
        if !there.isDirectory then .error .notDirectory
        else if (t.children goal.place).isEmpty then .ok (t.move place goal.place)
        else .error .notEmpty
  else if goal.node.any Node.isDirectory then .error .isDirectory
  else if endsInSlash target then .error .notDirectory
  else .ok ((t.erase place).set goal.place node)

/-- Copies a file's content and its mode. The target is emptied before the source is read. -/
def copy (t : FileTree) (here : Place) (source target : Path) : Except Failure FileTree :=
  match t.stat here source with
  | .error e => .error (.system e)
  | .ok (.file content executable) =>
    match t.writable here target with
    | .error e => .error (.system e)
    | .ok found =>
      match found.node with
      | some .sink => .ok t
      | _ =>
        let same := (t.existing here source true).toOption.map (·.1) = some found.place
        .ok (t.set found.place (.file (if same then [] else content) executable))
  | .ok _ => .error .notRegular

/-- The names in a directory. -/
def list (t : FileTree) (here : Place) (path : Path) : Except Errno (List (Bytes × Node)) := do
  match ← t.existing here path true with
  | (place, .directory) => .ok (t.children place)
  | (_, .locked) => .error .denied
  | _ => .error .notDirectory

end BugHunt.FileTree
