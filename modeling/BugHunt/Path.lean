import BugHunt.Text.Quoted
/-!
Path text and its components. A path is any byte string; nothing here looks at a file system.
-/

namespace BugHunt

structure Path where
  bytes : Bytes
  deriving DecidableEq, Repr, Inhabited

namespace Path

def slash : UInt8 := 0x2F
def dot : UInt8 := 0x2E

def ofString (text : String) : Path := ⟨utf8 text⟩

instance : Coe String Path := ⟨ofString⟩

/-- The path as text, ill-formed runs replaced. -/
def display (p : Path) : String := Text.lossy p.bytes

/-- The path as it stands in a message: quoted, with escapes. -/
def quoted (p : Path) : String := Text.quoted p.bytes

def isAbsolute (p : Path) : Bool := p.bytes.head? == some slash

inductive Component where
  | root
  | here
  | up
  | normal (name : Bytes)
  deriving DecidableEq, Repr

/-- What one piece between slashes stands for; blank pieces and dots stand for nothing. -/
def Component.ofPiece? (piece : Bytes) : Option Component :=
  if piece = [] || piece = [dot] then none
  else if piece = [dot, dot] then some .up
  else some (.normal piece)

def pieces (p : Path) : List Bytes := p.bytes.splitOn slash

/-- A path's components. A dot counts only where a relative path begins with it. -/
def components (p : Path) : List Component :=
  let body := p.pieces.filterMap Component.ofPiece?
  if p.isAbsolute then .root :: body
  else if p.pieces.head? = some [dot] then .here :: body
  else body

/-- The last component, when it names something. -/
def fileName? (p : Path) : Option Bytes :=
  match p.components.getLast? with
  | some (.normal name) => some name
  | _ => none

/-- A name cut at its last dot. A name without dots, or with none but a leading one, has no
second part. -/
def splitName (name : Bytes) : Bytes × Option Bytes :=
  let reversed := name.reverse
  let after := reversed.takeWhile (· != dot)
  match reversed.drop after.length with
  | [] => (name, none)
  | [_] => (name, none)
  | _ :: before => (before.reverse, some after.reverse)

def stem? (p : Path) : Option Bytes := p.fileName?.map fun name => (splitName name).1

def extension? (p : Path) : Option Bytes := p.fileName?.bind fun name => (splitName name).2

/-- The file name as text; a path that ends in no name stands for itself. -/
def name (p : Path) : String :=
  match p.fileName? with
  | some name => Text.lossy name
  | none => p.display

/-- Whether a piece between slashes adds no component at the end of a path. -/
def isIdle (piece : Bytes) : Bool := piece = [] || piece = [dot]

/-- Pieces joined by slashes again. -/
def ofPieces (pieces : List Bytes) : Path := ⟨[slash].intercalate pieces⟩

/-- The pieces of the path, last first, from its last component on; the piece that a path begins
with is not idle. -/
def trimmed (p : Path) : List Bytes :=
  let reversed := p.pieces.reverse
  let tail := reversed.dropWhile isIdle
  if tail.isEmpty then reversed.drop (reversed.length - 1) else tail

/-- The path without its last component; a root and the empty path have no parent. -/
def parent? (p : Path) : Option Path :=
  match p.components.getLast? with
  | none | some .root => none
  | some _ =>
    match p.trimmed with
    | [] => none
    | _ :: before =>
      match before.dropWhile isIdle, before.getLast? with
      | [], none => some ⟨[]⟩
      | [], some [] => some ⟨[slash]⟩
      | [], some first => some ⟨first⟩
      | rest, _ => some (ofPieces rest.reverse)

/-- `other` seen from `p`: an absolute path stands for itself. -/
def join (p other : Path) : Path :=
  if other.isAbsolute then other
  else match p.bytes.getLast? with
    | none => other
    | some last => if last = slash then ⟨p.bytes ++ other.bytes⟩
      else ⟨p.bytes ++ slash :: other.bytes⟩

instance : HDiv Path Path Path := ⟨join⟩
instance : HDiv Path String Path := ⟨fun p name => p.join (ofString name)⟩

/-- The path cut after its file name's stem, with the given extension. A path that ends in no name
stays as it is. -/
def setExtension (p : Path) (extension : String) : Path :=
  match p.fileName?, p.trimmed with
  | some name, _ :: before =>
    ofPieces (((splitName name).1 ++ dot :: utf8 extension) :: before).reverse
  | _, _ => p

/-- The path whose file name keeps its stem and gets the given extension. The old extension is cut
off the path's end before the name is looked for again: of `..bc` nothing but `..` is left, which
names nothing, and so it ends there. -/
def withExtension (p : Path) (extension : String) : Path :=
  let old := p.extension?.getD []
  setExtension ⟨p.bytes.take (p.bytes.length - old.length)⟩ extension

/-- Whether the components of `base` begin those of `p`. -/
def startsWith (p base : Path) : Bool := base.components.isPrefixOf p.components

def Component.piece : Component → Bytes
  | .root => []
  | .here => [dot]
  | .up => [dot, dot]
  | .normal name => name

/-- `p` seen from the directory `start`, without dots and repeated slashes. What a slash at the
end or two slashes at the front may mean is kept. The empty path stands for nothing. -/
def absolute? (start p : Path) : Option Path :=
  if p.bytes = [] then none
  else
    let named := p.components.filter fun c => c != .root && c != .here
    let twoSlashes :=
      [slash, slash].isPrefixOf p.bytes && !([slash, slash, slash].isPrefixOf p.bytes)
    let base : Path :=
      if twoSlashes then ⟨[slash, slash]⟩ else if p.isAbsolute then ⟨[slash]⟩ else start
    let full := named.foldl (fun q c => q.join ⟨c.piece⟩) base
    some (if p.bytes.getLast? = some slash then full.join ⟨[]⟩ else full)

/-- Like `absolute?`; the empty path stays as it is. -/
def absolute (start p : Path) : Path := (absolute? start p).getD p

theorem absolute?_eq_none_iff {start p : Path} : absolute? start p = none ↔ p.bytes = [] := by
  unfold absolute?; split <;> simp_all

end Path
end BugHunt
