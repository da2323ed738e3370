import BugHunt.Path
/-!
Candidate programs. What kind a program is follows from the extension of its file name alone.
-/

namespace BugHunt

inductive Kind where
  | cSource
  | cxxSource
  | textIr
  | binaryIr
  deriving DecidableEq, Repr

namespace Kind

/-- The kind that an extension stands for. A capital C is a C++ source. -/
def ofExtension? (extension : String) : Option Kind :=
  if extension = "c" then some .cSource
  else if extension = "cpp" || extension = "C" then some .cxxSource
  else if extension = "ll" then some .textIr
  else if extension = "bc" then some .binaryIr
  else none

def ofPath? (path : Path) : Option Kind := do
  ofExtension? (← Text.decode? (← path.extension?))

def isSource : Kind → Bool
  | cSource | cxxSource => true
  | textIr | binaryIr => false

def isIr (kind : Kind) : Bool := !kind.isSource

end Kind

/-- A program under test: a path whose extension is that of some kind. -/
structure Artifact where
  path : Path
  kind : Kind
  kind_of_path : Kind.ofPath? path = some kind

namespace Artifact

def ofPath? (path : Path) : Option Artifact :=
  match h : Kind.ofPath? path with
  | none => none
  | some kind => some ⟨path, kind, h⟩

def isSource (a : Artifact) : Bool := a.kind.isSource
def isIr (a : Artifact) : Bool := a.kind.isIr

/-- The file name, for log lines and derived names. -/
def name (a : Artifact) : String := a.path.name

end Artifact

/-- The two bytes that bitcode begins with. -/
def bitcodeMagic : Bytes := [0x42, 0x43]

def isBitcode (content : Bytes) : Bool := bitcodeMagic.isPrefixOf content

end BugHunt
