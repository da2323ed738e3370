import BugHunt.Settings.Basic
import BugHunt.Toml.Document
/-!
Settings from a TOML document. Each section is a table with no keys but its own, or an array of
its values in their declared order.
-/

namespace BugHunt.Settings

open Toml (Value)

inductive DecodeError where
  | malformed
  | unknownField (name : String)
  | invalidType
  | invalidValue
  | invalidLength
  deriving DecidableEq, Repr

/-- What is wrong with a document, in a few words. -/
def DecodeError.reason : DecodeError → String
  | malformed => "syntax"
  | unknownField name => s!"unknown field {name}"
  | invalidType => "invalid type"
  | invalidValue => "invalid value"
  | invalidLength => "invalid length"

abbrev Decoded := Except DecodeError

/-- The key under which a date or time shows its text where a table is looked for. -/
def momentKey : String := "$__toml_private_datetime"

def string : Value → Decoded String
  | .string text => .ok text
  | _ => .error .invalidType

def natural : Value → Decoded Nat
  | .integer n => if n < 0 then .error .invalidValue else .ok n.toNat
  | _ => .error .invalidType

def list (item : Value → Decoded α) : Value → Decoded (List α)
  | .array items => items.mapM item
  | _ => .error .invalidType

/-- A table of texts, in the order of its keys. -/
def strings : Value → Decoded (List (String × String))
  | .table entries => do
    let pairs ← entries.mapM fun (key, value) => return (key, ← string value)
    return pairs.mergeSort fun a b => !decide (b.1 < a.1)
  | .moment text => .ok [(momentKey, text)]
  | _ => .error .invalidType

/-- A value that a section may hold: its key, how it is read, and whether it may be missing from
the section's array form. -/
structure Field (σ : Type) where
  name : String
  read : σ → Value → Decoded σ
  mayBeMissing : Bool := false

/-- Reads the values of an array form. Values after the last field are not looked at. -/
def readInOrder (found : σ) : List (Field σ) → List Value → Decoded σ
  | [], _ => .ok found
  | field :: fields, [] =>
    if field.mayBeMissing then readInOrder found fields [] else .error .invalidLength
  | field :: fields, value :: values => do
    readInOrder (← field.read found value) fields values

/-- Reads one key of a table form. -/
def readEntry (fields : List (Field σ)) (found : σ) (entry : String × Value) : Decoded σ :=
  match fields.find? fun field => field.name = entry.1 with
  | none => .error (.unknownField entry.1)
  | some field => field.read found entry.2

def readSection (fields : List (Field σ)) (start : σ) : Value → Decoded σ
  | .table entries => entries.foldlM (readEntry fields) start
  | .array values => readInOrder start fields values
  | .moment _ => .error (.unknownField momentKey)
  | _ => .error .invalidType

def toolFields : List (Field ToolSettings) := [
  { name := "clang", read := fun s v => return { s with clang := ← string v } },
  { name := "clangxx", read := fun s v => return { s with clangxx := ← string v } },
  { name := "llvm-as", read := fun s v => return { s with llvmAs := ← string v } },
  { name := "llvm-dis", read := fun s v => return { s with llvmDis := ← string v } },
  { name := "llvm-reduce", read := fun s v => return { s with llvmReduce := ← string v } },
  { name := "creduce", read := fun s v => return { s with creduce := ← string v } },
  { name := "souffle", read := fun s v => return { s with souffle := ← string v } },
  { name := "git", read := fun s v => return { s with git := ← string v } },
  { name := "factgen", read := fun s v => return { s with factgen := ← string v } }]

def timeoutFields : List (Field TimeoutSettings) := [
  { name := "compile-secs", read := fun s v => return { s with compileSecs := ← natural v } },
  { name := "analysis-secs", read := fun s v => return { s with analysisSecs := ← natural v } }]

def limitFields : List (Field LimitSettings) := [
  { name := "memory-bytes", read := fun s v => return { s with memoryBytes := ← natural v } }]

def compilerFields : List (Field CompilerSettings) := [
  { name := "opt-levels",
    read := fun s v => return { s with optLevels := ← list (list string) v } },
  { name := "extra-args", read := fun s v => return { s with extraArgs := ← list string v },
    mayBeMissing := true }]

def analysisFields : List (Field AnalysisSettings) := [
  { name := "assertions", read := fun s v => return { s with assertions := ← list string v } },
  { name := "context-sensitivity",
    read := fun s v => return { s with contextSensitivity := ← string v } },
  { name := "project", read := fun s v => return { s with project := ← string v } },
  { name := "library-dir", read := fun s v => return { s with libraryDir := ← string v } }]

def searchFields : List (Field SearchSettings) := [
  { name := "roots", read := fun s v => return { s with roots := ← list string v } },
  { name := "repositories", read := fun s v => return { s with repositories := ← strings v } }]

def sections : List (Field Settings) := [
  { name := "tools",
    read := fun s v => return { s with tools := ← readSection toolFields {} v } },
  { name := "timeouts",
    read := fun s v => return { s with timeouts := ← readSection timeoutFields {} v } },
  { name := "limits",
    read := fun s v => return { s with limits := ← readSection limitFields {} v } },
  { name := "compiler",
    read := fun s v => return { s with compiler := ← readSection compilerFields {} v } },
  { name := "analysis",
    read := fun s v => return { s with analysis := ← readSection analysisFields {} v } },
  { name := "search",
    read := fun s v => return { s with search := ← readSection searchFields {} v } }]

/-- The settings that the entries of a document's root table stand for. -/
def ofEntries (entries : List (String × Value)) : Decoded Settings :=
  entries.foldlM (readEntry sections) {}

/-- The settings that a text stands for. The whole text is parsed before any key is looked at. -/
def ofText (text : String) : Decoded Settings :=
  match Toml.parse? text with
  | none => .error .malformed
  | some entries => ofEntries entries

end BugHunt.Settings
