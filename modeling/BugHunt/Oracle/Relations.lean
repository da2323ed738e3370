import BugHunt.Classification
import BugHunt.Gzip.Member
import BugHunt.Oracle.Error
/-!
The assertion relations of a finished analysis. An assertion holds when its relation is empty, so
the first byte of a relation decides.
-/

namespace BugHunt

inductive Scan where
  | allEmpty
  | violated (relation : String)
  deriving DecidableEq, Repr

def Scan.verdict : Scan → Classification
  | allEmpty => .uninteresting
  | violated _ => .interesting

namespace Relations

/-- The first of the relations that is not a regular file. -/
def firstMissing (resultsDir : Path) : List String → Program (Option String)
  | [] => return none
  | relation :: rest => do
    if ← Program.isFile (resultsDir / relation) then firstMissing resultsDir rest
    else return some relation

/-- Looks for the first relation that is not empty. -/
def firstViolated (resultsDir : Path) : List String → Judging Scan
  | [] => return .allEmpty
  | relation :: rest => do
    let path := resultsDir / relation
    let content ← Action.orFail (Program.read path) (.decompress path)
    match Gzip.firstRead content with
    | .error cause => throw (.decompress path cause)
    | .ok (some _) => return .violated relation
    | .ok none => firstViolated resultsDir rest

/-- Reads the relations in their order. All must be present before any is read. -/
def scan (assertions : List String) (resultsDir : Path) : Judging Scan := do
  match ← firstMissing resultsDir assertions with
  | some relation => throw (.missingAssertion relation resultsDir)
  | none => firstViolated resultsDir assertions

end Relations
end BugHunt
