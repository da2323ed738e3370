import BugHunt.Compile
/-!
Why a reduction has no result.
-/

namespace BugHunt

inductive ReduceError where
  | compile (error : CompileError)
  | run (error : RunError)
  | minimizerFailed (tool : String) (input : Path) (detail : String)
  | files (path : Path) (cause : Failure)
  deriving DecidableEq, Repr

namespace ReduceError

def message : ReduceError → String
  | compile error => error.message
  | run error => error.message
  | minimizerFailed tool input detail =>
    s!"minimizer `{tool}` failed on {input.quoted}: {detail}"
  | files path cause => s!"I/O error on {path.quoted}: {cause.message}"

def causes : ReduceError → List String
  | compile error => error.causes
  | run error => error.causes
  | minimizerFailed .. => []
  | files _ cause => [cause.message]

def isInterrupt : ReduceError → Bool
  | compile error => error.isInterrupt
  | run error => error.isInterrupt
  | _ => false

end ReduceError

abbrev Reducing := Action ReduceError

end BugHunt
