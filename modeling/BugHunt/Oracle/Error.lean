import BugHunt.Compile
/-!
Why the oracle gives no verdict.
-/

namespace BugHunt

inductive OracleError where
  | assemble (error : CompileError)
  | run (error : RunError)
  | missingAssertion (relation : String) (resultsDir : Path)
  | decompress (path : Path) (cause : Failure)
  | workspace (cause : Failure)
  | sentinel (path : Path) (cause : Failure)
  deriving DecidableEq, Repr

namespace OracleError

def message : OracleError → String
  | assemble error => s!"could not prepare bitcode: {error.message}"
  | run error => error.message
  | missingAssertion relation resultsDir =>
    s!"missing assertion relation {relation} in {resultsDir.quoted}"
  | decompress path cause => s!"failed to decompress {path.quoted}: {cause.message}"
  | workspace cause => s!"failed to create scratch workspace: {cause.message}"
  | sentinel path cause => s!"failed to write crash sentinel {path.quoted}: {cause.message}"

def causes : OracleError → List String
  | assemble error => error.message :: error.causes
  | run error => error.causes
  | missingAssertion .. => []
  | decompress _ cause | workspace cause | sentinel _ cause => [cause.message]

def isInterrupt : OracleError → Bool
  | assemble error => error.isInterrupt
  | run error => error.isInterrupt
  | _ => false

end OracleError

abbrev Judging := Action OracleError

end BugHunt
