import BugHunt.Cache
import BugHunt.Oracle.Error
import BugHunt.Reduce.Error
/-!
Why a check of a program, or a whole scan, has no result.
-/

namespace BugHunt

inductive PipelineError where
  | compile (error : CompileError)
  | oracle (error : OracleError)
  | cache (error : CacheError)
  | reduce (error : ReduceError)
  | notAProgram (path : Path)
  | scratch (cause : Failure)
  | interrupted
  deriving DecidableEq, Repr

namespace PipelineError

def message : PipelineError → String
  | compile error => error.message
  | oracle error => error.message
  | cache error => error.message
  | reduce error => error.message
  | notAProgram path => s!"not a C, C++ or LLVM IR program: {path.quoted}"
  | scratch cause => s!"failed to create scratch directory: {cause.message}"
  | interrupted => "interrupted"

def causes : PipelineError → List String
  | compile error => error.causes
  | oracle error => error.causes
  | cache error => error.causes
  | reduce error => error.causes
  | scratch cause => [cause.message]
  | notAProgram _ | interrupted => []

/-- Whether an interrupt is what happened, at whatever depth. -/
def isInterrupt : PipelineError → Bool
  | interrupted => true
  | compile error => error.isInterrupt
  | oracle error => error.isInterrupt
  | reduce error => error.isInterrupt
  | cache _ | notAProgram _ | scratch _ => false

/-- The same error, with nothing around an interrupt. -/
def normalize (error : PipelineError) : PipelineError :=
  if error.isInterrupt then interrupted else error

end PipelineError

abbrev Checking := Action PipelineError

/-- The action with nothing around an interrupt. -/
def Checking.normalized (a : Checking α) : Checking α := a.adapt PipelineError.normalize

end BugHunt
