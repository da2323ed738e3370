import BugHunt.Host.Program
/-!
Running a tool to its end, or until its time is over or the run is interrupted.
-/

namespace BugHunt

inductive RunError where
  | spawn (program : String) (cause : Failure)
  | interrupted (program : String)
  | waiting (program : String) (cause : Failure)
  deriving DecidableEq, Repr

namespace RunError

def message : RunError → String
  | spawn program cause => s!"failed to spawn `{program}`: {cause.message}"
  | interrupted program => s!"interrupted while running `{program}`"
  | waiting program cause => s!"I/O error while running `{program}`: {cause.message}"

/-- The messages of the errors behind this one. -/
def causes : RunError → List String
  | spawn _ cause | waiting _ cause => [cause.message]
  | interrupted _ => []

/-- Whether an interrupt is what happened. -/
def isInterrupt : RunError → Bool
  | interrupted _ => true
  | spawn .. | waiting .. => false

end RunError

namespace Command

/-- The output of a tool that ended by itself. -/
def outputOf (status : Status) (streams : Bytes × Bytes) : Output where
  stdout := streams.1
  stderr := streams.2
  exitCode := status.exitCode?
  signal := status.signal?

def outcomeOf (status : Status) (streams : Bytes × Bytes) : Outcome :=
  if status.isSuccess then .completed (outputOf status streams)
  else .failed (outputOf status streams)

/-- Runs the tool under a limit on its memory, in bytes, for at most `limit` milliseconds. A tool
that fails or takes too long is an outcome; that it cannot be run, or is interrupted, is an
error. -/
def run (command : Command) (memory limit : Option Nat) : Action RunError Outcome := do
  let program := command.program.display
  if ← Program.isCancelled then throw (.interrupted program)
  let child ← Action.orFail (Program.spawn command memory) (.spawn program)
  let ending ← Program.await child (Observation.ending? (limit.map (1000 * ·)))
  match ending with
  | .error cause =>
    let _ ← Program.collect child
    throw (.waiting program cause)
  | .ok (.exited status) => return outcomeOf status (← Program.collect child)
  | .ok .cancelled =>
    Program.terminate child
    let _ ← Program.collect child
    throw (.interrupted program)
  | .ok .timedOut =>
    Program.warn s!"Process {child.id} timed out, killing"
    Program.terminate child
    let _ ← Program.collect child
    return .timedOut

end Command
end BugHunt
