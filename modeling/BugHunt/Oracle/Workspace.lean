import BugHunt.Oracle.Error
/-!
The scratch workspace of one oracle call: a directory for assembled bitcode with directories for
facts and results in it.
-/

namespace BugHunt

structure Workspace where
  root : Path
  deriving DecidableEq, Repr

namespace Workspace

def facts (w : Workspace) : Path := w.root / "facts"
def results (w : Workspace) : Path := w.root / "results"

/-- Removes a workspace, unless it is to be kept. -/
def discard (retain : Bool) (w : Workspace) : Program Unit :=
  if retain then pure ()
  else do let _ ← Program.removeTree w.root

/-- Makes a workspace whose name begins with `name`. What was made of it is removed if the rest
cannot be. -/
def create (name : String) : Action Failure Workspace := do
  let root ← Action.orFail (Program.temporaryDirectory name ".scratch") id
  let w : Workspace := ⟨root⟩
  let make : Action Failure Unit := do
    Action.orFail (Program.createDirectory w.facts) id
    Action.orFail (Program.createDirectory w.results) id
  make.cleaningUp fun
    | .ok () => pure ()
    | .error _ => w.discard false
  return w

end Workspace
end BugHunt
