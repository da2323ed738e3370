import BugHunt.Config.Basic
import BugHunt.Tool.Run
/-!
Cloning the repositories behind search roots that are not there.
-/

namespace BugHunt

inductive SetupError where
  | run (error : RunError)
  | cloneFailed (url detail : String)
  | stillMissing (root : Path)
  deriving DecidableEq, Repr

namespace SetupError

def message : SetupError → String
  | run error => error.message
  | cloneFailed url detail => s!"cloning {url} failed: {detail}"
  | stillMissing root =>
    s!"search root {root.quoted} does not exist after cloning its repository"

def causes : SetupError → List String
  | run error => error.causes
  | cloneFailed .. | stillMissing _ => []

end SetupError

namespace Fetch

/-- The first repository, in the order of their directories, whose directory holds the root. -/
def repositoryFor (c : Config) (root : Path) : Option (String × String) :=
  c.repositories.find? fun (directory, _) => root.startsWith directory

/-- Clones a repository, for as long as it takes. -/
def clone (c : Config) (memory : Option Nat) (url : String) (target : Path) :
    Action SetupError Unit := do
  Program.info s!"Cloning {url} into {target.display}"
  let command := Command.ofProgram c.tools.git
    |>.texts ["clone", "--depth=1", "--branch=master", url]
    |>.path target
  match ← (command.run memory none).adapt .run with
  | .completed _ => return ()
  | .failed output => throw (.cloneFailed url s!"{output.describe}\n{output.tail 2048}")
  | .timedOut => throw (.cloneFailed url "timed out")

/-- Sees to it that one root is there. The answer lists what was cloned for it. A root that no
repository holds is left alone. -/
def root (c : Config) (memory : Option Nat) (root : Path) : Action SetupError (List Path) := do
  if ← Program.exists root then return []
  match repositoryFor c root with
  | none =>
    Program.warn s!"No repository known for missing search root {root.display}"
    return []
  | some (directory, url) =>
    let target : Path := directory
    let there ← Program.exists target
    if !there then clone c memory url target
    if !(← Program.exists root) then throw (.stillMissing root)
    return if there then [] else [target]

/-- Sees to it that each of the roots is there, in their order. -/
def roots (c : Config) (memory : Option Nat) : List Path → Action SetupError (List Path)
  | [] => return []
  | path :: rest => do
    let cloned ← root c memory path
    return cloned ++ (← roots c memory rest)

/-- Clones what is missing of the search roots. The answer lists the directories of the clones. -/
def missingRoots (c : Config) (memory : Option Nat) : Action SetupError (List Path) :=
  roots c memory c.searchRoots

end Fetch
end BugHunt
