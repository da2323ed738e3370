import BugHunt.Pipeline.Check
/-!
The verdict on a program as a whole, without cache and reduction: the call that minimizers make.
-/

namespace BugHunt.Classify

/-- Judges compiled variants up to the first interesting one. `compiled` tells whether an earlier
variant compiled. -/
def judge (c : Config) (compiled : Bool) : List Variant → Checking Classification
  | [] => return if compiled then .uninteresting else .uncompilable
  | v :: rest => do
    if !v.success then
      let line := Classification.uncompilable.report v.name 0
      Program.log line.level line.message
      return ← judge c compiled rest
    let verdict ← (Oracle.classify c v.irPath).adapt .oracle
    let line := verdict.report v.name c.assertions.length
    Program.log line.level line.message
    match verdict with
    | .interesting => return .interesting
    | _ => judge c true rest

/-- Compiles every variant of an artifact into a directory and judges them. -/
def within (c : Config) (a : Artifact) (directory : Path) : Checking Classification := do
  judge c false (← (Compile.variants c directory a).adapt .compile)

/-- The verdict on a program: interesting as soon as a variant is, uncompilable if none
compiles. -/
def program (c : Config) (path : Path) : Checking Classification := do
  match Artifact.ofPath? path with
  | none => throw (.notAProgram path)
  | some a =>
    let directory ← Action.orFail (Program.temporaryDirectory "pareduce-test" "") .scratch
    (within c a directory).normalized.cleaningUp fun _ => do
      let _ ← Program.removeTree directory

end BugHunt.Classify
