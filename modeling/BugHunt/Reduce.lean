import BugHunt.Reduce.Error
import BugHunt.Reduce.Recursion
/-!
Keeping interesting programs and reducing them. Sources are reduced in place, in a copy; IR is
reduced to a file beside it. A result that is already there is left alone.
-/

namespace BugHunt

/-- The minimizer that fits an artifact. -/
inductive Backend where
  | irLevel
  | sourceLevel
  deriving DecidableEq, Repr

def Backend.of (a : Artifact) : Backend := if a.isSource then sourceLevel else irLevel

namespace Reduce

/-- The name of the copy that a source is reduced in. -/
def sourceName (a : Artifact) : String := s!"source-reduced-{a.name}"

def irName (irPath : Path) : String := s!"reduced-{Plan.stemOf irPath}.ll"

def keptName (v : Variant) : String := s!"interesting-{v.name}"

/-- Copies an interesting variant into the output directory, with its textual form beside it. -/
def preserve (c : Config) (v : Variant) : Reducing Path := do
  Action.orFail (Program.createDirectories c.outputRoot) (.files c.outputRoot)
  let kept := c.outputRoot / keptName v
  Action.orFail (Program.copy v.irPath kept) (.files kept)
  match ← ExceptT.lift (Compile.disassemble c kept).run with
  | .ok _ => return kept
  | .error (.run (.interrupted program)) => throw (.run (.interrupted program))
  | .error error =>
    Program.warn s!"Could not disassemble {kept.display}: {error.message}"
    return kept

/-- Runs a minimizer for as long as it takes. -/
def minimize (c : Config) (command : Command) (input : Path) : Reducing Unit := do
  let tool := command.program.display
  match ← (command.run c.memoryLimit none).adapt .run with
  | .completed _ => return ()
  | .failed output =>
    throw (.minimizerFailed tool input s!"{output.describe}\n{output.tail 2048}")
  | .timedOut => throw (.minimizerFailed tool input "timed out")

/-- The reduced form of IR, assembled again. -/
def reduceIr (c : Config) (ir : Path) : Reducing Path := do
  let root := Path.absolute c.startDirectory c.outputRoot
  let reduced := root / irName ir
  if ← Program.exists reduced then
    Program.info s!"{reduced.display} already reduced, skipping"
    return reduced
  let command := Command.ofProgram c.tools.llvmReduce
    |>.texts (Recursion.testOptions c)
    |>.text "-o"
    |>.path reduced
    |>.path (Path.absolute c.startDirectory ir)
    |>.within root
  Program.info s!"Reducing {ir.display} with llvm-reduce"
  minimize c command ir
  let _ ← (Compile.assemble c reduced root).adapt .compile
  return reduced

/-- Reduces the copy of a source, by a script that stands in a directory of its own. A copy that
could not be reduced is removed. -/
def reduceCopy (c : Config) (a : Artifact) (root copy directory : Path) : Reducing Unit := do
  let test := directory / "interesting.sh"
  Action.orFail (Program.write test (Recursion.script (Recursion.scriptBody c (sourceName a))))
    (.files test)
  Action.orFail (Program.makeExecutable test) (.files test)
  let command := Command.ofProgram c.tools.creduce
    |>.path test
    |>.text (sourceName a)
    |>.within root
  Program.info s!"Reducing {a.path.display} with creduce"
  (minimize c command a.path).cleaningUp fun
    | .ok () => pure ()
    | .error _ => do let _ ← Program.remove copy

/-- The reduced form of a source. -/
def reduceSource (c : Config) (a : Artifact) : Reducing Path := do
  let root := Path.absolute c.startDirectory c.outputRoot
  let copy := root / sourceName a
  if ← Program.exists copy then
    Program.info s!"{copy.display} already reduced, skipping"
    return copy
  Action.orFail (Program.copy a.path copy) (.files copy)
  let directory ← Action.orFail (Program.temporaryDirectory "pareduce-creduce" "") (.files root)
  (reduceCopy c a root copy directory).cleaningUp fun _ => do
    let _ ← Program.removeTree directory
  return copy

/-- Keeps an interesting variant and reduces the artifact that it is a variant of. -/
def dispatch (c : Config) (a : Artifact) (v : Variant) : Reducing Path := do
  let _ ← preserve c v
  match Backend.of a with
  | .irLevel => reduceIr c v.irPath
  | .sourceLevel => reduceSource c a

end Reduce
end BugHunt
