import BugHunt.Oracle.Relations
import BugHunt.Oracle.Sentinel
import BugHunt.Oracle.Workspace
/-!
The oracle. It assembles a program, generates facts, analyses them and reads the assertion
relations; whether the program is interesting follows from how each stage ends.
-/

namespace BugHunt

/-- How an external stage ended. -/
inductive StageResult where
  | succeeded
  | crashed (output : Output)
  | timedOut
  deriving DecidableEq, Repr

def StageResult.ofOutcome : Outcome → StageResult
  | .completed _ => succeeded
  | .failed output => crashed output
  | .timedOut => timedOut

/-- Whether the oracle goes on or has its verdict. -/
inductive Transition where
  | next
  | halt (verdict : Classification)
  deriving DecidableEq, Repr

/-- Trouble in generating facts is not what is looked for. -/
def StageResult.afterFactGeneration : StageResult → Transition
  | succeeded => .next
  | crashed _ | timedOut => .halt .uninteresting

/-- A crash of the analysis is what is looked for; an analysis that takes too long is not. -/
def StageResult.afterAnalysis : StageResult → Transition
  | succeeded => .next
  | crashed _ => .halt .interesting
  | timedOut => .halt .uninteresting

namespace Oracle

def factCommand (c : Config) (w : Workspace) (bitcode : Path) : Command :=
  Command.ofProgram c.tools.factgen
    |>.text "--out-dir"
    |>.path w.facts
    |>.texts ["--context-sensitivity", c.contextSensitivity]
    |>.path bitcode

/-- The call of the analysis. The interpreter runs in the directory of its project. -/
def analysisCommand (c : Config) (w : Workspace) : Command :=
  let jobs := toString c.jobs
  let command := match c.engine with
    | .compiled => Command.ofProgram c.analysis |>.texts ["-j", jobs]
    | .interpreted =>
      let command := Command.ofProgram c.tools.souffle
        |>.texts ["-j", jobs, "-L"]
        |>.path c.libraryDir
        |>.texts ["-lFunctors", "-PSIPS:max-bound"]
        |>.path c.project
      match c.project.parent? with
      | some directory => command.within directory
      | none => command
  command |>.text "-F" |>.path w.facts |>.text "-D" |>.path w.results

def runStage (c : Config) (command : Command) : Judging StageResult := do
  let outcome ← (command.run c.memoryLimit (some c.analysisTimeout)).adapt .run
  return .ofOutcome outcome

/-- Says and records how a stage ended that did not succeed. -/
def reportTrouble (irPath tool : Path) (stage : Stage) (crash timeout : String) :
    StageResult → Judging Unit
  | .crashed output => do
    Program.warn (output.tail Sentinel.tailSize)
    Program.warn crash
    let _ ← Sentinel.write ⟨stage, tool, irPath, output⟩
  | _ => Program.warn timeout

/-- The verdict on a program, within a workspace. -/
def classifyIn (c : Config) (w : Workspace) (irPath : Path) : Judging Classification := do
  let bitcode ← (Compile.assemble c irPath w.root).adapt .assemble
  let facts ← runStage c (factCommand c w bitcode)
  match facts.afterFactGeneration with
  | .halt verdict =>
    reportTrouble irPath c.tools.factgen .factGeneration
      "Fact generator crash!" "Fact generator timeout!" facts
    return verdict
  | .next =>
    let analysis ← runStage c (analysisCommand c w)
    match analysis.afterAnalysis with
    | .halt verdict =>
      reportTrouble irPath c.analysisTool .analysis "Analysis crash!!" "Analysis timeout!" analysis
      return verdict
    | .next => return (← Relations.scan c.assertions w.results).verdict

/-- The verdict on the IR at a path. A crash leaves a sentinel beside it; all else happens in a
workspace that is gone afterwards, unless debugging keeps it. -/
def classify (c : Config) (irPath : Path) : Judging Classification := do
  let w ← (Workspace.create irPath.name).adapt .workspace
  (classifyIn c w irPath).cleaningUp fun _ => w.discard c.debug

end Oracle
end BugHunt
