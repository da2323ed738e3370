import BugHunt.Path
/-!
The configuration of a run, and the arguments that hand it on to a recursive call.
-/

namespace BugHunt

inductive Engine where
  | compiled
  | interpreted
  deriving DecidableEq, Repr

structure ToolPaths where
  clang : Path
  clangxx : Path
  llvmAs : Path
  llvmDis : Path
  llvmReduce : Path
  creduce : Path
  souffle : Path
  git : Path
  factgen : Path
  deriving DecidableEq, Repr

/-- A configuration. Its paths mean the same from every directory, but for the search roots, which
are seen from `startDirectory`, and for bare names of commands. Times are in milliseconds. -/
structure Config where
  startDirectory : Path
  debug : Bool
  cores : Nat
  processes : Nat
  testOnly : Bool
  engine : Engine
  buildRoot : Path
  analysis : Path
  outputRoot : Path
  cacheRoot : Path
  searchRoots : List Path
  repositories : List (String × String)
  contextSensitivity : String
  tools : ToolPaths
  project : Path
  libraryDir : Path
  compileTimeout : Nat
  analysisTimeout : Nat
  memoryLimit : Option Nat
  optLevels : List (List String)
  extraArgs : List String
  assertions : List String
  selfExe : Path
  configFile : Option Path
  deriving DecidableEq, Repr

namespace Config

/-- Solver threads of one analysis. -/
def jobs (c : Config) : Nat := c.cores / c.processes

/-- The tool that analyses facts. -/
def analysisTool (c : Config) : Path :=
  match c.engine with
  | .compiled => c.analysis
  | .interpreted => c.tools.souffle

/-- The arguments under which a recursive call sees this configuration. -/
def passthroughArgs (c : Config) : List String :=
  ["--build-root", c.buildRoot.display,
    "--analysis", c.analysis.display,
    "--cache-dir", c.cacheRoot.display,
    "--context-sensitivity", c.contextSensitivity,
    "--cores", toString c.jobs,
    "--processes", "1"]
  ++ (match c.configFile with
    | some file => ["--config", file.display]
    | none => [])
  ++ (match c.engine with
    | .compiled => []
    | .interpreted =>
      ["--interpreter", "--project", c.project.display, "--library-dir", c.libraryDir.display])

end Config
end BugHunt
