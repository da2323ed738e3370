import BugHunt.Config.Basic
import BugHunt.Failure
import BugHunt.Settings.Decode
/-!
How command line, settings and defaults make up a configuration. Paths on the command line are
seen from the directory the run starts in, paths in the settings from the directory of their file.
-/

namespace BugHunt

inductive ConfigError where
  | read (path : Path) (cause : Failure)
  | parse (path : Path) (cause : Settings.DecodeError)
  | zeroWorkers
  | processesExceedCores (cores processes : Nat)
  | processesDoNotDivideCores (cores processes : Nat)
  | noOptLevels
  | noAssertions
  deriving DecidableEq, Repr

def ConfigError.message : ConfigError → String
  | read path cause => s!"failed to read config file {path.quoted}: {cause.message}"
  | parse path _ => s!"failed to parse TOML from config file {path.quoted}"
  | zeroWorkers => "the number of cores and processes must both be at least 1"
  | processesExceedCores cores processes =>
    s!"the number of processes ({processes}) should be less than the number of cores ({cores})"
  | processesDoNotDivideCores cores processes =>
    s!"the number of processes ({processes}) should divide the number of cores ({cores})"
  | noOptLevels => "at least one optimization flag set must be configured"
  | noAssertions => "the assertion allow-list is empty"

/-- The messages of the errors behind this one. -/
def ConfigError.causes : ConfigError → List String
  | read _ cause => [cause.message]
  | _ => []

/-- What a run finds around it. -/
structure Surroundings where
  startDirectory : Path
  temporaryDirectory : Path
  executable : Path
  cores : Nat
  deriving Repr

/-- What the command line sets. -/
structure Overrides where
  debug : Bool := false
  cores : Option Nat := none
  processes : Option Nat := none
  buildRoot : Option Path := none
  analysis : Option Path := none
  interpreter : Bool := false
  testOnly : Bool := false
  directories : List Path := []
  cacheRoot : Option Path := none
  outputRoot : Option Path := none
  contextSensitivity : Option String := none
  project : Option Path := none
  libraryDir : Option Path := none
  configFile : Option Path := none
  selfExe : Option Path := none
  deriving Repr

namespace Config

def defaultMemoryLimit : Nat := 500 * 1024 * 1024
def defaultCompileSecs : Nat := 10
def defaultAnalysisSecs : Nat := 30 * 60

def defaultOptLevels : List (List String) := [["-O0"], ["-O2"]]

def defaultAssertions : List String := [
  "assert_reachable_direct_calls_have_callees.csv.gz",
  "assert_subset_aliases_are_unification_aliases.csv.gz",
  "assert_subset_callgraph_edge_implies_unification_callgraph_edge.csv.gz",
  "assert_subset_reachable_ctx_implies_unification_reachable_ctx.csv.gz",
  "assert_subset_var_points_to_inhabited_implies_unification.csv.gz",
  "assert_unification_var_points_to_unique.csv.gz",
  "assert_unique_repr.csv.gz",
  "assert_var_points_to_implies_reachable.csv.gz"]

def defaultSearchRoots : List Path :=
  ["llvm-project/clang/test/Sema", "gcc.c-torture/execute"]

def defaultRepositories : List (String × String) := [
  ("AnghaBench", "https://github.com/brenocfg/AnghaBench"),
  ("gcc", "https://github.com/gcc-mirror/gcc"),
  ("llvm-project", "https://github.com/llvm/llvm-project"),
  ("sv-benchmarks", "https://github.com/sosy-lab/sv-benchmarks")]

def defaultProject : Path := "llvm/PointerAnalysis/datalog/debug.project"
def defaultFactgen : String := "llvm/PointerAnalysis/PointerAnalysis/factgen-exe"
def defaultContextSensitivity : String := "1-callsite"
def defaultCacheName : String := "pareduce-cache"

/-- Whether the processes share the cores evenly. -/
def checkWorkers (cores processes : Nat) : Except ConfigError Unit :=
  if cores = 0 || processes = 0 then .error .zeroWorkers
  else if cores < processes then .error (.processesExceedCores cores processes)
  else if cores % processes != 0 then .error (.processesDoNotDivideCores cores processes)
  else .ok ()

/-- `path` seen from `base`, which itself is seen from `start`. -/
def anchor (start base path : Path) : Path := Path.absolute start (base.join path)

/-- Whether a path is the bare name of a command. -/
def isBareName (path : Path) : Bool :=
  match path.components with
  | [.normal _] => true
  | _ => false

/-- Like `anchor`; the bare name of a command stays as it is. -/
def anchorTool (start base path : Path) : Path :=
  if isBareName path then path else anchor start base path

def resolveTools (start settingsDir buildRoot : Path) (s : ToolSettings) : ToolPaths :=
  let tool (configured : Option String) (name : String) : Path :=
    match configured with
    | some path => anchorTool start settingsDir path
    | none => name
  { clang := tool s.clang "clang"
    clangxx := tool s.clangxx "clang++"
    llvmAs := tool s.llvmAs "llvm-as"
    llvmDis := tool s.llvmDis "llvm-dis"
    llvmReduce := tool s.llvmReduce "llvm-reduce"
    creduce := tool s.creduce "creduce"
    souffle := tool s.souffle "souffle"
    git := tool s.git "git"
    factgen := match s.factgen with
      | some path => anchorTool start settingsDir path
      | none => buildRoot / defaultFactgen }

/-- The directory that the paths of a settings file are seen from. -/
def settingsDir (configFile : Option Path) : Path := (configFile.bind Path.parent?).getD ⟨[]⟩

/-- The path from the command line, else the one from the settings, else the default. -/
def choosePath (start settingsDir : Path) (given : Option Path) (configured : Option String)
    (fallback : Path) : Path :=
  match given, configured with
  | some path, _ => anchor start ⟨[]⟩ path
  | none, some path => anchor start settingsDir path
  | none, none => fallback

/-- The configuration that overrides, settings and defaults make up. -/
def bootstrap (around : Surroundings) (o : Overrides) (s : Settings) :
    Except ConfigError Config := do
  let start := around.startDirectory
  let cores := o.cores.getD around.cores
  let processes := o.processes.getD cores
  checkWorkers cores processes
  let settingsDir := settingsDir o.configFile
  let buildRoot := Path.absolute start (o.buildRoot.getD ".out/build")
  let optLevels := s.compiler.optLevels.getD defaultOptLevels
  if optLevels.isEmpty then throw .noOptLevels
  let assertions := s.analysis.assertions.getD defaultAssertions
  if assertions.isEmpty then throw .noAssertions
  return {
    startDirectory := start
    debug := o.debug
    cores
    processes
    testOnly := o.testOnly
    engine := if o.interpreter then .interpreted else .compiled
    buildRoot
    analysis := anchorTool start ⟨[]⟩ (o.analysis.getD "pointer-analysis")
    outputRoot := Path.absolute start (o.outputRoot.getD ".")
    cacheRoot :=
      Path.absolute start (o.cacheRoot.getD (around.temporaryDirectory / defaultCacheName))
    searchRoots :=
      if o.directories.isEmpty then
        match s.search.roots with
        | some roots => roots.map Path.ofString
        | none => defaultSearchRoots
      else o.directories
    repositories := s.search.repositories.getD defaultRepositories
    contextSensitivity :=
      (o.contextSensitivity <|> s.analysis.contextSensitivity).getD defaultContextSensitivity
    tools := resolveTools start settingsDir buildRoot s.tools
    project := choosePath start settingsDir o.project s.analysis.project
      (anchor start ⟨[]⟩ defaultProject)
    libraryDir := choosePath start settingsDir o.libraryDir s.analysis.libraryDir
      (buildRoot / "llvm")
    compileTimeout := 1000 * s.timeouts.compileSecs.getD defaultCompileSecs
    analysisTimeout := 1000 * s.timeouts.analysisSecs.getD defaultAnalysisSecs
    memoryLimit := match s.limits.memoryBytes with
      | some 0 => none
      | some bytes => some bytes
      | none => some defaultMemoryLimit
    optLevels
    extraArgs := s.compiler.extraArgs
    assertions
    selfExe := o.selfExe.getD around.executable
    configFile := o.configFile.map (Path.absolute start) }

end Config
end BugHunt
