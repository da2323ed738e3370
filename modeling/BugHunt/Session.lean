import BugHunt.CommandLine
import BugHunt.Pipeline.Classify
import BugHunt.Pipeline.Fetch
import BugHunt.Pipeline.Scan
import BugHunt.Settings.Load
/-!
A session: one run of the program from its arguments to its exit status.
-/

namespace BugHunt

/-- Why a session ends without a result. -/
inductive SessionError where
  | cache (error : CacheError)
  | setup (error : SetupError)
  | pipeline (error : PipelineError)
  deriving DecidableEq, Repr

namespace SessionError

def message : SessionError → String
  | cache error => error.message
  | setup error => error.message
  | pipeline error => error.message

def causes : SessionError → List String
  | cache error => error.causes
  | setup error => error.causes
  | pipeline error => error.causes

end SessionError

namespace Session

def statusFound : Nat := 0
def statusNotFound : Nat := 1
def statusConfiguration : Nat := 2
def statusInterrupted : Nat := 130

/-- A message and the messages behind it, in one line. -/
def chain (message : String) (causes : List String) : String :=
  ": ".intercalate (message :: causes)

/-- Clones missing search roots and says which. -/
def fetch (c : Config) : Action SessionError Unit := do
  for directory in ← (Fetch.missingRoots c none).adapt .setup do
    Program.info s!"Fetched {directory.display}"

/-- Empties the cache. -/
def reset (c : Config) : Action SessionError Unit := do
  Program.info s!"Resetting cache at {c.cacheRoot.display}"
  let cache ← (Cache.open c.cacheRoot).adapt .cache
  cache.reset.adapt .cache

/-- Checks one program, or all below the search roots. -/
def check (c : Config) (o : Options) : Action SessionError Summary := do
  match o.program with
  | some program => (Check.program c program).adapt .pipeline
  | none =>
    if o.fetch then fetch c
    (Scan.searchRoots c).adapt .pipeline

/-- The work that a configuration and the options ask for, and the exit status it leads to. -/
def work (c : Config) (o : Options) : Action SessionError Nat := do
  if o.reset then reset c
  match c.testOnly, o.program with
  | true, some program =>
    let verdict ← (Classify.program c program).adapt .pipeline
    return verdict.exitCode
  | _, _ =>
    let s ← check c o
    if 0 < s.reduceFailures then Program.warn s!"{s.reduceFailures} reduction(s) failed"
    return if s.foundInteresting then statusFound else statusNotFound

/-- The configuration that the options make up, with the settings they name. -/
def configure (around : Surroundings) (o : Options) : Action ConfigError Config := do
  let (settings, file) ← Settings.choose o.configFile
  ExceptT.mk (pure (Config.bootstrap around { o.toOverrides with configFile := file } settings))

/-- Reports what ended a session early. An interrupt goes before the error that came of it. -/
def stopped (error : SessionError) : Program Nat := do
  let cancelled ← Program.isCancelled
  if cancelled || error = .pipeline .interrupted then
    Program.warn "Interrupted, stopping"
    return statusInterrupted
  else
    Program.log .error (chain error.message error.causes)
    return statusNotFound

/-- Runs what the options ask for. -/
def run (around : Surroundings) (o : Options) : Program Nat := do
  match ← (configure around o).run with
  | .error error =>
    Program.log .error (chain error.message error.causes)
    return statusConfiguration
  | .ok c =>
    match ← (work c o).run with
    | .ok status => return status
    | .error error => stopped error

/-- Runs what the arguments ask for. -/
def start (around : Surroundings) (arguments : List Bytes) : Program Nat :=
  match CommandLine.parse arguments with
  | .error .usage => return statusConfiguration
  | .error .shown => return statusFound
  | .ok o => run around o

end Session
end BugHunt
