import BugHunt.Classification
import BugHunt.Host.Program
/-!
The cache: empty marker files that remember verdicts other than interesting, by key. Compiled IR
lies in a directory beside the markers. There are no locks; storing a verdict twice changes
nothing.
-/

namespace BugHunt

inductive CacheError where
  | notCacheable (c : Classification)
  | files (path : Path) (cause : Failure)
  deriving DecidableEq, Repr

namespace CacheError

def message : CacheError → String
  | notCacheable c => s!"classification {c.name} is never cached"
  | files path cause => s!"cache I/O error at {path.quoted}: {cause.message}"

def causes : CacheError → List String
  | notCacheable _ => []
  | files _ cause => [cause.message]

end CacheError

abbrev Caching := Action CacheError

structure Cache where
  root : Path
  deriving DecidableEq, Repr

namespace Cache

def irDir (c : Cache) : Path := c.root / "ir"
def resultsDir (c : Cache) : Path := c.root / "results"

/-- Makes sure that the cache's directories exist. -/
def «open» (root : Path) : Caching Cache := do
  let cache : Cache := ⟨root⟩
  Action.orFail (Program.createDirectories cache.irDir) (.files cache.irDir)
  Action.orFail (Program.createDirectories cache.resultsDir) (.files cache.resultsDir)
  return cache

/-- The ending of the marker for a verdict; no marker stands for an interesting variant. -/
def markerEnding? : Classification → Option String
  | .uninteresting => some "uninteresting"
  | .uncompilable => some "nocompile"
  | .interesting => none

def markerPath? (c : Cache) (key : String) (verdict : Classification) : Option Path :=
  (markerEnding? verdict).map fun ending => c.resultsDir / s!"{key}.{ending}"

def hasMarker (c : Cache) (key : String) (verdict : Classification) : Program Bool :=
  match c.markerPath? key verdict with
  | none => return false
  | some path => Program.exists path

/-- The verdict remembered for a key. -/
def lookup (c : Cache) (key : String) : Program (Option Classification) := do
  if ← c.hasMarker key .uninteresting then return some .uninteresting
  if ← c.hasMarker key .uncompilable then return some .uncompilable
  return none

/-- The verdict whose marker a marker excludes. -/
def opposite? : Classification → Option Classification
  | .uninteresting => some .uncompilable
  | .uncompilable => some .uninteresting
  | .interesting => none

/-- Removes a file; that there is none is no error. -/
def removeIfPresent (path : Path) : Caching Unit :=
  ExceptT.mk do
    match ← Program.remove path with
    | .ok () => return .ok ()
    | .error cause => return if cause.isMissing then .ok () else .error (.files path cause)

/-- Remembers a verdict: leaves its marker and removes the opposite one. -/
def store (c : Cache) (key : String) (verdict : Classification) : Caching Unit := do
  match c.markerPath? key verdict, (opposite? verdict).bind (c.markerPath? key) with
  | some marker, some other =>
    Action.orFail (Program.touch marker) (.files marker)
    removeIfPresent other
  | _, _ => throw (.notCacheable verdict)

/-- Deletes the cache, compiled IR included; that there is none is no error. -/
def reset (c : Cache) : Caching Unit :=
  ExceptT.mk do
    match ← Program.removeTree c.root with
    | .ok () => return .ok ()
    | .error cause => return if cause.isMissing then .ok () else .error (.files c.root cause)

end Cache
end BugHunt
