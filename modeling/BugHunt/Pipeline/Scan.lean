import BugHunt.Pipeline.Check
import BugHunt.Pool
/-!
A scan: the check of many programs by a pool of workers, and the sum of what they find.
-/

namespace BugHunt

namespace Scan

/-- The result of the check of one program. -/
abbrev Part := Except PipelineError Summary

/-- Whether a result keeps the workers from taking more programs. -/
def Part.isFailure : Part → Bool
  | .ok _ => false
  | .error _ => true

/-- The sum of two results; the first failure stands. -/
def Part.merge : Part → Part → Part
  | .error error, _ => .error error
  | .ok _, .error error => .error error
  | .ok s, .ok t => .ok (s.merge t)

def total (parts : List Part) : Part := parts.foldl Part.merge (.ok .zero)

def pool (c : Config) (cache : Cache) : Pool Part where
  workers := c.processes
  job a := (Check.variants c cache a).normalized.run
  stops := Part.isFailure

/-- Checks a supply of programs. An interrupt goes before every other result. -/
def run (c : Config) (supply : Supply) : Checking Summary := do
  let cache ← (Cache.open c.cacheRoot).adapt .cache
  Program.info (s!"Scanning {c.searchRoots.length} search root(s) with {c.processes} worker(s), " ++
    s!"{c.jobs} solver thread(s) each")
  let parts ← ExceptT.lift ((pool c cache).run supply [] [])
  if ← Program.isCancelled then throw .interrupted
  let s ← ExceptT.mk (pure (total parts))
  Program.info (s!"Checked {s.total} variant(s): {s.interesting} interesting, " ++
    s!"{s.uninteresting} uninteresting, {s.uncompilable} uncompilable ({s.cacheHits} cached)")
  return s

/-- Checks the programs given. -/
def artifacts (c : Config) (ready : List Artifact) : Checking Summary := run c ⟨ready, []⟩

/-- Checks what lies below the search roots. -/
def searchRoots (c : Config) : Checking Summary := run c ⟨[], c.searchRoots⟩

/-- The programs that lie below roots. -/
def discover : List Path → Program (List Artifact)
  | [] => return []
  | root :: rest => do
    let found ← Program.search root
    Pool.complain found
    return found.filterMap Found.artifact? ++ (← discover rest)

end Scan
end BugHunt
