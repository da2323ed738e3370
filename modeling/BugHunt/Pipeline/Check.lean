import BugHunt.Oracle
import BugHunt.Pipeline.Error
import BugHunt.Reduce
import BugHunt.Summary
/-!
Checking a program: every variant is looked up in the cache, else compiled, judged and, if it is
interesting, reduced. Test-only runs judge the variants alone.
-/

namespace BugHunt

namespace Check

/-- Says a verdict and counts it. -/
def report (c : Config) (name : String) (verdict : Classification) (s : Summary) :
    Checking Summary := do
  let line := verdict.report name c.assertions.length
  Program.log line.level line.message
  return s.record verdict

/-- Reduces an interesting variant. That the minimizer fails stops nothing. -/
def reduce (c : Config) (a : Artifact) (v : Variant) (s : Summary) : Checking Summary := do
  match ← ExceptT.lift (Reduce.dispatch c a v).run with
  | .ok reduced =>
    Program.info s!"Reduced {v.name} to {reduced.display}"
    return s
  | .error (.minimizerFailed tool input detail) =>
    Program.log .error (ReduceError.minimizerFailed tool input detail).message
    return s.withReduceFailure
  | .error error => throw (.reduce error)

/-- Remembers a verdict and drops the compiled IR, which nothing needs any more. -/
def settle (c : Config) (cache : Cache) (a : Artifact) (v : Variant) (verdict : Classification) :
    Checking Unit := do
  (cache.store v.key verdict).adapt .cache
  if a.isSource && !c.debug then (Cache.removeIfPresent v.irPath).adapt .cache

/-- Builds, judges and disposes of a variant that the cache does not know. -/
def fresh (c : Config) (cache : Cache) (a : Artifact) (p : Plan) (s : Summary) :
    Checking Summary := do
  let variant ← (Compile.build c cache.irDir a p).adapt .compile
  if !variant.success then
    (cache.store p.key .uncompilable).adapt .cache
    return ← report c p.irPath.name .uncompilable s
  let verdict ← (Oracle.classify c variant.irPath).adapt .oracle
  let s ← report c p.irPath.name verdict s
  match verdict with
  | .interesting => reduce c a variant s
  | verdict =>
    settle c cache a variant verdict
    return s

/-- Checks the variant for one set of flags. -/
def variant (c : Config) (cache : Cache) (a : Artifact) (flags : List String) (s : Summary) :
    Checking Summary := do
  if ← Program.isCancelled then throw .interrupted
  let plan ← (Compile.plan c cache.irDir a flags).adapt .compile
  match ← ExceptT.lift (cache.lookup plan.key) with
  | some verdict => report c plan.irPath.name verdict s.withCacheHit
  | none => fresh c cache a plan s

def each (c : Config) (cache : Cache) (a : Artifact) : List (List String) → Summary →
    Checking Summary
  | [], s => return s
  | flags :: rest, s => do each c cache a rest (← variant c cache a flags s)

/-- Checks every variant of an artifact, one after another. -/
def variants (c : Config) (cache : Cache) (a : Artifact) : Checking Summary :=
  each c cache a (flagSets c a) .zero

/-- Checks one program, with reduction. -/
def program (c : Config) (path : Path) : Checking Summary := do
  match Artifact.ofPath? path with
  | none => throw (.notAProgram path)
  | some a =>
    let cache ← (Cache.open c.cacheRoot).adapt .cache
    (variants c cache a).normalized

end Check
end BugHunt
