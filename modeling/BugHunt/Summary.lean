import BugHunt.Classification
/-!
Tallies of the verdicts of a run.
-/

namespace BugHunt

structure Summary where
  interesting : Nat
  uninteresting : Nat
  uncompilable : Nat
  cacheHits : Nat
  reduceFailures : Nat
  deriving DecidableEq, Repr

namespace Summary

def zero : Summary := ⟨0, 0, 0, 0, 0⟩

/-- Counts one more verdict. -/
def record (s : Summary) : Classification → Summary
  | .interesting => { s with interesting := s.interesting + 1 }
  | .uninteresting => { s with uninteresting := s.uninteresting + 1 }
  | .uncompilable => { s with uncompilable := s.uncompilable + 1 }

def merge (s t : Summary) : Summary where
  interesting := s.interesting + t.interesting
  uninteresting := s.uninteresting + t.uninteresting
  uncompilable := s.uncompilable + t.uncompilable
  cacheHits := s.cacheHits + t.cacheHits
  reduceFailures := s.reduceFailures + t.reduceFailures

def withCacheHit (s : Summary) : Summary := { s with cacheHits := s.cacheHits + 1 }

def withReduceFailure (s : Summary) : Summary :=
  { s with reduceFailures := s.reduceFailures + 1 }

def total (s : Summary) : Nat := s.interesting + s.uninteresting + s.uncompilable

def foundInteresting (s : Summary) : Bool := 0 < s.interesting

theorem merge_assoc (s t u : Summary) : (s.merge t).merge u = s.merge (t.merge u) := by
  simp [merge, Nat.add_assoc]

theorem merge_comm (s t : Summary) : s.merge t = t.merge s := by
  simp [merge, Nat.add_comm]

theorem zero_merge (s : Summary) : zero.merge s = s := by
  simp [merge, zero]

theorem total_record (s : Summary) (c : Classification) :
    (s.record c).total = s.total + 1 := by
  cases c <;> simp [record, total] <;> omega

end Summary
end BugHunt
