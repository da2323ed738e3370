import BugHunt.Log
/-!
The verdict on one variant of a program.
-/

namespace BugHunt

inductive Classification where
  | interesting
  | uninteresting
  | uncompilable
  deriving DecidableEq, Repr

namespace Classification

/-- The exit status that tells a minimizer to keep a candidate is zero. -/
def exitCode : Classification → Nat
  | interesting => 0
  | uninteresting | uncompilable => 1

def name : Classification → String
  | interesting => "Interesting"
  | uninteresting => "Uninteresting"
  | uncompilable => "Uncompilable"

def display : Classification → String
  | interesting => "interesting"
  | uninteresting => "uninteresting"
  | uncompilable => "uncompilable"

/-- The line that reports a verdict on the variant `variant` after `checked` assertions. -/
def report (variant : String) (c : Classification) (checked : Nat) : LogLine :=
  match c with
  | interesting => ⟨.info, s!"{variant}: interesting! ---------"⟩
  | uninteresting => ⟨.info, s!"{variant}: uninteresting. (checked {checked} assertions)"⟩
  | uncompilable => ⟨.info, s!"{variant}: uncompilable."⟩

theorem exitCode_eq_zero_iff {c : Classification} : c.exitCode = 0 ↔ c = .interesting := by
  cases c <;> simp [exitCode]

end Classification
end BugHunt
