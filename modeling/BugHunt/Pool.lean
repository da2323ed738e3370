import BugHunt.Host.Descent
/-!
A pool of workers. Idle workers take the next artifact as long as there is one, the run is not
interrupted and no job was given up; the host chooses whose step comes next.
-/

namespace BugHunt

/-- What is left to hand out: artifacts, and after them what is found below roots. -/
structure Supply where
  ready : List Artifact
  roots : List Path

/-- How many jobs run side by side, what the job on an artifact is, and which results keep the
workers from taking more. -/
structure Pool (α : Type) where
  workers : Nat
  job : Artifact → Program α
  stops : α → Bool

namespace Supply

def none : Supply := ⟨[], []⟩

def isEmpty (s : Supply) : Bool := s.ready.isEmpty && s.roots.isEmpty

end Supply

namespace Pool

/-- Warns of what could not be read. -/
def complain (found : List Found) : Program Unit :=
  (found.filterMap Found.complaint?).forM Program.warn

/-- Runs the jobs on a supply. The answer is their results in the order in which they ended. -/
def run (pool : Pool α) (supply : Supply) (running : List (Program α)) (results : List α) :
    Program (List α) :=
  if running.length < pool.workers ∧ !supply.isEmpty then
    match supply with
    | ⟨a :: ready, roots⟩ =>
      .ask .isCancelled fun (cancelled : Bool) =>
        if cancelled then pool.run .none running results
        else pool.run ⟨ready, roots⟩ (running ++ [pool.job a]) results
    | ⟨[], root :: roots⟩ =>
      .ask (.search root) fun (found : List Found) =>
        (complain found).bind fun _ =>
          pool.run ⟨found.filterMap Found.artifact?, roots⟩ running results
    | ⟨[], []⟩ => .done results
  else if h : running.length = 0 then .done results
  else
    .ask (.choose running.length) fun (turn : Nat) =>
      have inRange : turn % running.length < running.length := Nat.mod_lt _ (Nat.pos_of_ne_zero h)
      match taken : running[turn % running.length] with
      | .done result =>
        pool.run (if pool.stops result then .none else supply)
          (running.eraseIdx (turn % running.length)) (results ++ [result])
      | .ask request next =>
        .ask request fun answer =>
          pool.run supply (running.set (turn % running.length) (next answer)) results
termination_by (supply.roots.length, supply.ready.length, Program.Lower.wellFounded.wrap running)
decreasing_by
  · simp [Prod.lex_def, Supply.none]; omega
  · simp [Prod.lex_def]
  · simp [Prod.lex_def]
  · have lower := Program.Lower.eraseIdx inRange
    split <;> simp [Prod.lex_def, Supply.none, WellFounded.wrap, lower]
    omega
  · have next : Program.Next running[turn % running.length] (next answer) := by
      rw [taken]; exact .answer ..
    simp [Prod.lex_def, WellFounded.wrap, Program.Lower.set inRange next]

end Pool
end BugHunt
