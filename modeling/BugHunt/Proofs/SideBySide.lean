import BugHunt.Host.Program
/-!
Programs side by side on one host. A schedule tells whose request is answered next; all schedules
together are all the ways in which the programs can get in between each other.
-/

namespace BugHunt.Proofs.SideBySide

/-- The programs after the next request of one of them has been answered. A program that is done
has nothing more to ask. -/
def turn (host : Host σ) (now : List (Program α) × σ) (i : Nat) : List (Program α) × σ :=
  match now.1[i]? with
  | some (.ask r next) => (now.1.set i (next (host r now.2).1), (host r now.2).2)
  | _ => now

/-- The programs after the turns of a schedule. -/
def interleave (host : Host σ) (start : List (Program α) × σ) (schedule : List Nat) :
    List (Program α) × σ :=
  schedule.foldl (turn host) start

variable {host : Host σ} {I : List (Program α) → σ → Prop}

theorem turn_of_ask {ps : List (Program α)} {s : σ} {i : Nat} {r : Request}
    {next : r.Answer → Program α} (asks : ps[i]? = some (.ask r next)) :
    turn host (ps, s) i = (ps.set i (next (host r s).1), (host r s).2) := by
  unfold turn
  simp only [asks]

/-- What every answer keeps true holds after every schedule. -/
theorem interleave_keeps {ps : List (Program α)} {s : σ} (start : I ps s)
    (kept : ∀ ps s i r next, I ps s → ps[i]? = some (.ask r next) →
      I (ps.set i (next (host r s).1)) (host r s).2) (schedule : List Nat) :
    I (interleave host (ps, s) schedule).1 (interleave host (ps, s) schedule).2 := by
  induction schedule generalizing ps s with
  | nil => exact start
  | cons i rest ih =>
    show I (interleave host (turn host (ps, s) i) rest).1 (interleave host (turn host (ps, s) i) rest).2
    cases found : ps[i]? with
    | none =>
      have same : turn host (ps, s) i = (ps, s) := by simp only [turn, found]
      rw [same]
      exact ih start
    | some p =>
      cases p with
      | done value =>
        have same : turn host (ps, s) i = (ps, s) := by simp only [turn, found]
        rw [same]
        exact ih start
      | ask r next =>
        rw [turn_of_ask found]
        exact ih (kept ps s i r next start found)

/-- The others are where they were. -/
theorem mem_set_of_ne {ps : List α} {p q x : α} {i : Nat} (found : ps[i]? = some p) (among : q ∈ ps)
    (other : q ≠ p) : q ∈ ps.set i x := by
  obtain ⟨j, isAt⟩ := List.mem_iff_getElem?.mp among
  have apart : i ≠ j := by
    rintro rfl
    exact other (Option.some.inj (isAt.symm.trans found))
  rw [List.mem_iff_getElem?]
  exact ⟨j, by rw [List.getElem?_set_ne apart, isAt]⟩

end BugHunt.Proofs.SideBySide
