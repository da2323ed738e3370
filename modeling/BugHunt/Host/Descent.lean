import BugHunt.Host.Program
/-!
Runs side by side come to an end: every step takes one of them further down its tree of requests,
and no tree has an endless branch.
-/

namespace BugHunt.Program

/-- `p.Next q`: one answer takes `p` to `q`. -/
inductive Next : Program α → Program α → Prop
  | answer (request : Request) (next : request.Answer → Program α) (answer : request.Answer) :
    Next (ask request next) (next answer)

/-- `Lower qs ps`: the runs `ps` become `qs` when one of them takes a step or leaves. -/
inductive Lower : List (Program α) → List (Program α) → Prop
  | step (h : Next p q) : Lower (q :: ps) (p :: ps)
  | leave : Lower ps (p :: ps)
  | later (h : Lower qs ps) : Lower (p :: qs) (p :: ps)

theorem Next.acc (p : Program α) : Acc (fun q p => Next p q) p := by
  induction p with
  | done value => exact ⟨_, fun q h => by cases h⟩
  | ask request next ih => exact ⟨_, fun q h => by cases h; exact ih _⟩

theorem Lower.acc_cons {ps : List (Program α)} (p : Program α) (hps : Acc Lower ps) :
    Acc Lower (p :: ps) := by
  have hp := Next.acc p
  induction hp generalizing ps with
  | intro p _ ihp =>
    induction hps with
    | intro ps hps ihps =>
      refine ⟨_, fun qs h => ?_⟩
      cases h with
      | step h => exact ihp _ h ⟨ps, hps⟩
      | leave => exact ⟨ps, hps⟩
      | later h => exact ihps _ h

theorem Lower.wellFounded : WellFounded (Lower (α := α)) := by
  refine ⟨fun ps => ?_⟩
  induction ps with
  | nil => exact ⟨_, fun qs h => by cases h⟩
  | cons p ps ih => exact Lower.acc_cons p ih

theorem Lower.set {ps : List (Program α)} {i : Nat} (h : i < ps.length) (hq : Next ps[i] q) :
    Lower (ps.set i q) ps := by
  induction ps generalizing i with
  | nil => simp at h
  | cons p ps ih =>
    cases i with
    | zero => exact .step hq
    | succ i => exact .later (ih (by simpa using h) (by simpa using hq))

theorem Lower.eraseIdx {ps : List (Program α)} {i : Nat} (h : i < ps.length) :
    Lower (ps.eraseIdx i) ps := by
  induction ps generalizing i with
  | nil => simp at h
  | cons p ps ih =>
    cases i with
    | zero => exact .leave
    | succ i => exact .later (ih (by simpa using h))

end BugHunt.Program
