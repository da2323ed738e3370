import BugHunt.Proofs.Growth
import BugHunt.Proofs.Runs
import BugHunt.Proofs.Toolless
/-!
Runs on a bench that are interrupted. A run learns of an interrupt when it asks, or when a tool that
it waits for is killed in the middle of its work; all else goes on as it does without interrupts.
-/

namespace BugHunt.Proofs.Interrupts
open Trees Runs Bench Growth Asking Toolless

variable {b : Bench} {s : State}

/-- The bench with other tools. -/
def refit (b : Bench) (tools : Toolbox) : Bench := { b with tools }

/-- Whether tools do what the tools of a bench may have done when they are killed. What they have
written by then can be anything, but a converter that has nothing to read and would have written
nothing has not. -/
def Unfinished (b : Bench) (tools : Toolbox) : Prop :=
  ∀ program, (b.tools.convert program none).written = none →
    (tools.convert program none).written = none

/-- When a run is interrupted, by the number of requests that went before: whether the run is told
so when it asks, and what a tool has done that is killed while the run waits for it. -/
structure Interrupts (b : Bench) where
  seen : Nat → Bool
  killed : Nat → Option Toolbox
  unfinished : ∀ n tools, killed n = some tools → Unfinished b tools

/-- A run that is never interrupted. -/
def noInterrupts (b : Bench) : Interrupts b where
  seen _ := false
  killed _ := none
  unfinished _ _ never := by cases never

/-- How the bench answers in a run that is interrupted. -/
def interrupting (b : Bench) (i : Interrupts b) : Host (State × Nat)
  | .isCancelled, (s, n) => (i.seen n, s, n + 1)
  | .await child stop, (s, n) =>
    match i.killed n, s.started[child.id]? with
    | some tools, some command =>
      (.ok .cancelled, { s with tree := ((refit b tools).carryOut command s.tree).1 }, n + 1)
    | _, _ => ((b.host (.await child stop) s).1, (b.host (.await child stop) s).2, n + 1)
  | r, (s, n) => ((b.host r s).1, (b.host r s).2, n + 1)

variable {i : Interrupts b}

/-! ## What is not interrupted -/

/-- The requests that an interrupt does not show in. -/
def Plain : Request → Prop
  | .isCancelled | .await .. => False
  | _ => True

theorem plain_of_toolless (r : Request) (toolless : Toolless r) : Plain r := by
  cases r with
  | isCancelled => exact toolless.elim
  | await child stop => exact toolless.elim
  | _ => trivial

theorem plain_of_discreet (r : Request) (discreet : Discreet r) : Plain r :=
  plain_of_toolless r (toolless_of_discreet r discreet)

theorem interrupting_plain {r : Request} (plain : Plain r) (s : State) (n : Nat) :
    interrupting b i r (s, n) = ((b.host r s).1, (b.host r s).2, n + 1) := by
  cases r with
  | isCancelled => exact plain.elim
  | await child stop => exact plain.elim
  | _ => rfl

theorem run_plain {p : Program α} (asks : Asks Plain p) (s : State) (n : Nat) :
    ∃ m, p.run (interrupting b i) (s, n) = ((p.run b.host s).1, (p.run b.host s).2, m) := by
  induction p generalizing s n with
  | done value => exact ⟨n, rfl⟩
  | ask request next ih =>
    obtain ⟨m, ran⟩ := ih (b.host request s).1 (asks.2 _) (b.host request s).2 (n + 1)
    refine ⟨m, ?_⟩
    rw [Program.run, interrupting_plain asks.1]
    exact ran

/-- However it is interrupted, a run leaves a tree. -/
theorem interrupted_grown (p : Program α) (s : State) (n : Nat) (grown : Grown s.tree.node?) :
    Grown (p.run (interrupting b i) (s, n)).2.1.tree.node? := by
  have answered (r : Request) (s : State) (n : Nat) (grown : Grown s.tree.node?) :
      Grown (interrupting b i r (s, n)).2.1.tree.node? := by
    cases r with
    | await child stop =>
      simp only [interrupting]
      split
      · exact carryOut_grown grown _
      · exact host_grown grown _
    | isCancelled => exact grown
    | _ => exact host_grown grown _
  induction p generalizing s n with
  | done value => exact grown
  | ask request next ih => exact ih _ _ _ (answered request s n grown)

/-! ## Actions that heed interrupts -/

/-- How an action ends from a state. Undisturbed it ends as `Q` says; a run that is interrupted is
the undisturbed one, or ends early with an error, as `Cut` says. -/
structure Heeds (i : Interrupts b) (s : State) (a : Action ε α) (Q : Except ε α → State → Prop)
    (Cut : ε → State → Prop) : Prop where
  calm : Q (exec b.host s a).1 (exec b.host s a).2
  disturbed : ∀ n, ∃ m, exec (interrupting b i) (s, n) a =
      ((exec b.host s a).1, (exec b.host s a).2, m) ∨
    ∃ e t, exec (interrupting b i) (s, n) a = (.error e, t, m) ∧ Cut e t

section Rules

variable {Q : Except ε α → State → Prop} {Cut : ε → State → Prop} {a : Action ε α}

theorem Heeds.plain (asks : Within Plain a) (calm : Q (exec b.host s a).1 (exec b.host s a).2) :
    Heeds i s a Q Cut where
  calm := calm
  disturbed n := by
    obtain ⟨m, ran⟩ := run_plain asks s n
    exact ⟨m, .inl ran⟩

theorem Heeds.toolless (asks : Within Toolless a) (calm : Q (exec b.host s a).1 (exec b.host s a).2) :
    Heeds i s a Q Cut := .plain (asks.mono plain_of_toolless) calm

theorem Heeds.mono (h : Heeds i s a Q Cut) {R : Except ε α → State → Prop} {Left : ε → State → Prop}
    (ends : ∀ r t, exec b.host s a = (r, t) → Q r t → R r t) (cut : ∀ e t, Cut e t → Left e t) :
    Heeds i s a R Left where
  calm := ends _ _ rfl h.calm
  disturbed n := by
    obtain ⟨m, same | ⟨e, t, ran, left⟩⟩ := h.disturbed n
    · exact ⟨m, .inl same⟩
    · exact ⟨m, .inr ⟨e, t, ran, cut e t left⟩⟩

theorem Heeds.and {R : Except ε α → State → Prop} {Left : ε → State → Prop} (h : Heeds i s a Q Cut)
    (k : Heeds i s a R Left) :
    Heeds i s a (fun r t => Q r t ∧ R r t) fun e t => Cut e t ∧ Left e t where
  calm := ⟨h.calm, k.calm⟩
  disturbed n := by
    obtain ⟨m, same | ⟨e, t, ran, cut⟩⟩ := h.disturbed n
    · exact ⟨m, .inl same⟩
    · obtain ⟨l, same | ⟨e', t', ran', left⟩⟩ := k.disturbed n
      · exact ⟨l, .inl same⟩
      · obtain ⟨told, leaves⟩ := Prod.mk.inj (ran.symm.trans ran')
        obtain ⟨rfl, rfl⟩ := Prod.mk.inj leaves
        obtain rfl := Except.error.inj told
        exact ⟨_, .inr ⟨e, t, ran, cut, left⟩⟩

theorem Heeds.grown (h : Heeds i s a Q Cut) (grown : Grown s.tree.node?) :
    Heeds i s a (fun r t => Q r t ∧ Grown t.tree.node?) fun e t => Cut e t ∧ Grown t.tree.node? where
  calm := ⟨h.calm, exec_grown grown rfl⟩
  disturbed n := by
    obtain ⟨m, same | ⟨e, t, ran, cut⟩⟩ := h.disturbed n
    · exact ⟨m, .inl same⟩
    · have stays := interrupted_grown (i := i) a.run s n grown
      rw [show a.run.run (interrupting b i) (s, n) = (.error e, t, m) from ran] at stays
      exact ⟨m, .inr ⟨e, t, ran, cut, stays⟩⟩

theorem Heeds.bind {f : α → Action ε β} {R : Except ε β → State → Prop} {Left : ε → State → Prop}
    (first : Heeds i s a Q Cut) (cut : ∀ e t, Cut e t → Left e t)
    (failed : ∀ e t, Q (.error e) t → R (.error e) t)
    (second : ∀ value t, exec b.host s a = (.ok value, t) → Q (.ok value) t →
      Heeds i t (f value) R Left) : Heeds i s (a >>= f) R Left := by
  obtain ⟨calm, disturbed⟩ := first
  constructor
  · rw [exec_bind]
    generalize ran : exec b.host s a = ended at calm
    obtain ⟨result, t⟩ := ended
    cases result with
    | ok value => exact (second value t ran calm).calm
    | error e => exact failed e t calm
  · intro n
    obtain ⟨m, same | ⟨e, t, ran, left⟩⟩ := disturbed n
    · generalize ran : exec b.host s a = ended at same calm
      obtain ⟨result, t⟩ := ended
      cases result with
      | ok value =>
        obtain ⟨k, rest⟩ := (second value t ran calm).disturbed m
        refine ⟨k, ?_⟩
        rw [exec_bind_ok ran, exec_bind_ok same]
        exact rest
      | error e =>
        refine ⟨m, .inl ?_⟩
        rw [exec_bind_error ran, exec_bind_error same]
    · exact ⟨m, .inr ⟨e, t, exec_bind_error ran, cut e t left⟩⟩

/-- A step that no interrupt shows in. -/
theorem Heeds.step {f : α → Action ε β} {R : Except ε β → State → Prop} {Left : ε → State → Prop}
    (asks : Within Toolless a) (failed : ∀ e t, exec b.host s a = (.error e, t) → R (.error e) t)
    (rest : ∀ value t, exec b.host s a = (.ok value, t) → Heeds i t (f value) R Left) :
    Heeds i s (a >>= f) R Left := by
  have first : Heeds i s a (fun r t => exec b.host s a = (r, t)) fun _ _ => False :=
    .toolless asks rfl
  exact first.bind (fun _ _ cut => cut.elim) failed fun value t ran _ => rest value t ran

/-- A step that changes the files, or fails. -/
theorem Heeds.change {p : Program (Except Failure Unit)} {toError : Failure → ε}
    {result : Except Failure FileTree} (is : p.run b.host s = Bench.change s result)
    (asks : Asks Toolless p) {f : Unit → Action ε β} {R : Except ε β → State → Prop}
    {Left : ε → State → Prop} (failed : ∀ cause, result = .error cause → R (.error (toError cause)) s)
    (done : ∀ u, result = .ok u → Heeds i { s with tree := u } (f ()) R Left) :
    Heeds i s (Action.orFail p toError >>= f) R Left := by
  cases result with
  | error cause =>
    have ran : exec b.host s (Action.orFail p toError) = (.error (toError cause), s) := by
      rw [exec_orFail, is]
      rfl
    refine .step (.orFail asks) (fun e t thrown => ?_) fun _ _ never => ?_
    · rw [ran] at thrown
      obtain ⟨same, rfl⟩ := Prod.mk.inj thrown
      obtain rfl := Except.error.inj same
      exact failed cause rfl
    · cases congrArg Prod.fst (ran.symm.trans never)
  | ok u =>
    have ran : exec b.host s (Action.orFail p toError) = (.ok (), { s with tree := u }) := by
      rw [exec_orFail, is]
      rfl
    refine .step (.orFail asks) (fun _ _ never => ?_) fun _ t changed => ?_
    · cases congrArg Prod.fst (ran.symm.trans never)
    · rw [ran] at changed
      obtain ⟨_, rfl⟩ := Prod.mk.inj changed
      exact done u rfl

/-- An action that asks first whether it is interrupted. -/
theorem Heeds.watching {f : Bool → Action ε α} {e : ε}
    (stops : ∀ {σ : Type} (host : Host σ) (u : σ), exec host u (f true) = (.error e, u)) (cut : Cut e s)
    (rest : Heeds i s (f false) Q Cut) : Heeds i s (monadLift Program.isCancelled >>= f) Q Cut where
  calm := by
    rw [exec_bind, exec_monadLift, run_isCancelled]
    exact rest.calm
  disturbed n := by
    have undisturbed : exec b.host s (monadLift Program.isCancelled >>= f) = exec b.host s (f false) := rfl
    have asked : exec (interrupting b i) (s, n) (monadLift Program.isCancelled >>= f) =
        exec (interrupting b i) (s, n + 1) (f (i.seen n)) := rfl
    rw [undisturbed, asked]
    cases i.seen n with
    | true => exact ⟨n + 1, .inr ⟨e, s, stops _ _, cut⟩⟩
    | false => exact rest.disturbed (n + 1)

theorem Heeds.adapt {f : ε → φ} {R : Except φ α → State → Prop} {Left : φ → State → Prop}
    (h : Heeds i s a (fun r => R (r.mapError f)) fun e => Left (f e)) :
    Heeds i s (a.adapt f) R Left where
  calm := by
    rw [exec_adapt]
    exact h.calm
  disturbed n := by
    rw [exec_adapt, exec_adapt]
    obtain ⟨m, same | ⟨e, t, ran, left⟩⟩ := h.disturbed n
    · exact ⟨m, .inl (by rw [same])⟩
    · exact ⟨m, .inr ⟨f e, t, by rw [ran]; rfl, left⟩⟩

theorem Heeds.cleaningUp {cleanup : Except ε α → Program Unit} {R : Except ε α → State → Prop}
    {Left : ε → State → Prop} (h : Heeds i s a Q Cut) (asks : ∀ r, Asks Plain (cleanup r))
    (cleaned : ∀ r t, exec b.host s a = (r, t) → Q r t → R r ((cleanup r).run b.host t).2)
    (left : ∀ e t, Cut e t → Left e ((cleanup (.error e)).run b.host t).2) :
    Heeds i s (a.cleaningUp cleanup) R Left where
  calm := by
    rw [exec_cleaningUp]
    exact cleaned _ _ rfl h.calm
  disturbed n := by
    rw [exec_cleaningUp, exec_cleaningUp]
    obtain ⟨m, same | ⟨e, t, ran, cut⟩⟩ := h.disturbed n
    · rw [same]
      obtain ⟨k, after⟩ := run_plain (asks (exec b.host s a).1) (exec b.host s a).2 m
      exact ⟨k, .inl (by rw [after])⟩
    · rw [ran]
      obtain ⟨k, after⟩ := run_plain (asks (.error e)) t m
      exact ⟨k, .inr ⟨e, _, by rw [after], left e t cut⟩⟩

/-- An action whose result is looked at as a value. Of a run that ends early what is looked at is
the error, and nothing is asked then but what an interrupt does not show in. -/
theorem Heeds.attempt {a : Action φ α} {Q : Except φ α → State → Prop} {Cut : φ → State → Prop}
    {f : Except φ α → Action ε β} {R : Except ε β → State → Prop} {Left : ε → State → Prop}
    (first : Heeds i s a Q Cut)
    (cut : ∀ e t, Cut e t → ∃ error, f (.error e) = throw error ∧ Left error t)
    (second : ∀ r t, exec b.host s a = (r, t) → Q r t → Heeds i t (f r) R Left) :
    Heeds i s (ExceptT.lift a.run >>= f) R Left := by
  have lifted {σ : Type} (host : Host σ) (u : σ) : exec host u (ExceptT.lift a.run >>= f) =
      exec host (exec host u a).2 (f (exec host u a).1) := by
    rw [exec_bind, exec_lift]
    rfl
  constructor
  · rw [lifted]
    exact (second _ _ rfl first.calm).calm
  · intro n
    rw [lifted, lifted]
    obtain ⟨m, same | ⟨e, t, ran, left⟩⟩ := first.disturbed n
    · rw [same]
      exact (second _ _ rfl first.calm).disturbed m
    · obtain ⟨error, thrown, told⟩ := cut e t left
      rw [ran, thrown]
      exact ⟨m, .inr ⟨error, t, rfl, told⟩⟩

end Rules

/-! ## Running a tool -/

/-- How a tool that is killed, or not started because of an interrupt, leaves the files. -/
inductive Cut (b : Bench) (command : Command) (s : State) : State → Prop
  | unstarted : Cut b command s s
  | killed {tools : Toolbox} (unfinished : Unfinished b tools) :
    Cut b command s (after (refit b tools) s command)

/-- Waiting for a tool is undisturbed, or the tool is killed. -/
theorem await_disturbed (child : Child) (stop : Observation → Option Ending) (s : State) (n : Nat) :
    (Program.await child stop).run (interrupting b i) (s, n) =
        (((Program.await child stop).run b.host s).1, ((Program.await child stop).run b.host s).2,
          n + 1) ∨
      ∃ tools command, Unfinished b tools ∧ s.started[child.id]? = some command ∧
        (Program.await child stop).run (interrupting b i) (s, n) =
          (.ok .cancelled, { s with tree := ((refit b tools).carryOut command s.tree).1 }, n + 1) := by
  have asked : (Program.await child stop).run (interrupting b i) (s, n) =
      interrupting b i (.await child stop) (s, n) := rfl
  rw [asked]
  cases killed : i.killed n with
  | none =>
    left
    simp only [interrupting, killed]
    rfl
  | some tools =>
    cases known : s.started[child.id]? with
    | none =>
      left
      simp only [interrupting, killed, known]
      rfl
    | some command =>
      refine .inr ⟨tools, command, i.unfinished n tools killed, rfl, ?_⟩
      simp only [interrupting, killed, known]
      rfl

/-- What a run does once the wait for its tool is over. -/
def concluding (command : Command) (child : Child) :
    Except Failure Ending → Action RunError Outcome
  | .error cause => do
    let _ ← Program.collect child
    throw (.waiting command.program.display cause)
  | .ok (.exited status) => return Command.outcomeOf status (← Program.collect child)
  | .ok .cancelled => do
    Program.terminate child
    let _ ← Program.collect child
    throw (.interrupted command.program.display)
  | .ok .timedOut => do
    Program.warn s!"Process {child.id} timed out, killing"
    Program.terminate child
    let _ ← Program.collect child
    return .timedOut

theorem concluding_plain (command : Command) (child : Child) (ending : Except Failure Ending) :
    Within Plain (concluding command child ending) := by
  have collect : Asks Plain (Program.collect child) := asks_request trivial
  have terminate : Asks Plain (Program.terminate child) := asks_request trivial
  have warn (message : String) : Asks Plain (Program.warn message) := asks_request trivial
  unfold concluding
  split
  · exact .bind (.monadLift collect) fun _ => .throw _
  · exact .bind (.monadLift collect) fun _ => .pure _
  · exact .bind (.monadLift terminate) fun _ => .bind (.monadLift collect) fun _ => .throw _
  · exact .bind (.monadLift (warn _)) fun _ => .bind (.monadLift terminate) fun _ =>
      .bind (.monadLift collect) fun _ => .pure _

theorem run_eq (command : Command) (memory limit : Option Nat) : command.run memory limit = (do
    if ← Program.isCancelled then throw (.interrupted command.program.display)
    let child ← Action.orFail (Program.spawn command memory) (.spawn command.program.display)
    let ending ← Program.await child (Observation.ending? (limit.map (1000 * ·)))
    concluding command child ending) := rfl

/-- A run of a tool is undisturbed or ends with the tool killed, or not started at all. -/
theorem command_heeds (command : Command) (memory limit : Option Nat)
    {Q : Except RunError Outcome → State → Prop}
    (calm : Q (exec b.host s (command.run memory limit)).1
      (exec b.host s (command.run memory limit)).2) :
    Heeds i s (command.run memory limit) Q
      fun e t => e = .interrupted command.program.display ∧ Cut b command s t where
  calm := calm
  disturbed n := by
    rw [run_eq]
    have told : exec (interrupting b i) (s, n) (monadLift Program.isCancelled : Action RunError Bool) =
        (.ok (i.seen n), s, n + 1) := rfl
    rw [exec_bind_ok told, exec_bind, exec_monadLift, run_isCancelled]
    by_cases seen : i.seen n
    · rw [seen]
      exact ⟨n + 1, .inr ⟨_, s, rfl, rfl, .unstarted⟩⟩
    · simp only [seen, Bool.false_eq_true, if_false]
      have spawned : (Program.spawn command memory).run (interrupting b i) (s, n + 1) =
          (((Program.spawn command memory).run b.host s).1,
            ((Program.spawn command memory).run b.host s).2, n + 2) := rfl
      rw [exec_bind, exec_bind, exec_orFail, exec_orFail, spawned, run_spawn]
      by_cases starts : b.canStart command
      · rw [if_pos starts]
        simp only [mapError_ok]
        rw [exec_bind, exec_bind, exec_monadLift, exec_monadLift]
        rcases @await_disturbed b i ⟨s.started.length⟩ (Observation.ending? (limit.map (1000 * ·)))
          { s with started := s.started ++ [command] } (n + 2) with
          same | ⟨tools, known, unfinished, isKnown, killed⟩
        · rw [same]
          obtain ⟨m, concluded⟩ := run_plain (i := i) (concluding_plain command _ _) _ (n + 3)
          exact ⟨m, .inl concluded⟩
        · obtain rfl : command = known := by simpa using isKnown
          rw [killed]
          exact ⟨_, .inr ⟨_, _, rfl, rfl, .killed unfinished⟩⟩
      · rw [if_neg starts]
        exact ⟨n + 2, .inl rfl⟩

/-! ## What a whole run keeps -/

/-- Whether every run of an action keeps what holds of the files, be it interrupted or not, and
tells by its error when it ended early. -/
def Lasts (i : Interrupts b) (P : View → Prop) (stopped : ε → Bool) (a : Action ε α) : Prop :=
  ∀ s : State, P s.tree.node? →
    Heeds i s a (fun _ t => P t.tree.node?) fun e t => stopped e ∧ P t.tree.node?

section Lasting

variable {P : View → Prop} {stopped : ε → Bool} {a : Action ε α}

theorem Lasts.toolless (asks : Within Toolless a) (kept : Preserves b P a) : Lasts i P stopped a :=
  fun s holds => .toolless asks (kept s holds)

theorem Lasts.pure (value : α) : Lasts i P stopped (pure value : Action ε α) :=
  .toolless (.pure value) (.pure value)

theorem Lasts.throw (e : ε) : Lasts i P stopped (throw e : Action ε α) :=
  .toolless (.throw e) (.throw e)

theorem Lasts.bind {f : α → Action ε β} (first : Lasts i P stopped a)
    (second : ∀ value, Lasts i P stopped (f value)) : Lasts i P stopped (a >>= f) :=
  fun s holds => (first s holds).bind (fun _ _ left => left) (fun _ _ kept => kept)
    fun value t _ kept => second value t kept

theorem Lasts.adapt {f : ε → φ} {stopped : φ → Bool} (h : Lasts i P (fun e => stopped (f e)) a) :
    Lasts i P stopped (a.adapt f) := fun s holds => (h s holds).adapt

theorem Lasts.attempt {a : Action φ α} {told : φ → Bool} {f : Except φ α → Action ε β}
    (first : Lasts i P told a)
    (thrown : ∀ e, told e → ∃ error, f (.error e) = MonadExcept.throw error ∧ stopped error)
    (second : ∀ r, Lasts i P stopped (f r)) : Lasts i P stopped (ExceptT.lift a.run >>= f) := by
  refine fun s holds => (first s holds).attempt (fun e t left => ?_) fun r t _ kept => second r t kept
  obtain ⟨error, isThrown, tells⟩ := thrown e left.1
  exact ⟨error, isThrown, tells, left.2⟩

theorem Lasts.cleaningUp {cleanup : Except ε α → Program Unit} (h : Lasts i P stopped a)
    (asks : ∀ r, Asks Toolless (cleanup r))
    (kept : ∀ (r : Except ε α) (s : State), P s.tree.node? →
      P ((cleanup r).run b.host s).2.tree.node?) :
    Lasts i P stopped (a.cleaningUp cleanup) :=
  fun s holds => (h s holds).cleaningUp (fun r => (asks r).mono plain_of_toolless)
    (fun r t _ holds => kept r t holds) fun _ t left => ⟨left.1, kept _ t left.2⟩

theorem Lasts.command {command : Command} {memory limit : Option Nat}
    (carried : ∀ tools (t : FileTree), Unfinished b tools → P t.node? →
      P ((refit b tools).carryOut command t).1.node?) :
    Lasts i P RunError.isInterrupt (command.run memory limit) := by
  intro s holds
  have calm : Preserves b P (command.run memory limit) :=
    .command fun t there => carried b.tools t (fun _ none => none) there
  refine (command_heeds command memory limit (calm s holds)).mono (fun _ _ _ kept => kept) ?_
  rintro _ t ⟨rfl, cut⟩
  refine ⟨rfl, ?_⟩
  cases cut with
  | unstarted => exact holds
  | killed unfinished => exact carried _ _ unfinished holds

end Lasting

end BugHunt.Proofs.Interrupts
