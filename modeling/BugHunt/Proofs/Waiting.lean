import BugHunt.Machine.Host
import BugHunt.Proofs.Asking
import BugHunt.Proofs.Runs
import BugHunt.Proofs.VariantKeys
/-!
Waiting for a tool. The wait ends at the first poll that finds the tool ended, the run interrupted
or the time over, and of several of these the first in this order counts. A tool is made to end
only when that poll has found it at work.
-/

namespace BugHunt.Proofs.Waiting
open Asking Runs

/-! ## One poll -/

/-- Whether a poll lets the wait go on. -/
structure GoesOn (limit : Option Nat) (o : Observation) : Prop where
  running : o.ended = none
  untripped : o.cancelled = false
  inTime : ∀ time, limit = some time → o.elapsed ≤ time

/-- What a poll tells that ends the wait: first an exit, then an interrupt, then that time is over. -/
inductive Told (limit : Option Nat) (o : Observation) : Ending → Prop
  | exited {status : Status} (ended : o.ended = some status) : Told limit o (.exited status)
  | cancelled (running : o.ended = none) (tripped : o.cancelled = true) : Told limit o .cancelled
  | timedOut {time : Nat} (running : o.ended = none) (untripped : o.cancelled = false)
    (limited : limit = some time) (late : time < o.elapsed) : Told limit o .timedOut

variable {limit : Option Nat} {o : Observation} {ending : Ending}

theorem late_iff : limit.any (· < o.elapsed) ↔ ∃ time, limit = some time ∧ time < o.elapsed := by
  cases limit with
  | none => simp
  | some time => simp

theorem ending_iff : o.ending? limit = some ending ↔ Told limit o ending := by
  unfold Observation.ending?
  constructor
  · intro told
    cases ended : o.ended with
    | some status =>
      simp only [ended, Option.some.injEq] at told
      exact told ▸ .exited ended
    | none =>
      simp only [ended] at told
      split at told
      · rename_i tripped
        obtain rfl := Option.some.inj told
        exact .cancelled ended tripped
      · rename_i untripped
        split at told
        · rename_i past
          obtain ⟨time, limited, late⟩ := late_iff.mp past
          obtain rfl := Option.some.inj told
          exact .timedOut ended (by simpa using untripped) limited late
        · cases told
  · intro told
    cases told with
    | exited ended => simp [ended]
    | cancelled running tripped => simp [running, tripped]
    | timedOut running untripped limited late =>
      have past : limit.any (· < o.elapsed) := late_iff.mpr ⟨_, limited, late⟩
      simp [running, untripped, past]

theorem ending_eq_none_iff : o.ending? limit = none ↔ GoesOn limit o := by
  constructor
  · intro goes
    have untold (e : Ending) : ¬ Told limit o e := by
      intro told
      rw [ending_iff.mpr told] at goes
      cases goes
    have running : o.ended = none := by
      cases ended : o.ended with
      | none => rfl
      | some status => exact absurd (.exited ended) (untold _)
    have untripped : o.cancelled = false := by
      cases tripped : o.cancelled with
      | false => rfl
      | true => exact absurd (.cancelled running tripped) (untold _)
    refine ⟨running, untripped, ?_⟩
    intro time limited
    apply Nat.le_of_not_lt
    intro late
    exact untold _ (.timedOut running untripped limited late)
  · rintro ⟨running, untripped, inTime⟩
    have inTime : ¬ limit.any (· < o.elapsed) := by
      intro past
      obtain ⟨time, limited, late⟩ := late_iff.mp past
      have := inTime time limited
      omega
    simp [Observation.ending?, running, untripped, inTime]

/-! ## The loop -/

section Loop

variable {wait : Wait σ}

/-- A state after `n` pauses. -/
def later (pause : σ → σ) (s : σ) : Nat → σ
  | 0 => s
  | n + 1 => later pause (pause s) n

/-- Polling ends at the first poll that ends the wait, and only there. -/
theorem poll_of_first {s : σ} {n : Nat}
    (before : ∀ i < n, wait.stop (wait.look (later wait.pause s i)) = none)
    (ends : wait.stop (wait.look (later wait.pause s n)) = some ending) :
    wait.poll? s = some (ending, later wait.pause s n) := by
  induction n generalizing s with
  | zero =>
    have ends : wait.stop (wait.look s) = some ending := ends
    rw [Wait.poll?, ends]
    rfl
  | succ n ih =>
    have first : wait.stop (wait.look s) = none := before 0 (Nat.succ_pos n)
    rw [Wait.poll?, first]
    apply ih
    · intro i small
      exact before (i + 1) (Nat.succ_lt_succ small)
    · exact ends

theorem first_of_poll {s t : σ} (polled : wait.poll? s = some (ending, t)) :
    ∃ n, t = later wait.pause s n ∧
      (∀ i < n, wait.stop (wait.look (later wait.pause s i)) = none) ∧
      wait.stop (wait.look (later wait.pause s n)) = some ending := by
  refine Wait.poll?.partial_correctness wait (fun s result => ∃ n,
    result.2 = later wait.pause s n ∧
      (∀ i < n, wait.stop (wait.look (later wait.pause s i)) = none) ∧
      wait.stop (wait.look (later wait.pause s n)) = some result.1) ?_ s (ending, t) polled
  intro again ih s result polled
  cases first : wait.stop (wait.look s) with
  | some e =>
    simp only [first, Option.some.injEq] at polled
    subst polled
    exact ⟨0, rfl, fun i small => absurd small (Nat.not_lt_zero i), first⟩
  | none =>
    simp only [first] at polled
    obtain ⟨n, reached, before, ends⟩ := ih _ _ polled
    refine ⟨n + 1, reached, ?_, ends⟩
    intro i small
    cases i with
    | zero => exact first
    | succ i => exact before i (Nat.lt_of_succ_lt_succ small)

theorem later_succ (start n : Nat) : later (· + 1) start n = start + n := by
  induction n generalizing start with
  | zero => rfl
  | succ n ih =>
    have rest := ih (start + 1)
    rw [later, rest]
    omega

/-- A wait that makes given polls one after the other. -/
def inTurn (polls : Nat → Observation) (stop : Observation → Option Ending) : Wait Nat :=
  ⟨polls, (· + 1), stop⟩

variable {stop : Observation → Option Ending}

/-- Polls made one after the other end a wait at the first one that ends it. -/
theorem poll_inTurn_iff {polls : Nat → Observation} {n : Nat} :
    (inTurn polls stop).poll? 0 = some (ending, n) ↔
      (∀ i < n, stop (polls i) = none) ∧ stop (polls n) = some ending := by
  have at_index (i : Nat) : later (inTurn polls stop).pause 0 i = i := by
    change later (· + 1) 0 i = i
    rw [later_succ, Nat.zero_add]
  constructor
  · intro polled
    obtain ⟨k, rfl, before, ends⟩ := first_of_poll polled
    simp only [at_index] at before ends ⊢
    exact ⟨before, ends⟩
  · rintro ⟨before, ends⟩
    have first := @poll_of_first _ ending (inTurn polls stop) 0 n
    simp only [at_index] at first
    exact first before ends

/-- A poll that ends the wait is made, unless an earlier one has ended it. -/
theorem poll_ends_by {polls : Nat → Observation} {n : Nat} (ends : stop (polls n) ≠ none) :
    ∃ k ≤ n, ∃ ending, (inTurn polls stop).poll? 0 = some (ending, k) := by
  induction n using Nat.strongRecOn with
  | ind n ih =>
    by_cases sooner : ∃ i, i < n ∧ stop (polls i) ≠ none
    · obtain ⟨i, small, sooner⟩ := sooner
      obtain ⟨k, first, polled⟩ := ih i small sooner
      exact ⟨k, by omega, polled⟩
    · obtain ⟨ending, told⟩ := Option.ne_none_iff_exists'.mp ends
      refine ⟨n, Nat.le_refl n, ending, poll_inTurn_iff.mpr ⟨?_, told⟩⟩
      intro i small
      exact Classical.byContradiction fun ended => sooner ⟨i, small, ended⟩

end Loop

/-! ## The machine -/

section Machine
open Machine

/-- What the machine sees of a child at each poll of a wait that begins now. -/
def sights (m : Machine) (child : Child) (n : Nat) : Observation :=
  (later pause ((m.spend 20).spend 10) n).look child (m.spend 20).clock

/-- The machine waits by polling, however long it takes. -/
theorem machine_await (m : Machine) (child : Child) (stop : Observation → Option Ending) (n : Nat)
    (polled : (inTurn (sights m child) stop).poll? 0 = some (ending, n)) :
    ((Program.await child stop).run Machine.host m).1 = .ok ending := by
  obtain ⟨before, ends⟩ := poll_inTurn_iff.mp polled
  have looked : (waitFor child stop (m.spend 20).clock).poll? ((m.spend 20).spend 10) =
      some (ending, later pause ((m.spend 20).spend 10) n) := poll_of_first before ends
  change (Machine.host (.await child stop) m).1 = _
  simp only [Machine.host, looked]
  rfl

end Machine

/-! ## The run of a tool -/

/-- How the run of a tool ends whose wait has ended. -/
inductive Reported (program : String) : Ending → Except RunError Outcome → Prop
  | exited (status : Status) (streams : Bytes × Bytes) :
    Reported program (.exited status) (.ok (Command.outcomeOf status streams))
  | cancelled : Reported program .cancelled (.error (.interrupted program))
  | timedOut : Reported program .timedOut (.ok .timedOut)

/-- Whether a run makes a tool end. -/
def Kills (host : Host σ) (s : σ) (child : Child) (p : Program α) : Prop :=
  Request.terminate child ∈ p.trace host s

/-- What the run of a tool asks when the tool has been started. -/
def attend (program : String) (child : Child) :
    Except Failure Ending → Program (Except RunError Outcome)
  | .error cause => .ask (.collect child) fun _ => .done (.error (.waiting program cause))
  | .ok (.exited status) =>
    .ask (.collect child) fun streams => .done (.ok (Command.outcomeOf status streams))
  | .ok .cancelled => .ask (.terminate child) fun _ => .ask (.collect child) fun _ =>
    .done (.error (.interrupted program))
  | .ok .timedOut =>
    .ask (.log ⟨.warn, s!"Process {child.id} timed out, killing"⟩) fun _ =>
      .ask (.terminate child) fun _ => .ask (.collect child) fun _ => .done (.ok .timedOut)

theorem run_eq (command : Command) (memory limit : Option Nat) :
    (command.run memory limit).run =
      .ask .isCancelled fun (cancelled : Bool) =>
        if cancelled then .done (.error (.interrupted command.program.display))
        else .ask (.spawn command memory) fun
          | .error cause => .done (.error (.spawn command.program.display cause))
          | .ok child => .ask (.await child (Observation.ending? (limit.map (1000 * ·))))
              (attend command.program.display child) := by
  unfold Command.run
  refine congrArg (Program.ask .isCancelled) (funext fun cancelled => ?_)
  cases cancelled with
  | true => rfl
  | false =>
    refine congrArg (Program.ask (.spawn command memory)) (funext fun spawned => ?_)
    cases spawned with
    | error cause => rfl
    | ok child =>
      refine congrArg (Program.ask (.await child _)) (funext fun waited => ?_)
      cases waited with
      | error cause => rfl
      | ok ending => cases ending <;> rfl

variable {host : Host σ} {s t u : σ} {command : Command} {memory : Option Nat} {child : Child}

theorem attend_reported {program : String} :
    Reported program ending ((attend program child (.ok ending)).run host s).1 := by
  cases ending with
  | exited status => exact .exited status _
  | cancelled => exact .cancelled
  | timedOut => exact .timedOut

theorem attend_kills_iff {program : String} :
    Kills host s child (attend program child (.ok ending)) ↔
      ending = .cancelled ∨ ending = .timedOut := by
  cases ending <;> simp [Kills, attend, Program.trace]

/-- A tool is made to end exactly when the run says that it took too long or was interrupted. -/
theorem ending_of_reported {program : String} {result : Except RunError Outcome}
    (reported : Reported program ending result) :
    ending = .cancelled ∨ ending = .timedOut ↔
      result = .ok .timedOut ∨ result = .error (.interrupted program) := by
  cases reported with
  | exited status streams =>
    have other : Command.outcomeOf status streams ≠ .timedOut := by
      unfold Command.outcomeOf
      split <;> simp
    simp [other]
  | cancelled => simp
  | timedOut => simp

theorem running_of_told (told : Told limit o ending) (killed : ending = .cancelled ∨ ending = .timedOut) :
    o.ended = none := by
  cases told with
  | exited ended => simp at killed
  | cancelled running tripped => exact running
  | timedOut running untripped limited late => exact running

/-- A run in which the tool starts and the wait for it ends goes on as the ending says. -/
theorem attended (fresh : Program.isCancelled.run host s = (false, t))
    (spawned : (Program.spawn command memory).run host t = (.ok child, u))
    (waited : ((Program.await child (Observation.ending? (limit.map (1000 * ·)))).run host u).1 =
      .ok ending) :
    ∃ v, (exec host s (command.run memory limit)).1 =
        ((attend command.program.display child (.ok ending)).run host v).1 ∧
      (Kills host s child (command.run memory limit).run ↔
        Kills host v child (attend command.program.display child (.ok ending))) := by
  let stop := Observation.ending? (limit.map (1000 * ·))
  have fresh : host .isCancelled s = (false, t) := fresh
  have spawned : host (.spawn command memory) t = (Except.ok child, u) := spawned
  have waited : (host (.await child stop) u).1 = Except.ok ending := waited
  refine ⟨(host (.await child stop) u).2, ?_, ?_⟩
  · rw [exec, run_eq, ← waited]
    simp only [Program.run, fresh, spawned, Bool.false_eq_true, if_false]
    rfl
  · rw [Kills, run_eq, Kills, ← waited]
    simp only [Program.trace, fresh, spawned, Bool.false_eq_true, if_false, List.mem_cons,
      reduceCtorEq, false_or]
    rfl

/-- A tool that has been started is waited for until the first poll that finds it ended, the run
interrupted or its time over, and what that poll tells, an exit before an interrupt and an
interrupt before a timeout, is how the run ends. The tool is made to end when the run is
interrupted or out of time, only then, and never when that poll has found it ended. The host is one
that waits by polling, as the machine does by `machine_await`. -/
theorem tool_waited_for (limit : Option Nat) (polls : Nat → Observation)
    (fresh : Program.isCancelled.run host s = (false, t))
    (spawned : (Program.spawn command memory).run host t = (.ok child, u))
    (waits : ∀ stop ending n, (inTurn polls stop).poll? 0 = some (ending, n) →
      ((Program.await child stop).run host u).1 = .ok ending) :
    let time := limit.map (1000 * ·)
    let wait := (inTurn polls (Observation.ending? time)).poll? 0
    let program := command.program.display
    let result := (exec host s (command.run memory limit)).1
    (∀ n ending, wait = some (ending, n) ↔
      (∀ i < n, GoesOn time (polls i)) ∧ Told time (polls n) ending) ∧
    (∀ n, ¬ GoesOn time (polls n) → ∃ k ≤ n, ∃ ending, wait = some (ending, k)) ∧
    (∀ allowed n, time = some allowed → allowed < (polls n).elapsed →
      ∃ k ≤ n, ∃ ending, wait = some (ending, k)) ∧
    ∀ n ending, wait = some (ending, n) →
      Reported program ending result ∧
      (Kills host s child (command.run memory limit).run ↔
        result = .ok .timedOut ∨ result = .error (.interrupted program)) ∧
      (result = .ok .timedOut ∨ result = .error (.interrupted program) →
        (polls n).ended = none) := by
  intro time wait program result
  have first (n : Nat) (ending : Ending) : wait = some (ending, n) ↔
      (∀ i < n, GoesOn time (polls i)) ∧ Told time (polls n) ending := by
    simp only [← ending_iff, ← ending_eq_none_iff]
    exact poll_inTurn_iff
  have ends (n : Nat) (stops : ¬ GoesOn time (polls n)) :
      ∃ k ≤ n, ∃ ending, wait = some (ending, k) :=
    poll_ends_by fun none => stops (ending_eq_none_iff.mp none)
  refine ⟨first, ends, ?_, ?_⟩
  · intro allowed n limited late
    apply ends
    intro goes
    have := goes.inTime allowed limited
    omega
  · intro n ending polled
    have waited := waits _ _ _ polled
    obtain ⟨v, ran, kills⟩ := attended fresh spawned waited
    have reported : Reported program ending result := by
      change Reported program ending (exec host s (command.run memory limit)).1
      rw [ran]
      exact attend_reported
    rw [kills, attend_kills_iff, ← ending_of_reported reported]
    exact ⟨reported, Iff.rfl, running_of_told ((first n ending).mp polled).2⟩

/-- A host on which every tool starts, and shows a given sequence of polls to those who wait. -/
def paced (polls : Nat → Observation) : Host Unit
  | .spawn .., s => (Except.ok ⟨1⟩, s)
  | .await _ stop, s =>
    match (inTurn polls stop).poll? 0 with
    | some (ending, _) => (Except.ok ending, s)
    | none => (Except.error (.system .noChild), s)
  | r, s => VariantKeys.still [] r s

/-- A tool that is at work at the first poll and has ended by the second one, when the run has been
interrupted and the time of fifty milliseconds is over. -/
def lastMoment : Nat → Observation
  | 0 => ⟨none, false, 30⟩
  | _ + 1 => ⟨some (.exited 0), true, 50110⟩

/-- An exit counts before an interrupt and a timeout that the same poll finds. -/
theorem exit_at_last_moment :
    let command : Command := .ofProgram "tool"
    let result := (exec (paced lastMoment) () (command.run none (some 50))).1
    Program.isCancelled.run (paced lastMoment) () = (false, ()) ∧
      (Program.spawn command none).run (paced lastMoment) () = (.ok ⟨1⟩, ()) ∧
      Told (some 50000) (lastMoment 1) (.exited (.exited 0)) ∧
      Reported command.program.display (.exited (.exited 0)) result ∧
      ¬ Kills (paced lastMoment) () ⟨1⟩ (command.run none (some 50)).run := by
  intro command result
  have fresh : Program.isCancelled.run (paced lastMoment) () = (false, ()) := rfl
  have spawned : (Program.spawn command none).run (paced lastMoment) () = (.ok ⟨1⟩, ()) := rfl
  have waits (stop : Observation → Option Ending) (ending : Ending) (n : Nat)
      (polled : (inTurn lastMoment stop).poll? 0 = some (ending, n)) :
      ((Program.await ⟨1⟩ stop).run (paced lastMoment) ()).1 = .ok ending := by
    change (paced lastMoment (.await ⟨1⟩ stop) ()).1 = _
    simp only [paced, polled]
    rfl
  obtain ⟨first, -, -, reports⟩ :=
    tool_waited_for (some 50) lastMoment fresh spawned waits
  have goes : GoesOn (some 50000) (lastMoment 0) := ⟨rfl, rfl, by simp [lastMoment]⟩
  have told : Told (some 50000) (lastMoment 1) (.exited (.exited 0)) := .exited rfl
  obtain ⟨reported, kills, -⟩ := reports 1 _ ((first 1 _).mpr ⟨by simpa using goes, told⟩)
  refine ⟨fresh, spawned, told, reported, ?_⟩
  intro killed
  rw [kills, ← ending_of_reported reported] at killed
  simp at killed

end BugHunt.Proofs.Waiting
