import BugHunt.Proofs.FailedReduction
import BugHunt.Proofs.RecursiveCall
import BugHunt.Proofs.Toolless
/-!
Minimizers that misbehave. However a minimizer ends by itself, a check goes on to the remaining flag
sets and counts the ending if it is not a success; but for IR whose reduced form cannot be assembled.
Nothing is assumed of the host.
-/

namespace BugHunt.Proofs.MinimizerEndings
open Runs Bench Outcomes Reducing Asking RecursiveCall Toolless Stages

/-! ## Taking notes -/

def isMinimizer (command : Command) : Bool :=
  match Call.ofArguments? command.arguments with
  | some (.minimizeIr ..) | some (.minimizeSource ..) => true
  | _ => false

/-- How the minimizers ended that came to their end, and whether the tool that was started last is
a minimizer. -/
structure Notes where
  minimizing : Bool
  endings : List Ending

/-- The notes while no minimizer is running. -/
def quiet (endings : List Ending) : Notes := ⟨false, endings⟩

/-- What an answer adds to the notes. A minimizer that was interrupted, or that could not be waited
for, has not come to its end. -/
def note (n : Notes) : (r : Request) → r.Answer → Notes
  | .spawn command _, answer =>
    match answer with
    | Except.ok _ => { n with minimizing := isMinimizer command }
    | Except.error _ => n
  | .await _ _, answer =>
    match answer with
    | Except.error _ | Except.ok Ending.cancelled => quiet n.endings
    | Except.ok ending => quiet (if n.minimizing then n.endings ++ [ending] else n.endings)
  | _, _ => n

/-- A host that takes notes. -/
def noting (host : Host σ) : Host (σ × Notes) := fun r u =>
  ((host r u.1).1, (host r u.1).2, note u.2 r (host r u.1).1)

variable {host : Host σ}

/-- The notes are not looked at. -/
theorem run_noting (p : Program α) (u : σ × Notes) :
    p.run host u.1 = ((p.run (noting host) u).1, (p.run (noting host) u).2.1) := by
  induction p generalizing u with
  | done value => rfl
  | ask request next ih => exact ih _ (noting host request u).2

theorem exec_noting (a : Action ε α) (u : σ × Notes) :
    exec host u.1 a = ((exec (noting host) u a).1, (exec (noting host) u a).2.1) :=
  run_noting a.run u

/-- Whether the notes are those of some endings, and no minimizer is running. -/
def Noted (endings : List Ending) (u : σ × Notes) : Prop := u.2 = quiet endings

theorem Noted.endings {endings : List Ending} {u : σ × Notes} (noted : Noted endings u) :
    u.2.endings = endings := congrArg Notes.endings noted

/-! ## Tools that are no minimizers -/

/-- Whether a request starts no minimizer. -/
abbrev Harmless : Request → Prop := Starts fun command => isMinimizer command = false

theorem note_quiet {endings : List Ending} {r : Request} (harmless : Harmless r) (answer : r.Answer) :
    note (quiet endings) r answer = quiet endings := by
  cases r with
  | spawn command memory =>
    rcases answer with cause | child
    · rfl
    · show { quiet endings with minimizing := isMinimizer command } = quiet endings
      rw [show isMinimizer command = false from harmless]
      rfl
  | await child stop =>
    rcases answer with cause | ending
    · rfl
    · cases ending <;> rfl
  | _ => rfl

/-- What starts no minimizer leaves the notes as they are. -/
theorem asks_noted {p : Program α} (asks : Asks Harmless p) {endings : List Ending} {u : σ × Notes}
    (noted : Noted endings u) : Noted endings (p.run (noting host) u).2 :=
  Asks.run (fun r v harmless (quiet : v.2 = _) => by
    show note v.2 r (host r v.1).1 = _
    rw [quiet]
    exact note_quiet harmless _) asks noted

theorem within_noted {a : Action ε α} (asks : Within Harmless a) (endings : List Ending) :
    Keeps (noting host) (Noted endings) a :=
  fun _ noted => asks_noted asks noted

/-- A program that starts no minimizer comes to its value, and the notes stay as they are. -/
theorem lift_bind {p : Program α} (asks : Asks Harmless p) {f : α → Action ε β}
    {endings : List Ending} {R : Except ε β → σ × Notes → Prop}
    (rest : ∀ value, Ends (noting host) (Noted endings) (f value) R) :
    Ends (noting host) (Noted endings) (ExceptT.lift p >>= f) R := by
  intro u noted
  rw [exec_bind, exec_lift]
  exact rest _ _ (asks_noted asks noted)

theorem request_bind {r : Request} (harmless : Harmless r) {f : r.Answer → Action ε β}
    {endings : List Ending} {R : Except ε β → σ × Notes → Prop}
    (rest : ∀ answer, Ends (noting host) (Noted endings) (f answer) R) :
    Ends (noting host) (Noted endings) (monadLift (Program.request r) >>= f) R :=
  lift_bind (asks_request harmless) rest

section Stages

variable (c : Config)

theorem permits_harmless : Permits Harmless fun command => isMinimizer command = false :=
  permits_starts _

theorem isMinimizer_convert (tool input output : Path) :
    isMinimizer (Command.ofProgram tool |>.path input |>.text "-o" |>.path output) = false := by
  rw [isMinimizer, convert_call]

theorem assemble_harmless (path directory : Path) :
    Within Harmless (Compile.assemble c path directory) :=
  within_assemble permits_harmless c path directory fun _ _ => isMinimizer_convert ..

theorem disassemble_harmless (path : Path) : Within Harmless (Compile.disassemble c path) :=
  within_disassemble permits_harmless c path fun _ _ => isMinimizer_convert ..

theorem build_harmless (directory : Path) (a : Artifact) (p : Plan) :
    Within Harmless (Compile.build c directory a p) :=
  within_build permits_harmless c directory a p fun _ => by rw [isMinimizer, compile_call]

theorem classify_harmless (ir : Path) : Within Harmless (Oracle.classify c ir) :=
  within_classify permits_harmless c ir (fun _ _ => isMinimizer_convert ..)
    (fun _ _ => by rw [isMinimizer, facts_call])
    fun _ => by rw [isMinimizer, (analysis_call c _).1]

end Stages

/-! ## Running a minimizer -/

/-- The ending of a minimizer that did its work. -/
def success : Ending := .exited (.exited 0)

/-- How often a minimizer ended in another way. -/
def failures (endings : List Ending) : Nat := endings.countP (· ≠ success)

theorem failures_append (endings more : List Ending) :
    failures (endings ++ more) = failures endings + failures more := List.countP_append

/-- What is noted of the run of a minimizer: how it ended, unless it came to no end. -/
def Ran (endings : List Ending) (result : Except RunError Outcome) (u : σ × Notes) : Prop :=
  match result with
  | .ok (.completed _) => Noted (endings ++ [success]) u
  | .ok _ => ∃ ending, ending ≠ success ∧ Noted (endings ++ [ending]) u
  | .error _ => Noted endings u

theorem outcome_ran {endings : List Ending} {status : Status} (streams : Bytes × Bytes) {u : σ × Notes}
    (noted : Noted (endings ++ [.exited status]) u) :
    Ran endings (.ok (Command.outcomeOf status streams)) u := by
  unfold Command.outcomeOf
  split
  · rename_i succeeded
    obtain rfl : status = .exited 0 := by simpa [Status.isSuccess] using succeeded
    exact noted
  · rename_i failed
    refine ⟨.exited status, fun same => failed ?_, noted⟩
    rw [Ending.exited.inj same]
    rfl

/-- A minimizer that is started and comes to its end is noted. -/
theorem command_ran {command : Command} (minimizer : isMinimizer command) (memory limit : Option Nat)
    (endings : List Ending) :
    Ends (noting host) (Noted endings) (command.run memory limit) (Ran endings) := by
  have started : Ends (noting host) (Noted endings)
      (Action.orFail (Program.spawn command memory) (RunError.spawn command.program.display))
      fun result u => match result with
        | .ok _ => u.2 = ⟨true, endings⟩
        | .error _ => Noted endings u := by
    refine .orFail fun u (noted : u.2 = _) => ?_
    have asked : (Program.spawn command memory).run (noting host) u =
        ((host (.spawn command memory) u.1).1, (host (.spawn command memory) u.1).2,
          note (quiet endings) (.spawn command memory) (host (.spawn command memory) u.1).1) := by
      rw [← noted]
      rfl
    rw [asked]
    generalize host (.spawn command memory) u.1 = answer
    obtain ⟨cause | child, t⟩ := answer
    · rfl
    · show ({ quiet endings with minimizing := isMinimizer command } : Notes) = _
      rw [minimizer]
      rfl
  have awaited (child : Child) (stop : Observation → Option Ending) :
      Ends (noting host) (fun u : σ × Notes => u.2 = ⟨true, endings⟩)
        (monadLift (Program.await child stop) : Action RunError (Except Failure Ending))
        fun result u => match result with
          | .ok (.ok .cancelled) | .ok (.error _) => Noted endings u
          | .ok (.ok ending) => Noted (endings ++ [ending]) u
          | .error _ => False := by
    refine .lift fun u noted => ?_
    have asked : (Program.await child stop).run (noting host) u =
        ((host (.await child stop) u.1).1, (host (.await child stop) u.1).2,
          note ⟨true, endings⟩ (.await child stop) (host (.await child stop) u.1).1) := by
      rw [← noted]
      rfl
    rw [asked]
    generalize host (.await child stop) u.1 = answer
    obtain ⟨cause | ending, t⟩ := answer
    · rfl
    · cases ending <;> rfl
  unfold Command.run
  refine request_bind (r := .isCancelled) trivial fun cancelled => ?_
  dsimp only
  split
  · exact .throw_bind fun _ noted => noted
  · refine .bind started (fun child => .bind (awaited child _) (fun ending => ?_) fun _ _ => False.elim)
      fun _ _ noted => noted
    rcases ending with cause | ⟨status⟩ | - | -
    · exact request_bind (r := .collect child) trivial fun _ => Keeps.throw _
    · exact request_bind (r := .collect child) trivial fun streams _ noted => outcome_ran streams noted
    · exact request_bind (r := .terminate child) trivial fun _ =>
        request_bind (r := .collect child) trivial fun _ => Keeps.throw _
    · exact request_bind (r := .log _) trivial fun _ => request_bind (r := .terminate child) trivial
        fun _ => request_bind (r := .collect child) trivial fun _ _ noted =>
          ⟨.timedOut, by decide, noted⟩

/-- What is noted of a minimizer in a reduction. -/
def Minimized (endings : List Ending) (result : Except ReduceError α) (u : σ × Notes) : Prop :=
  match result with
  | .ok _ => Noted (endings ++ [success]) u
  | .error (.minimizerFailed ..) => ∃ ending, ending ≠ success ∧ Noted (endings ++ [ending]) u
  | .error _ => Noted endings u

theorem minimize_minimized (c : Config) {command : Command} (minimizer : isMinimizer command)
    (input : Path) (endings : List Ending) :
    Ends (noting host) (Noted endings) (Reduce.minimize c command input) (Minimized endings) := by
  have ran : Ends (noting host) (Noted endings)
      ((command.run c.memoryLimit none).adapt ReduceError.run) fun result u => match result with
        | .ok outcome => Ran endings (.ok outcome) u
        | .error e => (∃ cause, e = .run cause) ∧ Noted endings u := by
    refine .adapt ((command_ran minimizer _ _ endings).mono fun result u ran => ?_)
    cases result with
    | ok outcome => exact ran
    | error cause => exact ⟨⟨cause, rfl⟩, ran⟩
  unfold Reduce.minimize
  refine .bind ran (fun outcome => ?_) ?_
  · cases outcome with
    | completed _ => exact Keeps.pure _
    | failed _ => exact fun _ noted => noted
    | timedOut => exact fun _ noted => noted
  · rintro _ u ⟨⟨cause, rfl⟩, noted⟩
    exact noted

/-! ## Reducing -/

section Reductions

variable (c : Config)

/-- Whether an error tells that the reduced form of IR could not be assembled. -/
def Unusable (host : Host σ) (c : Config) (ir : Path) (e : ReduceError) (u : σ × Notes) : Prop :=
  let root := Path.absolute c.startDirectory c.outputRoot
  ∃ before error, e = .compile error ∧
    exec (noting host) before (Compile.assemble c (root / Path.ofString (Reduce.irName ir)) root) =
      (.error error, u)

/-- What is noted of the reduction of an artifact: an ending that is no success gives the error of a
failed minimizer; another error comes before a minimizer has ended, or it tells that the reduced form
of IR could not be assembled. -/
def Reduced (host : Host σ) (c : Config) (a : Artifact) (ir : Path) (endings : List Ending)
    (result : Except ReduceError α) (u : σ × Notes) : Prop :=
  match result with
  | .ok _ => ∃ more, failures more = 0 ∧ Noted (endings ++ more) u
  | .error (.minimizerFailed ..) => ∃ ending, ending ≠ success ∧ Noted (endings ++ [ending]) u
  | .error e => Noted endings u ∨
      a.isSource = false ∧ Noted (endings ++ [success]) u ∧ Unusable host c ir e u

variable {a : Artifact} {ir : Path} {endings : List Ending}

theorem Reduced.skipped {value : α} {u : σ × Notes} (noted : Noted endings u) :
    Reduced host c a ir endings (.ok value) u :=
  ⟨[], rfl, by rwa [List.append_nil]⟩

theorem Reduced.done {value : α} {u : σ × Notes} (noted : Noted (endings ++ [success]) u) :
    Reduced host c a ir endings (.ok value) u := ⟨[success], by decide, noted⟩

theorem Reduced.of_minimized {e : ReduceError} {u : σ × Notes}
    (minimized : Minimized endings (.error e : Except ReduceError α) u) :
    Reduced host c a ir endings (.error e : Except ReduceError β) u := by
  cases e with
  | minimizerFailed _ _ _ => exact minimized
  | _ => exact .inl minimized

theorem reduceIr_reduced (isIr : a.isSource = false) :
    Ends (noting host) (Noted endings) (Reduce.reduceIr c ir) (Reduced host c a ir endings) := by
  have minimizer : isMinimizer (irCommand c ir) := by
    rw [isMinimizer, irCommand, minimizeIr_call]
  unfold Reduce.reduceIr
  refine request_bind (r := .file (.exists _)) trivial fun found => ?_
  dsimp only
  split
  · exact request_bind (r := .log _) trivial fun _ _ noted => .skipped c noted
  · refine request_bind (r := .log _) trivial fun _ => .bind
      (minimize_minimized c minimizer ir endings) (fun _ => ?_) fun _ _ => .of_minimized c
    let root := Path.absolute c.startDirectory c.outputRoot
    have assembled : Ends (noting host) (Noted (endings ++ [success]))
        ((Compile.assemble c (root / Path.ofString (Reduce.irName ir)) root).adapt ReduceError.compile)
        fun result u => Noted (endings ++ [success]) u ∧
          ∀ e, result = .error e → Unusable host c ir e u := by
      refine .adapt fun u noted =>
        ⟨within_noted (assemble_harmless c _ _) _ u noted, fun e failed => ?_⟩
      cases ran : exec (noting host) u
          (Compile.assemble c (root / Path.ofString (Reduce.irName ir)) root) with
      | mk result v =>
        rw [ran] at failed
        cases result with
        | ok _ => cases failed
        | error error => exact ⟨u, error, (Except.error.inj failed).symm, ran⟩
    refine .bind assembled (fun _ _ noted => .done c noted.1) fun e u noted => ?_
    obtain ⟨before, error, rfl, ran⟩ := noted.2 e rfl
    exact .inr ⟨isIr, noted.1, before, error, rfl, ran⟩

theorem files_bind {p : Program (Except Failure α)} (asks : Asks Harmless p) {path : Path}
    {f : α → Reducing β} {R : Except ReduceError β → σ × Notes → Prop}
    (rest : ∀ value, Ends (noting host) (Noted endings) (f value) R)
    (failed : ∀ cause u, Noted endings u → R (.error (.files path cause)) u) :
    Ends (noting host) (Noted endings) (Action.orFail p (.files path) >>= f) R := by
  intro u noted
  have later : Noted endings (p.run (noting host) u).2 := asks_noted asks noted
  rw [exec_bind, exec_orFail]
  generalize p.run (noting host) u = answer at later ⊢
  obtain ⟨cause | value, v⟩ := answer
  · exact failed cause v later
  · exact rest value v later

/-- What is noted stays so while it is cleaned up. -/
theorem Minimized.later {p : Program Unit} (asks : Asks Harmless p) {result : Except ReduceError β}
    {u : σ × Notes} (minimized : Minimized endings result u) :
    Minimized endings result (p.run (noting host) u).2 := by
  cases result with
  | ok value => exact asks_noted asks minimized
  | error e =>
    cases e with
    | minimizerFailed tool input detail =>
      obtain ⟨ending, failed, noted⟩ := minimized
      exact ⟨ending, failed, asks_noted asks noted⟩
    | _ => exact asks_noted asks minimized

theorem asks_removed (copy : Path) (result : Except ReduceError Unit) : Asks Harmless (match result with
    | .ok () => pure ()
    | .error _ => do let _ ← Program.remove copy : Program Unit) := by
  cases result with
  | ok _ => trivial
  | error _ => exact .bind (p := Program.remove copy) (asks_request trivial) fun _ => trivial

theorem reduceSource_reduced :
    Ends (noting host) (Noted endings) (Reduce.reduceSource c a) (Reduced host c a ir endings) := by
  have minimizer (test : Path) : isMinimizer (sourceCommand c a test) := by
    rw [isMinimizer, sourceCommand, minimizeSource_call]
  have inCopy (root copy directory : Path) (isRoot : root = Path.absolute c.startDirectory c.outputRoot) :
      Ends (noting host) (Noted endings) (Reduce.reduceCopy c a root copy directory)
        (Minimized endings) := by
    subst isRoot
    unfold Reduce.reduceCopy
    refine files_bind (p := Program.write _ _) (asks_request trivial) (fun _ =>
      files_bind (p := Program.makeExecutable _) (asks_request trivial) (fun _ =>
        request_bind (r := .log _) trivial fun _ => .cleaningUp
          (minimize_minimized c (minimizer _) a.path endings) fun result _ minimized =>
            minimized.later (asks_removed copy result)) ?_) ?_
    · exact fun _ _ noted => noted
    · exact fun _ _ noted => noted
  unfold Reduce.reduceSource
  refine request_bind (r := .file (.exists _)) trivial fun found => ?_
  split
  · exact request_bind (r := .log _) trivial fun _ _ noted => .skipped c noted
  · refine files_bind (p := Program.copy _ _) (asks_request trivial) (fun _ =>
      files_bind (p := Program.temporaryDirectory _ _) (asks_request trivial) (fun directory =>
        .bind (.cleaningUp (inCopy _ _ directory rfl) fun result _ minimized => minimized.later ?_)
          (fun _ _ noted => .done c noted) fun _ _ => .of_minimized c) ?_) ?_
    · exact .bind (p := Program.removeTree directory) (asks_request trivial) fun _ => trivial
    · exact fun _ _ noted => .inl noted
    · exact fun _ _ noted => .inl noted

/-- Keeping a variant starts no minimizer and does not fail like one. -/
theorem preserve_reduced (v : Variant) :
    Ends (noting host) (Noted endings) (Reduce.preserve c v) fun result u => match result with
      | .ok _ => Noted endings u
      | .error e => Reduced host c a ir endings (.error e : Except ReduceError Path) u := by
  unfold Reduce.preserve
  refine files_bind (p := Program.createDirectories _) (asks_request trivial) (fun _ =>
    files_bind (p := Program.copy _ _) (asks_request trivial) (fun _ =>
      lift_bind (disassemble_harmless c _) fun result => ?_) ?_) ?_
  · split
    · exact fun _ noted => noted
    · exact fun _ noted => .inl noted
    · exact request_bind (r := .log _) trivial fun _ _ noted => noted
  · exact fun _ _ noted => .inl noted
  · exact fun _ _ noted => .inl noted

theorem dispatch_reduced (v : Variant) :
    Ends (noting host) (Noted endings) (Reduce.dispatch c a v) (Reduced host c a v.irPath endings) := by
  unfold Reduce.dispatch
  refine .bind (preserve_reduced c v) (fun _ => ?_) fun _ _ reduced => reduced
  unfold Backend.of
  by_cases isSource : a.isSource
  · rw [if_pos isSource]
    exact reduceSource_reduced c
  · rw [if_neg isSource]
    exact reduceIr_reduced c (by simpa using isSource)

end Reductions

/-! ## Checks -/

section Checks

variable (c : Config) (cache : Cache) {a : Artifact} {endings : List Ending}

/-- What is noted of a check: a result counts the endings that are no success. An error comes before
a minimizer has ended, or it tells that the reduced form of IR could not be assembled. -/
def Accounted (host : Host σ) (c : Config) (a : Artifact) (endings : List Ending)
    (total failed : Nat) (result : Except PipelineError Summary) (u : σ × Notes) : Prop :=
  match result with
  | .ok sum => ∃ more, Noted (endings ++ more) u ∧ sum.total = total ∧
      sum.reduceFailures = failed + failures more
  | .error e => Noted endings u ∨ a.isSource = false ∧ Noted (endings ++ [success]) u ∧
      ∃ error, e = .reduce error ∧ Unusable host c a.path error u

theorem failures_fail {ending : Ending} (failed : ending ≠ success) : failures [ending] = 1 := by
  simp [failures, failed]

theorem reduce_accounted {v : Variant} (isPath : a.isSource = false → v.irPath = a.path)
    (sum : Summary) :
    Ends (noting host) (Noted endings) (Check.reduce c a v sum)
      (Accounted host c a endings sum.total sum.reduceFailures) := by
  intro u noted
  have reduced : Reduced host c a v.irPath endings (exec (noting host) u (Reduce.dispatch c a v)).1
      (exec (noting host) u (Reduce.dispatch c a v)).2 := dispatch_reduced c v u noted
  have other {t : σ × Notes} (e : ReduceError) (came : Noted endings t ∨
      a.isSource = false ∧ Noted (endings ++ [success]) t ∧ Unusable host c v.irPath e t) :
      Accounted host c a endings sum.total sum.reduceFailures (.error (.reduce e)) t :=
    came.imp_right fun ⟨isIr, noted, unusable⟩ => ⟨isIr, noted, e, rfl, isPath isIr ▸ unusable⟩
  unfold Check.reduce
  rw [exec_bind, exec_lift]
  rw [exec] at reduced
  generalize Program.run (noting host) u (Reduce.dispatch c a v).run = answer at reduced
  obtain ⟨e | path, t⟩ := answer
  · cases e with
    | minimizerFailed tool input detail =>
      obtain ⟨ending, failed, noted⟩ := reduced
      refine request_bind (r := .log _) trivial (fun _ u noted => ?_) t noted
      exact ⟨[ending], noted, rfl, by rw [failures_fail failed]; rfl⟩
    | compile cause => exact other _ reduced
    | run cause => exact other _ reduced
    | files path cause => exact other _ reduced
  · obtain ⟨more, none, noted⟩ := reduced
    refine request_bind (r := .log _) trivial (fun _ u noted => ?_) t noted
    exact ⟨more, noted, rfl, by rw [none]; rfl⟩

/-- What starts no minimizer fails before a minimizer has ended. -/
theorem harmless_bind {first : Checking α} (asks : Within Harmless first) {rest : α → Checking Summary}
    {total failed : Nat}
    (accounted : ∀ value u, (∃ before, exec (noting host) before first = (.ok value, u)) →
      Noted endings u → Accounted host c a endings total failed
        (exec (noting host) u (rest value)).1 (exec (noting host) u (rest value)).2) :
    Ends (noting host) (Noted endings) (first >>= rest) (Accounted host c a endings total failed) := by
  intro u noted
  have later : Noted endings (exec (noting host) u first).2 := within_noted asks endings u noted
  rw [exec_bind]
  cases ran : exec (noting host) u first with
  | mk result t =>
    rw [ran] at later
    cases result with
    | ok value => exact accounted value t ⟨u, ran⟩ later
    | error e => exact .inl later

/-- What is built of IR is the IR itself. -/
theorem build_irPath {directory : Path} {p : Plan} (isIr : a.isSource = false) :
    Compile.build c directory a p = pure ⟨p, true⟩ := by
  unfold Compile.build
  simp [isIr]

theorem plan_irPath {directory : Path} {flags : List String} {before u : σ × Notes} {p : Plan}
    (isIr : a.isSource = false)
    (planned : exec (noting host) before ((Compile.plan c directory a flags).adapt PipelineError.compile) =
      (.ok p, u)) : p.irPath = a.path := by
  unfold Compile.plan at planned
  rw [exec_adapt, exec_bind, exec_orFail] at planned
  generalize (Program.read a.path).run (noting host) before = answer at planned
  obtain ⟨cause | content, t⟩ := answer
  · cases planned
  · obtain rfl : _ = p := Except.ok.inj (congrArg Prod.fst planned)
    simp [Plan.ofContent, isIr]

theorem report_bind {name : String} {verdict : Classification} {sum : Summary}
    {f : Summary → Checking α} {R : Except PipelineError α → σ × Notes → Prop}
    (rest : Ends (noting host) (Noted endings) (f (sum.record verdict)) R) :
    Ends (noting host) (Noted endings) (Check.report c name verdict sum >>= f) R := by
  unfold Check.report
  rw [bind_assoc]
  exact request_bind (r := .log _) trivial fun _ => rest

theorem report_accounted (name : String) (verdict : Classification) (sum : Summary) :
    Ends (noting host) (Noted endings) (Check.report c name verdict sum)
      (Accounted host c a endings (sum.total + 1) sum.reduceFailures) := by
  unfold Check.report
  refine request_bind (r := .log _) trivial fun _ u noted => ?_
  refine ⟨[], by rwa [List.append_nil], Summary.total_record sum verdict, ?_⟩
  cases verdict <;> rfl

theorem settle_accounted (v : Variant) (verdict : Classification) (sum : Summary) :
    Ends (noting host) (Noted endings) (do
        Check.settle c cache a v verdict
        return sum : Checking Summary)
      (Accounted host c a endings sum.total sum.reduceFailures) := by
  refine harmless_bind c ((within_settle c cache a v verdict).mono permits_harmless.discreet) fun _ u _ noted => ?_
  exact ⟨[], by rwa [List.append_nil], rfl, rfl⟩

theorem fresh_accounted {p : Plan} (isPath : a.isSource = false → p.irPath = a.path)
    (sum : Summary) :
    Ends (noting host) (Noted endings) (Check.fresh c cache a p sum)
      (Accounted host c a endings (sum.total + 1) sum.reduceFailures) := by
  unfold Check.fresh
  refine harmless_bind c (.adapt (build_harmless c _ a p)) ?_
  rintro v u ⟨before, built⟩ noted
  have isVariantPath (isIr : a.isSource = false) : v.irPath = a.path := by
    rw [build_irPath c isIr, exec_adapt] at built
    obtain rfl : _ = v := Except.ok.inj (congrArg Prod.fst built)
    exact isPath isIr
  split
  · exact harmless_bind c (.adapt ((within_store cache _ _).mono permits_harmless.discreet))
      (fun _ u _ noted => report_accounted c _ .uncompilable sum u noted) u noted
  · refine harmless_bind c (.adapt (classify_harmless c v.irPath)) (fun verdict u _ noted => ?_) u noted
    have counted : (sum.record verdict).reduceFailures = sum.reduceFailures := by
      cases verdict <;> rfl
    rw [← Summary.total_record sum verdict, ← counted]
    refine report_bind c ?_ u noted
    cases verdict with
    | interesting => exact reduce_accounted c isVariantPath _
    | uninteresting => exact settle_accounted c cache v _ _
    | uncompilable => exact settle_accounted c cache v _ _

/-- What is noted of the check of one variant. -/
theorem variant_accounted (flags : List String) (sum : Summary) :
    Ends (noting host) (Noted endings) (Check.variant c cache a flags sum)
      (Accounted host c a endings (sum.total + 1) sum.reduceFailures) := by
  unfold Check.variant
  refine request_bind (r := .isCancelled) trivial fun cancelled => ?_
  split
  · exact .throw_bind fun _ noted => .inl noted
  · refine harmless_bind c (.adapt ((within_plan c _ a flags).mono permits_harmless.discreet)) ?_
    rintro p u ⟨before, planned⟩ noted
    refine lift_bind ((asks_lookup cache p.key).mono permits_harmless.discreet) (fun found => ?_) u noted
    cases found with
    | none => exact fresh_accounted c cache (fun isIr => plan_irPath c isIr planned) sum
    | some verdict => exact report_accounted c _ verdict sum.withCacheHit

/-- What is noted when one flag set is checked after another. -/
def AllAccounted (host : Host σ) (c : Config) (cache : Cache) (a : Artifact)
    (sets : List (List String)) (sum : Summary) (endings : List Ending) (start : σ × Notes)
    (result : Except PipelineError Summary) (u : σ × Notes) : Prop :=
  match result with
  | .ok next => ∃ more, Noted (endings ++ more) u ∧ next.total = sum.total + sets.length ∧
      next.reduceFailures = sum.reduceFailures + failures more
  | .error e => ∃ done flags rest next before more, sets = done ++ flags :: rest ∧
      exec (noting host) start (Check.each c cache a done sum) = (.ok next, before) ∧
      Noted (endings ++ more) before ∧ next.total = sum.total + done.length ∧
      next.reduceFailures = sum.reduceFailures + failures more ∧
      exec (noting host) before (Check.variant c cache a flags next) = (.error e, u) ∧
      (Noted (endings ++ more) u ∨ a.isSource = false ∧ Noted (endings ++ more ++ [success]) u ∧
        ∃ error, e = .reduce error ∧ Unusable host c a.path error u)

theorem each_accounted (sets : List (List String)) (sum : Summary) (u : σ × Notes)
    (noted : Noted endings u) :
    AllAccounted host c cache a sets sum endings u
      (exec (noting host) u (Check.each c cache a sets sum)).1
      (exec (noting host) u (Check.each c cache a sets sum)).2 := by
  induction sets generalizing endings sum u with
  | nil => exact ⟨[], by rwa [List.append_nil], rfl, rfl⟩
  | cons flags rest ih =>
    have accounted : Accounted host c a endings (sum.total + 1) sum.reduceFailures
      (exec (noting host) u (Check.variant c cache a flags sum)).1
      (exec (noting host) u (Check.variant c cache a flags sum)).2 :=
        variant_accounted c cache flags sum u noted
    unfold Check.each
    rw [exec_bind]
    cases ran : exec (noting host) u (Check.variant c cache a flags sum) with
    | mk result t =>
      rw [ran] at accounted
      cases result with
      | error e =>
        refine ⟨[], flags, rest, sum, u, [], rfl, rfl, ?_, rfl, rfl, ran, ?_⟩
        · rwa [List.append_nil]
        · rwa [List.append_nil]
      | ok next =>
        obtain ⟨more, notedNext, total, failed⟩ := accounted
        have others := ih next t notedNext
        simp only
        cases ranRest : exec (noting host) t (Check.each c cache a rest next) with
        | mk result v =>
          rw [ranRest] at others
          cases result with
          | ok last =>
            obtain ⟨more', notedLast, total', failed'⟩ := others
            refine ⟨more ++ more', by rwa [← List.append_assoc], ?_, ?_⟩
            · rw [total', total, List.length_cons]
              omega
            · rw [failed', failed, failures_append]
              omega
          | error e =>
            obtain ⟨done, flags', rest', last, before, more', same, ranDone, notedBefore, total',
              failed', ranVariant, came⟩ := others
            refine ⟨flags :: done, flags', rest', last, before, more ++ more', by rw [same]; rfl, ?_,
              ?_, ?_, ?_, ranVariant, ?_⟩
            · unfold Check.each
              rw [exec_bind, ran]
              exact ranDone
            · rwa [← List.append_assoc]
            · rw [total', total, List.length_cons]
              omega
            · rw [failed', failed, failures_append]
              omega
            · rwa [← List.append_assoc]

end Checks

/-- However the minimizers end that are started and come to their end, and whatever they leave
behind, a check goes on with the next variant and counts each ending that is no success. It ends in
an error only in the check of a variant in which no minimizer has ended, or because the reduced form
of IR cannot be assembled that a minimizer has left as its success. -/
theorem minimizers_stop_nothing (host : Host σ) (c : Config) (cache : Cache) (a : Artifact) (s : σ) :
    ∃ result u, exec (noting host) (s, quiet []) (Check.variants c cache a) = (result, u) ∧
      exec host s (Check.variants c cache a) = (result, u.1) ∧
      match result with
      | .ok sum => sum.total = (flagSets c a).length ∧ sum.reduceFailures = failures u.2.endings
      | .error e => ∃ done flags rest sum before, flagSets c a = done ++ flags :: rest ∧
          exec (noting host) (s, quiet []) (Check.each c cache a done .zero) = (.ok sum, before) ∧
          sum.total = done.length ∧ sum.reduceFailures = failures before.2.endings ∧
          exec (noting host) before (Check.variant c cache a flags sum) = (.error e, u) ∧
          (u.2.endings = before.2.endings ∨
            a.isSource = false ∧ u.2.endings = before.2.endings ++ [success] ∧
              ∃ error, e = .reduce error ∧ Unusable host c a.path error u) := by
  have accounted : AllAccounted host c cache a (flagSets c a) .zero [] (s, quiet [])
      (exec (noting host) (s, quiet []) (Check.variants c cache a)).1
      (exec (noting host) (s, quiet []) (Check.variants c cache a)).2 :=
    each_accounted c cache (flagSets c a) .zero (s, quiet []) rfl
  have same : exec host s (Check.variants c cache a) = _ :=
    exec_noting (Check.variants c cache a) (s, quiet [])
  cases ran : exec (noting host) (s, quiet []) (Check.variants c cache a) with
  | mk result u =>
    rw [ran] at accounted same
    refine ⟨result, u, rfl, same, ?_⟩
    cases result with
    | ok sum =>
      obtain ⟨more, noted, total, failed⟩ := accounted
      refine ⟨total.trans (Nat.zero_add _), ?_⟩
      rw [noted.endings, failed]
      exact Nat.zero_add _
    | error e =>
      obtain ⟨done, flags, rest, sum, before, more, split, ranDone, noted, total, failed, ranVariant,
        came⟩ := accounted
      refine ⟨done, flags, rest, sum, before, split, ranDone, total.trans (Nat.zero_add _), ?_,
        ranVariant, ?_⟩
      · rw [failed, noted.endings]
        exact Nat.zero_add _
      · rw [noted.endings]
        exact came.imp Noted.endings fun ⟨isIr, noted, unusable⟩ => ⟨isIr, noted.endings, unusable⟩

/-! ## A minimizer without output -/

/-- Tools that find the crash of an analysis and assemble what there is. -/
def tools (minimizer : Path → Option Bytes → Status × Option Bytes) : Toolbox where
  starts _ _ := true
  streams _ := ([], [])
  compile _ _ _ := ⟨.ended (.exited 1), none⟩
  convert _ input := if input.isSome then ⟨.ended (.exited 0), some bitcodeMagic⟩
    else ⟨.ended (.exited 1), none⟩
  facts _ _ _ := ⟨.ended (.exited 0), []⟩
  analyse _ _ _ := ⟨.ended (.exited 3), []⟩
  minimizeIr := minimizer
  minimizeSource _ _ := (.exited 0, none)

open FailedReduction in
theorem lost_output_stops :
    ¬ ∀ (c : Config) (a : Artifact) (s : Bench.State) (careful careless : Path → Option Bytes → Status × Option Bytes),
        (exec (desk (tools careful)).host s (Check.variants c ⟨c.cacheRoot⟩ a)).1.isOk →
        (exec (desk (tools careless)).host s (Check.variants c ⟨c.cacheRoot⟩ a)).1.isOk := by
  intro never
  have stopped := never settings bitcode start (fun _ _ => (.exited 0, some (utf8 "; less")))
    (fun _ _ => (.exited 0, none)) (by decide +kernel)
  exact absurd stopped (by decide +kernel)

end BugHunt.Proofs.MinimizerEndings
