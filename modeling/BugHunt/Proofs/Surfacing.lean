import BugHunt.Pipeline.Classify
import BugHunt.Proofs.Scanning
import BugHunt.Proofs.Tallying
/-!
How interrupts surface. An interrupt may stand at any depth of an error, in each of the ways in
which errors stand in one another. Main statement: a check, a verdict and a scan end as interrupted
only if the host told them of an interrupt, they do so when it did, and no other error that they end
with has an interrupt in it.
-/

namespace BugHunt.Proofs.Surfacing
open Asking Courses Runs Toolless Stages FanOut Scanning VariantKeys

/-! ## Interrupts inside errors -/

/-- An interrupt in the error of a tool's run. -/
inductive InRun : RunError → Prop
  | interrupted (program : String) : InRun (.interrupted program)

inductive InCompile : CompileError → Prop
  | run {e : RunError} (inside : InRun e) : InCompile (.run e)

inductive InOracle : OracleError → Prop
  | assemble {e : CompileError} (inside : InCompile e) : InOracle (.assemble e)
  | run {e : RunError} (inside : InRun e) : InOracle (.run e)

inductive InReduce : ReduceError → Prop
  | compile {e : CompileError} (inside : InCompile e) : InReduce (.compile e)
  | run {e : RunError} (inside : InRun e) : InReduce (.run e)

/-- An interrupt in the error of a check or a scan: the error itself, or one at some depth. -/
inductive InPipeline : PipelineError → Prop
  | interrupted : InPipeline .interrupted
  | compile {e : CompileError} (inside : InCompile e) : InPipeline (.compile e)
  | oracle {e : OracleError} (inside : InOracle e) : InPipeline (.oracle e)
  | reduce {e : ReduceError} (inside : InReduce e) : InPipeline (.reduce e)

theorem inRun_iff {e : RunError} : InRun e ↔ e.isInterrupt := by
  constructor
  · rintro ⟨⟩
    rfl
  · intro isInterrupt
    cases e with
    | interrupted program => exact .interrupted program
    | spawn | waiting => cases isInterrupt

theorem inCompile_iff {e : CompileError} : InCompile e ↔ e.isInterrupt := by
  constructor
  · rintro ⟨inside⟩
    exact inRun_iff.mp inside
  · intro isInterrupt
    cases e with
    | run error => exact .run (inRun_iff.mpr isInterrupt)
    | _ => cases isInterrupt

theorem inOracle_iff {e : OracleError} : InOracle e ↔ e.isInterrupt := by
  constructor
  · rintro (inside | inside)
    · exact inCompile_iff.mp inside
    · exact inRun_iff.mp inside
  · intro isInterrupt
    cases e with
    | assemble error => exact .assemble (inCompile_iff.mpr isInterrupt)
    | run error => exact .run (inRun_iff.mpr isInterrupt)
    | _ => cases isInterrupt

theorem inReduce_iff {e : ReduceError} : InReduce e ↔ e.isInterrupt := by
  constructor
  · rintro (inside | inside)
    · exact inCompile_iff.mp inside
    · exact inRun_iff.mp inside
  · intro isInterrupt
    cases e with
    | compile error => exact .compile (inCompile_iff.mpr isInterrupt)
    | run error => exact .run (inRun_iff.mpr isInterrupt)
    | _ => cases isInterrupt

theorem inPipeline_iff {e : PipelineError} : InPipeline e ↔ e.isInterrupt := by
  constructor
  · rintro (_ | inside | inside | inside)
    · rfl
    · exact inCompile_iff.mp inside
    · exact inOracle_iff.mp inside
    · exact inReduce_iff.mp inside
  · intro isInterrupt
    cases e with
    | interrupted => exact .interrupted
    | compile error => exact .compile (inCompile_iff.mpr isInterrupt)
    | oracle error => exact .oracle (inOracle_iff.mpr isInterrupt)
    | reduce error => exact .reduce (inReduce_iff.mpr isInterrupt)
    | _ => cases isInterrupt

theorem normalize_of_not_in {e : PipelineError} (calm : ¬ InPipeline e) : e.normalize = e :=
  if_neg fun isInterrupt => calm (inPipeline_iff.mpr isInterrupt)

theorem normalize_eq_interrupted_iff {e : PipelineError} :
    e.normalize = .interrupted ↔ InPipeline e := by
  constructor
  · intro same
    by_contra calm
    rw [normalize_of_not_in calm] at same
    exact calm (same ▸ .interrupted)
  · exact fun inside => if_pos (inPipeline_iff.mp inside)

theorem normalize_in_iff {e : PipelineError} : InPipeline e.normalize ↔ InPipeline e := by
  by_cases inside : InPipeline e
  · rw [normalize_eq_interrupted_iff.mpr inside]
    exact ⟨fun _ => inside, fun _ => .interrupted⟩
  · rw [normalize_of_not_in inside]

/-! ## Hearing of an interrupt -/

/-- An answer that tells of an interrupt: to the question for one, or at the end of the wait for a
tool. -/
inductive Tells : Exchange → Prop
  | asked : Tells interrupt
  | waiting (child : Child) (stop : Observation → Option Ending) :
    Tells ⟨.await child stop, Except.ok .cancelled⟩

/-- The requests whose answers cannot tell of an interrupt. -/
def Quiet : Request → Prop
  | .isCancelled | .await .. => False
  | _ => True

theorem quiet_of_discreet (r : Request) (discreet : Discreet r) : Quiet r := by
  cases r <;> trivial

/-- Whether one of the exchanges tells of an interrupt. -/
def Told (xs : List Exchange) : Prop := ∃ x ∈ xs, Tells x

theorem told_append {xs ys : List Exchange} : Told (xs ++ ys) ↔ Told xs ∨ Told ys := by
  simp [Told, or_and_right, exists_or]

theorem not_told_nil : ¬ Told [] := by simp [Told]

theorem not_told_of_quiet {xs : List Exchange} (quiet : ∀ x ∈ xs, Quiet x.request) :
    ¬ Told xs := by
  rintro ⟨x, among, tells⟩
  have quiet := quiet x among
  cases tells <;> exact quiet

/-- An error that says of an interrupt. -/
def Fails (P : ε → Prop) (result : Except ε α) : Prop := ∃ e, result = .error e ∧ P e

section Fails

variable {P : ε → Prop}

@[simp] theorem fails_ok {value : α} : ¬ Fails P (.ok value : Except ε α) := by simp [Fails]

@[simp] theorem fails_error {e : ε} : Fails P (.error e : Except ε α) ↔ P e := by simp [Fails]

end Fails

/-- Whether an action ends in an error that says so just if it was told of an interrupt. -/
def Voices (P : ε → Prop) (a : Action ε α) : Prop :=
  ∀ xs result, Course a.run xs result → (Told xs ↔ Fails P result)

section Rules

variable {P : ε → Prop} {a : Action ε α} {f : α → Action ε β}

theorem Voices.pure (value : α) : Voices P (pure value : Action ε α) := by
  intro xs result course
  obtain ⟨rfl, rfl⟩ := course_done course
  exact iff_of_false not_told_nil fails_ok

theorem Voices.throw {e : ε} (other : ¬ P e) : Voices P (throw e : Action ε α) := by
  intro xs result course
  obtain ⟨rfl, rfl⟩ := course_done course
  exact iff_of_false not_told_nil (fails_error.not.mpr other)

theorem Voices.throw_bind {e : ε} (other : ¬ P e) : Voices P (MonadExcept.throw e >>= f) := by
  intro xs result course
  obtain ⟨rfl, rfl⟩ := course_done course
  exact iff_of_false not_told_nil (fails_error.not.mpr other)

theorem Voices.bind (first : Voices P a) (second : ∀ value, Voices P (f value)) :
    Voices P (a >>= f) := by
  intro xs result course
  rw [ExceptT.run_bind] at course
  obtain ⟨ys, zs, answer, rfl, before, after⟩ := course.split
  rw [told_append, first ys answer before]
  cases answer with
  | ok value => simpa using second value zs result after
  | error e =>
    obtain ⟨rfl, rfl⟩ := course_done after
    simp [not_told_nil]

theorem Voices.adapt {Q : φ → Prop} {g : ε → φ} (voices : Voices P a) (same : ∀ e, P e ↔ Q (g e)) :
    Voices Q (a.adapt g) := by
  intro xs result course
  obtain ⟨ys, zs, answer, rfl, before, after⟩ := Course.split (p := a.run) course
  obtain ⟨rfl, rfl⟩ := course_done after
  rw [List.append_nil, voices ys answer before]
  cases answer with
  | ok value => exact iff_of_false fails_ok fails_ok
  | error e => exact fails_error.trans ((same e).trans fails_error.symm)

/-- What asks for no interrupt and waits for no tool hears of none. -/
theorem Voices.quiet (asks : Within Quiet a) (other : ∀ e, ¬ P e) : Voices P a := by
  intro xs result course
  refine iff_of_false (not_told_of_quiet (course.asks asks)) ?_
  rintro ⟨e, -, holds⟩
  exact other e holds

theorem Voices.lifted {p : Program α} (asks : Asks Quiet p) :
    Voices P (monadLift p : Action ε α) := by
  intro xs result course
  obtain ⟨ys, zs, value, rfl, before, after⟩ := Course.split (p := p) course
  obtain ⟨rfl, rfl⟩ := course_done after
  rw [List.append_nil]
  exact iff_of_false (not_told_of_quiet (before.asks asks)) fails_ok

theorem Voices.orFail {p : Program (Except φ α)} {toError : φ → ε} (asks : Asks Quiet p)
    (other : ∀ failure, ¬ P (toError failure)) : Voices P (Action.orFail p toError) := by
  intro xs result course
  obtain ⟨ys, zs, answer, rfl, before, after⟩ := Course.split (p := p) course
  have silent := not_told_of_quiet (before.asks asks)
  cases answer with
  | ok value =>
    obtain ⟨rfl, rfl⟩ := course_done after
    rw [List.append_nil]
    exact iff_of_false silent fails_ok
  | error failure =>
    obtain ⟨rfl, rfl⟩ := course_done after
    rw [List.append_nil]
    exact iff_of_false silent (fails_error.not.mpr (other failure))

theorem Voices.cleaningUp {cleanup : Except ε α → Program Unit} (voices : Voices P a)
    (asks : ∀ result, Asks Quiet (cleanup result)) : Voices P (a.cleaningUp cleanup) := by
  intro xs result course
  obtain ⟨ys, zs, answer, rfl, before, after⟩ := Course.split (p := a.run) course
  obtain ⟨us, vs, value, rfl, cleaned, ended⟩ := Course.split (p := cleanup answer) after
  obtain ⟨rfl, rfl⟩ := course_done ended
  have silent := not_told_of_quiet (cleaned.asks (asks result))
  rw [List.append_nil, told_append, or_iff_left silent]
  exact voices ys result before

/-- An action whose result is looked at as a value: an error that says of an interrupt is passed on
in some form, and nothing is asked before that. -/
theorem Voices.attempt {R : φ → Prop} {a : Action φ α} {f : Except φ α → Action ε β}
    (first : Voices R a) (passed : ∀ e, R e → ∃ error, f (.error e) = MonadExcept.throw error ∧ P error)
    (rest : ∀ result, ¬ Fails R result → Voices P (f result)) :
    Voices P (ExceptT.lift a.run >>= f) := by
  intro xs result course
  rw [ExceptT.run_bind] at course
  obtain ⟨xs, zs, lifted, rfl, before, after⟩ := course.split
  obtain ⟨ys, us, answer, rfl, attempted, ended⟩ := Course.split (p := a.run) before
  obtain ⟨rfl, rfl⟩ := course_done ended
  rw [List.append_nil, told_append, first ys answer attempted]
  by_cases stopped : Fails R answer
  · obtain ⟨e, rfl, isTold⟩ := stopped
    obtain ⟨error, throws, holds⟩ := passed e isTold
    change Course (f (.error e)).run zs result at after
    rw [throws] at after
    obtain ⟨rfl, rfl⟩ := course_done after
    simp [isTold, holds]
  · rw [or_iff_right stopped]
    exact rest answer stopped zs result after

/-- Asking for an interrupt, and stopping if there is one. -/
theorem Voices.watching {f : Bool → Action ε α} {e : ε} (stops : (f true).run = .done (.error e))
    (holds : P e) (rest : Voices P (f false)) :
    Voices P (monadLift Program.isCancelled >>= f) := by
  intro xs result course
  change Course (.ask .isCancelled fun cancelled : Bool => (f cancelled).run) xs result at course
  cases course with
  | @ask _ _ cancelled ys _ after =>
    cases cancelled with
    | true =>
      change Course (f true).run ys result at after
      rw [stops] at after
      obtain ⟨rfl, rfl⟩ := course_done after
      exact iff_of_true ⟨_, List.mem_singleton_self _, .asked⟩ (fails_error.mpr holds)
    | false =>
      have calm : ¬ Told [⟨.isCancelled, false⟩] := by
        rintro ⟨_, among, tells⟩
        obtain rfl := List.mem_singleton.mp among
        cases tells
      rw [← List.singleton_append, told_append, or_iff_right calm]
      exact rest ys result after

/-- Waiting for a tool, and giving up if the wait ends by an interrupt. -/
theorem Voices.waiting {child : Child} {stop : Observation → Option Ending}
    {f : Except Failure Ending → Action ε α}
    (stops : ∀ xs result, Course (f (.ok .cancelled)).run xs result → Fails P result)
    (rest : ∀ ending, ending ≠ .ok .cancelled → Voices P (f ending)) :
    Voices P (monadLift (Program.await child stop) >>= f) := by
  intro xs result course
  change Course (.ask (.await child stop) fun ending : Except Failure Ending => (f ending).run) xs
    result at course
  cases course with
  | @ask _ _ ending ys _ after =>
    by_cases cancelled : ending = Except.ok Ending.cancelled
    · subst cancelled
      exact iff_of_true ⟨_, List.mem_cons_self, .waiting child stop⟩ (stops ys result after)
    · have calm : ¬ Told [⟨.await child stop, ending⟩] := by
        rintro ⟨_, among, tells⟩
        obtain rfl := List.mem_singleton.mp among
        cases tells
        exact cancelled rfl
      rw [← List.singleton_append, told_append, or_iff_right calm]
      exact rest ending cancelled ys result after

end Rules

/-! ## The stages -/

theorem asks_quiet {p : Program α} (asks : Asks Discreet p) : Asks Quiet p :=
  asks.mono quiet_of_discreet

/-- What is about files alone hears of no interrupt. -/
theorem Voices.discreet {P : φ → Prop} {a : Action ε α} {g : ε → φ} (asks : Within Discreet a)
    (other : ∀ e, ¬ P (g e)) : Voices P (a.adapt g) :=
  (Voices.quiet (asks_quiet asks) fun _ => not_false).adapt fun e => iff_of_false not_false (other e)

/-- A tool that is told of an interrupt, before its start or in its run, ends as interrupted. -/
theorem command_voices (command : Command) (memory limit : Option Nat) :
    Voices InRun (command.run memory limit) := by
  have collect (child : Child) : Asks Quiet (Program.collect child) := asks_request trivial
  have terminate (child : Child) : Asks Quiet (Program.terminate child) := asks_request trivial
  have warn (message : String) : Asks Quiet (Program.warn message) := asks_request trivial
  unfold Command.run
  refine .watching rfl (.interrupted _) (.bind (.orFail (asks_request trivial) ?_) fun child =>
    .waiting ?_ ?_)
  · rintro cause ⟨⟩
  · intro xs result course
    cases course with
    | ask terminated rest =>
      cases rest with
      | ask collected rest =>
        obtain ⟨-, rfl⟩ := course_done rest
        exact fails_error.mpr (.interrupted _)
  · intro ending other
    cases ending with
    | error cause => exact .bind (.lifted (collect child)) fun _ => .throw (by rintro ⟨⟩)
    | ok ending =>
      cases ending with
      | cancelled => exact absurd rfl other
      | exited status => exact .bind (.lifted (collect child)) fun _ => .pure _
      | timedOut =>
        exact .bind (.lifted (warn _)) fun _ => .bind (.lifted (terminate child)) fun _ =>
          .bind (.lifted (collect child)) fun _ => .pure _

theorem runTool_voices (c : Config) (command : Command) :
    Voices InCompile (Compile.runTool c command) :=
  (command_voices _ _ _).adapt fun _ => ⟨.run, fun | .run inside => inside⟩

theorem convert_voices (c : Config) (tool input output : Path) :
    Voices InCompile (Compile.convert c tool input output) := by
  unfold Compile.convert
  refine .bind (runTool_voices c _) fun outcome => ?_
  cases outcome with
  | completed _ => exact .pure _
  | failed _ => exact .throw (by rintro ⟨⟩)
  | timedOut => exact .throw (by rintro ⟨⟩)

theorem assemble_voices (c : Config) (path directory : Path) :
    Voices InCompile (Compile.assemble c path directory) := by
  have checked (output : Path) : Voices InCompile (do
      if !(← Compile.looksLikeBitcode output) then
        throw (.notBitcode c.tools.llvmAs.display output)
      return output : Compiling Path) := by
    refine .bind (.lifted (asks_quiet (asks_looksLikeBitcode output))) fun fine => ?_
    cases fine
    · exact .throw_bind (by rintro ⟨⟩)
    · exact .pure _
  unfold Compile.assemble
  dsimp only
  split
  · exact .bind (.pure _) checked
  · exact .bind (.orFail (asks_request trivial) (by rintro _ ⟨⟩)) fun _ =>
      .bind (convert_voices c _ _ _) fun _ => .bind (.pure _) checked
  · exact .throw_bind (by rintro ⟨⟩)

theorem disassemble_voices (c : Config) (path : Path) :
    Voices InCompile (Compile.disassemble c path) := by
  unfold Compile.disassemble
  split
  · exact .pure _
  · refine .bind (convert_voices c _ _ _) fun _ => .bind (.lifted (asks_request trivial)) fun found => ?_
    cases found
    · exact .throw_bind (by rintro ⟨⟩)
    · exact .pure _
  · exact .throw (by rintro ⟨⟩)

theorem build_voices (c : Config) (directory : Path) (a : Artifact) (p : Plan) :
    Voices InCompile (Compile.build c directory a p) := by
  have staged (staging : Path) : Voices InCompile (Compile.intoStaging c a p staging) := by
    unfold Compile.intoStaging
    refine .bind (runTool_voices c _) fun outcome => ?_
    cases outcome with
    | completed _ =>
      refine .bind (.lifted (asks_quiet (asks_looksLikeBitcode staging))) fun fine => ?_
      cases fine
      · exact .throw_bind (by rintro ⟨⟩)
      · exact .bind (.orFail (asks_request trivial) (by rintro _ ⟨⟩)) fun _ => .pure _
    | failed _ => exact .pure _
    | timedOut => exact .pure _
  unfold Compile.build
  split
  · exact .pure _
  · refine .bind (.lifted (asks_request trivial)) fun done => ?_
    cases done
    · exact .bind (.orFail (asks_request trivial) (by rintro _ ⟨⟩)) fun _ =>
        .bind (.orFail (asks_request trivial) (by rintro _ ⟨⟩)) fun staging =>
          .bind (.cleaningUp (staged staging) fun result =>
            asks_quiet (asks_discardStaging staging result)) fun _ => .pure _
    · exact .pure _

theorem plan_voices (c : Config) (directory : Path) (a : Artifact) (flags : List String) :
    Voices InCompile (Compile.plan c directory a flags) :=
  .bind (.orFail (asks_request trivial) (by rintro _ ⟨⟩)) fun _ => .pure _

theorem compileAll_voices (c : Config) (directory : Path) (a : Artifact) :
    Voices InCompile (Compile.variants c directory a) := by
  unfold Compile.variants
  induction flagSets c a with
  | nil => exact .pure _
  | cons flags rest ih =>
    exact .bind (.bind (plan_voices c directory a flags) fun p => build_voices c directory a p)
      fun _ => .bind ih fun _ => .pure _

/-! ### The oracle -/

theorem runStage_voices (c : Config) (command : Command) :
    Voices InOracle (Oracle.runStage c command) :=
  .bind ((command_voices _ _ _).adapt fun _ => ⟨.run, fun | .run inside => inside⟩) fun _ => .pure _

theorem scan_voices (assertions : List String) (directory : Path) :
    Voices InOracle (Relations.scan assertions directory) := by
  have violated : Voices InOracle (Relations.firstViolated directory assertions) := by
    induction assertions with
    | nil => exact .pure _
    | cons relation rest ih =>
      refine .bind (.orFail (asks_request trivial) (by rintro _ ⟨⟩)) fun content => ?_
      split
      · exact .throw (by rintro ⟨⟩)
      · exact .pure _
      · exact ih
  refine .bind (.lifted (asks_quiet (asks_firstMissing directory assertions))) fun found => ?_
  cases found
  · exact violated
  · exact .throw (by rintro ⟨⟩)

theorem reportTrouble_voices (ir tool : Path) (stage : Stage) (crash timeout : String)
    (result : StageResult) :
    Voices InOracle (Oracle.reportTrouble ir tool stage crash timeout result) := by
  have warn (message : String) : Asks Quiet (Program.warn message) := asks_request trivial
  unfold Oracle.reportTrouble
  split
  · exact .bind (.lifted (warn _)) fun _ => .bind (.lifted (warn _)) fun _ =>
      .bind (.bind (.orFail (asks_request trivial) (by rintro _ ⟨⟩)) fun _ => .pure _) fun _ =>
        .pure _
  · exact .lifted (warn _)

theorem classify_voices (c : Config) (ir : Path) : Voices InOracle (Oracle.classify c ir) := by
  have judged (w : Workspace) : Voices InOracle (Oracle.classifyIn c w ir) := by
    unfold Oracle.classifyIn
    refine .bind ((assemble_voices c ir w.root).adapt fun _ =>
      ⟨.assemble, fun | .assemble inside => inside⟩) fun bitcode =>
        .bind (runStage_voices c _) fun facts => ?_
    split
    · exact .bind (reportTrouble_voices _ _ _ _ _ _) fun _ => .pure _
    · refine .bind (runStage_voices c _) fun analysis => ?_
      split
      · exact .bind (reportTrouble_voices _ _ _ _ _ _) fun _ => .pure _
      · exact .bind (scan_voices _ _) fun _ => .pure _
  exact .bind (.discreet (within_create _) (by rintro _ ⟨⟩)) fun w =>
    .cleaningUp (judged w) fun _ => asks_quiet (asks_discard c.debug w)

/-! ### Reductions -/

theorem minimize_voices (c : Config) (command : Command) (input : Path) :
    Voices InReduce (Reduce.minimize c command input) := by
  unfold Reduce.minimize
  refine .bind ((command_voices _ _ _).adapt fun _ => ⟨.run, fun | .run inside => inside⟩)
    fun outcome => ?_
  cases outcome with
  | completed _ => exact .pure _
  | failed _ => exact .throw (by rintro ⟨⟩)
  | timedOut => exact .throw (by rintro ⟨⟩)

/-- Of the errors of a disassembler, those that say of an interrupt are passed on. -/
theorem preserve_voices (c : Config) (v : Variant) : Voices InReduce (Reduce.preserve c v) := by
  unfold Reduce.preserve
  refine .bind (.orFail (asks_request trivial) (by rintro _ ⟨⟩)) fun _ =>
    .bind (.orFail (asks_request trivial) (by rintro _ ⟨⟩)) fun _ =>
      .attempt (disassemble_voices c _) ?_ fun result calm => ?_
  · rintro _ ⟨⟨program⟩⟩
    exact ⟨_, rfl, .run (.interrupted program)⟩
  · split
    · exact .pure _
    · exact absurd (fails_error.mpr (.run (.interrupted _))) calm
    · exact .bind (.lifted (asks_request trivial)) fun _ => .pure _

theorem reduceIr_voices (c : Config) (ir : Path) : Voices InReduce (Reduce.reduceIr c ir) := by
  unfold Reduce.reduceIr
  refine .bind (.lifted (asks_request trivial)) fun done => ?_
  split
  · exact .bind (.lifted (asks_request trivial)) fun _ => .pure _
  · exact .bind (.lifted (asks_request trivial)) fun _ => .bind (minimize_voices c _ _) fun _ =>
      .bind ((assemble_voices c _ _).adapt fun _ => ⟨.compile, fun | .compile inside => inside⟩)
        fun _ => .pure _

theorem reduceCopy_voices (c : Config) (a : Artifact) (root copy directory : Path) :
    Voices InReduce (Reduce.reduceCopy c a root copy directory) := by
  unfold Reduce.reduceCopy
  refine .bind (.orFail (asks_request trivial) (by rintro _ ⟨⟩)) fun _ =>
    .bind (.orFail (asks_request trivial) (by rintro _ ⟨⟩)) fun _ =>
      .bind (.lifted (asks_request trivial)) fun _ =>
        .cleaningUp (minimize_voices c _ _) fun result => ?_
  cases result with
  | ok _ => trivial
  | error _ => exact .bind (p := Program.remove copy) (asks_request trivial) fun _ => trivial

theorem reduceSource_voices (c : Config) (a : Artifact) :
    Voices InReduce (Reduce.reduceSource c a) := by
  unfold Reduce.reduceSource
  refine .bind (.lifted (asks_request trivial)) fun done => ?_
  split
  · exact .bind (.lifted (asks_request trivial)) fun _ => .pure _
  · exact .bind (.orFail (asks_request trivial) (by rintro _ ⟨⟩)) fun _ =>
      .bind (.orFail (asks_request trivial) (by rintro _ ⟨⟩)) fun directory =>
        .bind (.cleaningUp (reduceCopy_voices c a _ _ directory) fun _ =>
          .bind (p := Program.removeTree directory) (asks_request trivial) fun _ => trivial)
          fun _ => .pure _

theorem dispatch_voices (c : Config) (a : Artifact) (v : Variant) :
    Voices InReduce (Reduce.dispatch c a v) := by
  refine .bind (preserve_voices c v) fun _ => ?_
  split
  · exact reduceIr_voices c v.irPath
  · exact reduceSource_voices c a

/-! ### Checks and verdicts -/

theorem report_voices (c : Config) (name : String) (verdict : Classification) (s : Summary) :
    Voices InPipeline (Check.report c name verdict s) :=
  .bind (.lifted (asks_request trivial)) fun _ => .pure _

theorem store_voices (cache : Cache) (key : String) (verdict : Classification) :
    Voices InPipeline ((cache.store key verdict).adapt .cache) :=
  .discreet (within_store cache key verdict) (by rintro _ ⟨⟩)

/-- A minimizer that failed is no error of a check, and has no interrupt in it. -/
theorem reduce_voices (c : Config) (a : Artifact) (v : Variant) (s : Summary) :
    Voices InPipeline (Check.reduce c a v s) := by
  unfold Check.reduce
  refine .attempt (dispatch_voices c a v) ?_ fun result calm => ?_
  · rintro e inside
    refine ⟨.reduce e, ?_, .reduce inside⟩
    cases inside <;> rfl
  · split
    · exact .bind (.lifted (asks_request trivial)) fun _ => .pure _
    · exact .bind (.lifted (asks_request trivial)) fun _ => .pure _
    · exact .throw fun | .reduce inside => calm (fails_error.mpr inside)

theorem variant_voices (c : Config) (cache : Cache) (a : Artifact) (flags : List String)
    (s : Summary) : Voices InPipeline (Check.variant c cache a flags s) := by
  have compiled (e : CompileError) : InCompile e ↔ InPipeline (.compile e) :=
    ⟨.compile, fun | .compile inside => inside⟩
  have judged (e : OracleError) : InOracle e ↔ InPipeline (.oracle e) :=
    ⟨.oracle, fun | .oracle inside => inside⟩
  have fresh (p : Plan) : Voices InPipeline (Check.fresh c cache a p s) := by
    unfold Check.fresh
    refine .bind ((build_voices c _ a p).adapt compiled) fun v => ?_
    split
    · exact .bind (store_voices cache _ _) fun _ => report_voices c _ _ s
    · refine .bind ((classify_voices c _).adapt judged) fun verdict =>
        .bind (report_voices c _ verdict s) fun s => ?_
      split
      · exact reduce_voices c a v s
      · refine .bind ?_ fun _ => .pure _
        unfold Check.settle
        refine .bind (store_voices cache _ _) fun _ => ?_
        split
        · exact .discreet (within_removeIfPresent _) (by rintro _ ⟨⟩)
        · exact .pure _
  unfold Check.variant
  refine .watching rfl .interrupted (.bind ((plan_voices c _ a flags).adapt compiled) fun p =>
    .bind (.lifted (asks_quiet (asks_lookup cache p.key))) fun found => ?_)
  split
  · exact report_voices c _ _ _
  · exact fresh p

theorem variants_voices (c : Config) (cache : Cache) (a : Artifact) :
    Voices InPipeline (Check.variants c cache a) := by
  unfold Check.variants
  generalize Summary.zero = s
  induction flagSets c a generalizing s with
  | nil => exact .pure _
  | cons flags rest ih => exact .bind (variant_voices c cache a flags s) ih

theorem within_voices (c : Config) (a : Artifact) (directory : Path) :
    Voices InPipeline (Classify.within c a directory) := by
  have judged (compiled : Bool) (vs : List Variant) :
      Voices InPipeline (Classify.judge c compiled vs) := by
    induction vs generalizing compiled with
    | nil => exact .pure _
    | cons v rest ih =>
      unfold Classify.judge
      split
      · exact .bind (.lifted (asks_request trivial)) fun _ => ih compiled
      · refine .bind ((classify_voices c v.irPath).adapt fun _ =>
          ⟨.oracle, fun | .oracle inside => inside⟩) fun verdict =>
            .bind (.lifted (asks_request trivial)) fun _ => ?_
        split
        · exact .pure _
        · exact ih true
  exact .bind ((compileAll_voices c directory a).adapt fun _ =>
    ⟨.compile, fun | .compile inside => inside⟩) (judged false)

/-! ## Normalized errors -/

/-- A way to tell from the errors of a whole run, in which nothing stands around an interrupt, that
it was interrupted. -/
structure Reading (P : PipelineError → Prop) : Prop where
  normalized : ∀ e, InPipeline e ↔ P e.normalize
  other : ∀ e, ¬ InPipeline e → ¬ P e

theorem reading_interrupted : Reading (· = .interrupted) where
  normalized _ := normalize_eq_interrupted_iff.symm
  other _ calm same := calm (same ▸ .interrupted)

theorem reading_inside : Reading InPipeline where
  normalized _ := normalize_in_iff.symm
  other _ calm := calm

section Whole

variable {P : PipelineError → Prop} (reading : Reading P)

include reading

theorem job_voices (c : Config) (cache : Cache) (a : Artifact) :
    Voices P (Check.variants c cache a).normalized :=
  (variants_voices c cache a).adapt reading.normalized

theorem check_voices (c : Config) (path : Path) : Voices P (Check.program c path) := by
  unfold Check.program
  split
  · exact .throw (reading.other _ (by rintro ⟨⟩))
  · exact .bind (.discreet (within_open _) fun _ => reading.other _ (by rintro ⟨⟩)) fun cache =>
      job_voices reading c cache _

theorem verdict_voices (c : Config) (path : Path) : Voices P (Classify.program c path) := by
  unfold Classify.program
  split
  · exact .throw (reading.other _ (by rintro ⟨⟩))
  · exact .bind (.orFail (asks_request trivial) fun _ => reading.other _ (by rintro ⟨⟩))
      fun directory => .cleaningUp ((within_voices c _ directory).adapt reading.normalized) fun _ =>
        .bind (p := Program.removeTree directory) (asks_request trivial) fun _ => trivial

end Whole

/-! ## Whole runs -/

/-- How a run shows that it was interrupted: it ends so just if the host told it of an interrupt, and
no other error that it ends with has an interrupt in it. -/
structure Surfaces (host : Host σ) (s : σ) (a : Checking α) : Prop where
  told : (exec host s a).1 = .error .interrupted ↔ Told (record host s a.run)
  bare : ∀ e, (exec host s a).1 = .error e → InPipeline e → e = .interrupted

theorem fails_interrupted_iff {result : Except PipelineError α} :
    Fails (· = .interrupted) result ↔ result = .error .interrupted := by
  simp [Fails]

theorem surfaces_of_voices {a : Checking α}
    (voices : ∀ P : PipelineError → Prop, Reading P → Voices P a) (host : Host σ) (s : σ) :
    Surfaces host s a := by
  have course := course_run host s a.run
  have told := voices _ reading_interrupted _ _ course
  have inside := voices _ reading_inside _ _ course
  rw [fails_interrupted_iff] at told
  refine ⟨told.symm, fun e failed holds => ?_⟩
  have interrupted := told.mp (inside.mpr ⟨e, failed, holds⟩)
  exact Except.error.inj (failed.symm.trans interrupted)

/-! ### Scans -/

section Scans

variable {c : Config} {supply : Supply} {xs : List Exchange}

theorem opening_voices {P : PipelineError → Prop} (reading : Reading P) (c : Config) :
    Voices P (opening c) :=
  .bind (.discreet (within_open _) fun _ => reading.other _ (by rintro ⟨⟩)) fun _ =>
    .bind (.lifted (asks_request trivial)) fun _ => .pure _

/-- A failed sum is one of the results. -/
theorem mem_of_total_error {parts : List Scan.Part} {e : PipelineError}
    (failed : Scan.total parts = .error e) : .error e ∈ parts := by
  have added (start : Scan.Part) (parts : List Scan.Part)
      (ends : parts.foldl Scan.Part.merge start = .error e) : start = .error e ∨ .error e ∈ parts := by
    induction parts generalizing start with
    | nil => exact .inl ends
    | cons part rest ih =>
      rcases ih _ ends with merged | later
      · cases start with
        | error _ => exact .inl merged
        | ok _ =>
          cases part with
          | ok _ => cases merged
          | error _ => exact .inr (merged ▸ List.mem_cons_self)
      · exact .inr (List.mem_cons_of_mem _ later)
  rcases added _ parts failed with start | among
  · cases start
  · exact among

/-- At its end a scan is told of an interrupt, and is interrupted, or comes to the sum. -/
theorem conclude_course {parts : List Scan.Part} {result : Except PipelineError Summary}
    (course : Course (conclude parts).run xs result) :
    Told xs ∧ result = .error .interrupted ∨ ¬ Told xs ∧ result = Scan.total parts := by
  change Course (.ask .isCancelled _) xs result at course
  cases course with
  | @ask _ _ cancelled ys _ after =>
    cases cancelled with
    | true =>
      obtain ⟨rfl, rfl⟩ := course_done after
      exact .inl ⟨⟨_, List.mem_singleton_self _, .asked⟩, rfl⟩
    | false =>
      have calm : ¬ Tells ⟨.isCancelled, false⟩ := by rintro ⟨⟩
      cases total : Scan.total parts with
      | error e =>
        rw [total] at after
        obtain ⟨rfl, rfl⟩ := course_done after
        exact .inr ⟨by simpa [Told] using calm, rfl⟩
      | ok s =>
        rw [total] at after
        cases after with
        | ask said ended =>
          obtain ⟨rfl, rfl⟩ := course_done ended
          refine .inr ⟨?_, rfl⟩
          rintro ⟨x, among, tells⟩
          rcases List.mem_cons.mp among with rfl | among
          · exact calm tells
          · obtain rfl := List.mem_singleton.mp among
            cases tells

/-- The errors among the results of a pool: none has anything around an interrupt, and where one is
an interrupt, its job was told of it. -/
theorem part_of_served {parts : List Scan.Part} {checks : List (Stint (Scan.pool c ⟨c.cacheRoot⟩))}
    (served : Served (Scan.pool c ⟨c.cacheRoot⟩) supply xs parts checks) {e : PipelineError}
    (failed : .error e ∈ parts) :
    (InPipeline e → e = .interrupted) ∧ (e = .interrupted → Told xs) := by
  obtain ⟨check, isCheck, result⟩ := List.mem_map.mp (served.results.mem_iff.mp failed)
  have course := check.whole
  rw [result] at course
  have told := job_voices reading_interrupted c _ check.artifact _ _ course
  have inside := job_voices reading_inside c _ check.artifact _ _ course
  rw [fails_error] at told inside
  refine ⟨fun holds => told.mp (inside.mpr holds), fun interrupted => ?_⟩
  obtain ⟨x, among, tells⟩ := told.mpr interrupted
  obtain ⟨own, -, shared⟩ := served.shared
  refine ⟨x, shared.mem_iff.mpr (List.mem_append_right _ ?_), tells⟩
  exact List.mem_flatten.mpr ⟨_, List.mem_map_of_mem isCheck, among⟩

/-- A scan that ends as interrupted was told so, and no other error that it ends with has an
interrupt in it. -/
theorem scan_course {result : Except PipelineError Summary}
    (course : Course (Scan.run c supply).run xs result) {e : PipelineError}
    (failed : result = .error e) : (InPipeline e → e = .interrupted) ∧ (e = .interrupted → Told xs) := by
  rw [run_eq, ExceptT.run_bind] at course
  obtain ⟨ys, zs, gathered, rfl, first, second⟩ := course.split
  obtain ⟨e', rfl, opened⟩ | ⟨before, us, parts, checks, rfl, rfl, -, served⟩ := gather_course first
  · obtain ⟨rfl, rfl⟩ := course_done second
    obtain rfl := Except.error.inj failed
    have told := opening_voices reading_interrupted c _ _ opened
    have inside := opening_voices reading_inside c _ _ opened
    rw [fails_error] at told inside
    rw [List.append_nil]
    exact ⟨fun holds => told.mp (inside.mpr holds), told.mpr⟩
  · obtain ⟨told, isInterrupted⟩ | ⟨-, isTotal⟩ := conclude_course second
    · obtain rfl := Except.error.inj (failed.symm.trans isInterrupted)
      exact ⟨fun _ => rfl, fun _ => told_append.mpr (.inr told)⟩
    · obtain ⟨bare, told⟩ := part_of_served served (mem_of_total_error (isTotal.symm.trans failed))
      exact ⟨bare, fun isInterrupted =>
        told_append.mpr (.inl (told_append.mpr (.inr (told isInterrupted))))⟩

/-! ### The token of a scan -/

variable {host : Host σ} {s : σ}

/-- Whether a tool is killed by an interrupt only once the token has been tripped. -/
def Killing (token : Token host) : Prop :=
  ∀ child stop s, (host (.await child stop) s).1 = Except.ok Ending.cancelled →
    token.tripped (host (.await child stop) s).2

/-- Whoever is told of an interrupt is told of the token. -/
theorem tripped_of_told {token : Token host} (killing : Killing token) (p : Program α)
    (told : Told (record host s p)) : token.tripped (p.run host s).2 := by
  induction p generalizing s with
  | done value => exact absurd told not_told_nil
  | ask request next ih =>
    obtain ⟨x, among, tells⟩ := told
    rcases List.mem_cons.mp among with rfl | later
    · show token.tripped (Program.run host (host request s).2 _).2
      refine token.run _ ?_
      generalize isAnswer : (host request s).1 = answer at tells
      cases tells with
      | asked =>
        refine token.lasting _ s ?_
        rw [← token.told s]
        exact isAnswer
      | waiting child stop => exact killing child stop s isAnswer
    · exact ih _ ⟨x, later, tells⟩

/-- A scan that was told of an interrupt by a token ends as interrupted, whatever else went wrong. -/
theorem interrupted_of_told {token : Token host} (killing : Killing token)
    (told : Told (record host s (Scan.run c supply).run)) :
    (exec host s (Scan.run c supply)).1 = .error .interrupted := by
  rw [run_eq, record_exec_bind] at told
  rw [run_eq]
  cases gathered : exec host s (gather c supply) with
  | mk result t =>
    rw [gathered] at told
    have course := course_run host s (gather c supply).run
    rw [show (Program.run host s (gather c supply).run).1 = result from congrArg Prod.fst gathered]
      at course
    cases result with
    | error e =>
      rw [exec_bind_error gathered]
      rw [List.append_nil] at told
      obtain ⟨_, same, opened⟩ | ⟨_, _, _, _, isOk, -⟩ := gather_course course
      · obtain rfl := Except.error.inj same
        have interrupted := (opening_voices reading_interrupted c _ _ opened).mp told
        rw [fails_error] at interrupted
        rw [interrupted]
      · cases isOk
    | ok parts =>
      rw [exec_bind_ok gathered]
      have concluded := conclude_course (course_run host t (conclude parts).run)
      rcases told_append.mp told with told | told
      · have tripped := tripped_of_told killing _ told
        rw [show (Program.run host s (gather c supply).run).2 = t from congrArg Prod.snd gathered]
          at tripped
        rw [exec_conclude token, if_pos tripped]
      · obtain ⟨-, isInterrupted⟩ | ⟨calm, -⟩ := concluded
        · exact isInterrupted
        · exact absurd told calm

end Scans

/-! ## Main statement -/

/-- A host on which every tool that is waited for is killed by an interrupt; its state tells whether
one was. Nothing is there to begin with. -/
def killed : Host Bool
  | .isCancelled, cut => (cut, cut)
  | .spawn .., cut => (Except.ok ⟨0⟩, cut)
  | .await .., _ => (Except.ok .cancelled, true)
  | .file (.exists _), cut => (false, cut)
  | .file (.createDirectories _), cut => (Except.ok (), cut)
  | .temporaryFile .., cut => (Except.ok "/tmp/a.bc", cut)
  | .temporaryDirectory .., cut => (Except.ok "/tmp/a", cut)
  | r, cut => ((still [] r ()).1, cut)

theorem stocked_killing : Killing stockedToken := fun _ _ _ isAnswer => by cases isAnswer

theorem stocked_interrupted :
    (exec stocked 0 (Scan.run plain ⟨[twinC], []⟩)).1 = .error .interrupted := by
  have opened : exec stocked 0 (opening plain) = (.ok ⟨plain.cacheRoot⟩, 0) := by rfl
  obtain ⟨parts, t, gathered, tripped⟩ : ∃ parts t,
      exec stocked 0 (gather plain ⟨[twinC], []⟩) = (.ok parts, t) ∧ stockedToken.tripped t := by
    unfold gather
    rw [exec_bind_ok opened, exec_lift]
    exact ⟨_, _, rfl, stockedToken.run _ rfl⟩
  rw [run_eq, exec_bind_ok gathered, exec_conclude stockedToken, if_pos tripped]

end BugHunt.Proofs.Surfacing
