import BugHunt.Proofs.Custody
import BugHunt.Proofs.Verdicts
/-!
The order of the stages. Where a call of the oracle stands follows from what it was answered, and
what it may ask follows from where it stands: the facts are generated of bitcode that was read, the
analysis is started when the fact generator has exited with 0, relations are looked at when the
analysis has, and a sentinel is written where a stage has crashed, and there only.
-/

namespace BugHunt.Proofs.StageOrder
open Asking Courses Custody Runs Oracle Verdicts

/-! ## Holds along a course -/

section Holds

variable {H : Type} {d : Discipline H}

/-- What is held after exchanges. -/
def hold (d : Discipline H) (h : H) (xs : List Exchange) : H :=
  xs.foldl (fun h x => d.after h x.request x.answer) h

/-- On a course of a program that abides by a discipline, each request may be asked by what is held
then, and at its end is held what is to be. -/
theorem abides_course {Q : α → H → Prop} {h : H} {p : Program α} {xs : List Exchange} {value : α}
    (abides : Abides d Q h p) (course : Course p xs value) :
    Q value (hold d h xs) ∧
      ∀ before x after, xs = before ++ x :: after → d.may (hold d h before) x.request := by
  induction course generalizing h with
  | done value => exact ⟨abides, fun before x after split => by simp at split⟩
  | ask answer rest ih =>
    obtain ⟨ends, asks⟩ := ih (abides.2 answer)
    refine ⟨ends, fun before x after split => ?_⟩
    cases before with
    | nil =>
      obtain ⟨rfl, rfl⟩ := List.cons.inj split
      exact abides.1
    | cons b before =>
      obtain ⟨rfl, rfl⟩ := List.cons.inj split
      exact asks before x after rfl

end Holds

/-! ## Phases -/

/-- Where a call of the oracle stands: no workspace was made so far; it was, or some file of bitcode
was read since; a tool is at work or has ended; a stage has crashed; nothing is left to be done but
to clear up; or the removal of the workspace was answered. -/
inductive Phase where
  | fresh
  | laid (w : Workspace)
  | assembling (w : Workspace) (child : Child)
  | assembled (w : Workspace)
  | prepared (w : Workspace) (bitcode : Path)
  | generating (w : Workspace) (child : Child)
  | generated (w : Workspace)
  | analysing (w : Workspace) (child : Child)
  | analysed (w : Workspace)
  | crashed (w : Workspace) (stage : Stage)
  | closing (w : Workspace)
  | cleared (w : Workspace) (answer : Except Failure Unit)

namespace Phase

/-- The workspace, where no bitcode was read and no tool is at work. -/
def unread? : Phase → Option Workspace
  | laid w | assembled w => some w
  | _ => none

/-- The workspace, where no tool is at work and no sentinel is due. -/
def settled? : Phase → Option Workspace
  | laid w | assembled w | prepared w _ | generated w | analysed w | closing w => some w
  | _ => none

/-- Where a call stands after an answer. -/
def after : Phase → (r : Request) → r.Answer → Phase
  | fresh, .temporaryDirectory .., .ok root => laid ⟨root⟩
  | laid w, .spawn .., .ok child => assembling w child
  | assembling w _, .await .., _ => assembled w
  | laid w, .file (.read path), .ok content => if isBitcode content then prepared w path else laid w
  | assembled w, .file (.read path), .ok content =>
    if isBitcode content then prepared w path else assembled w
  | prepared w _, .spawn .., .ok child => generating w child
  | generating w _, .await .., .ok (.exited status) =>
    if status.isSuccess then generated w else crashed w .factGeneration
  | generating w _, .await .., _ => closing w
  | generated w, .spawn .., .ok child => analysing w child
  | analysing w _, .await .., .ok (.exited status) =>
    if status.isSuccess then analysed w else crashed w .analysis
  | analysing w _, .await .., _ => closing w
  | crashed w _, .file (.write ..), _ => closing w
  | phase, .file (.removeTree _), answer => (phase.settled?.map (cleared · answer)).getD phase
  | phase, _, _ => phase

theorem settled_of_unread {phase : Phase} {w : Workspace} (unread : phase.unread? = some w) :
    phase.settled? = some w := by
  cases phase <;> first | exact unread | cases unread

end Phase

/-- Requests that are about a tool at work, or about nothing but the log. -/
inductive Aside : Request → Prop
  | isCancelled : Aside .isCancelled
  | log (line : LogLine) : Aside (.log line)
  | terminate (child : Child) : Aside (.terminate child)
  | collect (child : Child) : Aside (.collect child)

/-- The call that assembles textual IR. -/
def assembling (c : Config) (irPath : Path) (w : Workspace) : Command :=
  Command.ofProgram c.tools.llvmAs |>.path irPath |>.text "-o"
    |>.path (w.root / s!"{Plan.stemOf irPath}.bc")

/-- The path of the sentinel of a stage that crashed. -/
def sentinelPath (irPath : Path) (stage : Stage) : Path := irPath.withExtension stage.sentinelExtension

/-- What may be asked by where a call stands. -/
inductive May (c : Config) (irPath : Path) : Phase → Request → Prop
  | aside {phase : Phase} {r : Request} (aside : Aside r) : May c irPath phase r
  | makesWorkspace : May c irPath .fresh (.temporaryDirectory irPath.name ".scratch")
  | makesFacts (w : Workspace) : May c irPath (.laid w) (.file (.createDirectory w.facts))
  | makesResults (w : Workspace) : May c irPath (.laid w) (.file (.createDirectory w.results))
  | makesRoot (w : Workspace) : May c irPath (.laid w) (.file (.createDirectories w.root))
  | assembles (w : Workspace) (memory : Option Nat) :
    May c irPath (.laid w) (.spawn (assembling c irPath w) memory)
  | awaitsAssembler (w : Workspace) (child : Child) (stop : Observation → Option Ending) :
    May c irPath (.assembling w child) (.await child stop)
  | readsBitcode {phase : Phase} {w : Workspace} (unread : phase.unread? = some w) (path : Path) :
    May c irPath phase (.file (.read path))
  | generates (w : Workspace) (bitcode : Path) (memory : Option Nat) :
    May c irPath (.prepared w bitcode) (.spawn (factCommand c w bitcode) memory)
  | awaitsFacts (w : Workspace) (child : Child) (stop : Observation → Option Ending) :
    May c irPath (.generating w child) (.await child stop)
  | analyses (w : Workspace) (memory : Option Nat) :
    May c irPath (.generated w) (.spawn (analysisCommand c w) memory)
  | awaitsAnalysis (w : Workspace) (child : Child) (stop : Observation → Option Ending) :
    May c irPath (.analysing w child) (.await child stop)
  | looks (w : Workspace) {relation : String} (among : relation ∈ c.assertions) :
    May c irPath (.analysed w) (.file (.isFile (w.results / relation)))
  | reads (w : Workspace) {relation : String} (among : relation ∈ c.assertions) :
    May c irPath (.analysed w) (.file (.read (w.results / relation)))
  | writes (w : Workspace) (stage : Stage) (content : Bytes) :
    May c irPath (.crashed w stage) (.file (.write (sentinelPath irPath stage) content))
  | removes {phase : Phase} {w : Workspace} (settled : phase.settled? = some w) :
    May c irPath phase (.file (.removeTree w.root))

variable {c : Config} {irPath : Path} {w : Workspace}

def discipline (c : Config) (irPath : Path) : Discipline Phase where
  may := May c irPath
  after := Phase.after

@[simp] theorem after_aside (phase : Phase) {r : Request} (aside : Aside r) (answer : r.Answer) :
    phase.after r answer = phase := by
  cases aside <;> cases phase <;> rfl

theorem aside_heeds {Q : Except ε α → Phase → Prop} {phase : Phase} {r : Request}
    {f : r.Answer → Action ε α} (aside : Aside r)
    (next : ∀ answer, Heeds (discipline c irPath) Q phase (f answer)) :
    Heeds (discipline c irPath) Q phase (monadLift (Program.request r) >>= f) :=
  .asks (.aside aside) fun answer => by
    rw [show (discipline c irPath).after phase r answer = phase from after_aside phase aside answer]
    exact next answer

/-! ## Calls of tools -/

/-- A call of a tool between phases: before it, with the tool at work, and after each way to end. -/
structure Call (c : Config) (irPath : Path) (command : Command) (memory : Option Nat)
    (before : Phase) (working : Child → Phase) (passed failed called : Phase) : Prop where
  starts : May c irPath before (.spawn command memory)
  started (child : Child) : before.after (.spawn command memory) (.ok child) = working child
  declined (cause : Failure) : before.after (.spawn command memory) (.error cause) = before
  awaits (child : Child) (stop : Observation → Option Ending) :
    May c irPath (working child) (.await child stop)
  exited (child : Child) (stop : Observation → Option Ending) (status : Status) :
    (working child).after (.await child stop) (.ok (.exited status)) =
      if status.isSuccess then passed else failed
  stopped (child : Child) (stop : Observation → Option Ending) (answer : Except Failure Ending)
    (other : ∀ status, answer ≠ .ok (.exited status)) :
    (working child).after (.await child stop) answer = called

/-- Where a call of a tool leaves off. -/
def Ran (before passed failed called : Phase) : Except RunError Outcome → Phase → Prop
  | .ok (.completed _), phase => phase = passed
  | .ok (.failed _), phase => phase = failed
  | .ok .timedOut, phase => phase = called
  | .error _, phase => phase = before ∨ phase = called

theorem run_heeds {command : Command} {memory limit : Option Nat} {before passed failed called : Phase}
    {working : Child → Phase} (call : Call c irPath command memory before working passed failed called) :
    Heeds (discipline c irPath) (Ran before passed failed called) before (command.run memory limit) := by
  unfold Command.run
  refine aside_heeds .isCancelled fun cancelled => ?_
  cases cancelled with
  | true => exact .inl rfl
  | false =>
    refine .tries ⟨call.starts, fun (spawned : Except Failure Child) => ?_⟩
    cases spawned with
    | error cause => exact .inl (call.declined cause)
    | ok child =>
      show Tried (discipline c irPath) _ _ _ _ (before.after _ _)
      rw [call.started]
      refine Heeds.asks (call.awaits child _) fun (ending : Except Failure Ending) => ?_
      show Heeds _ _ ((working child).after _ _) _
      cases ending with
      | error cause =>
        rw [call.stopped child _ _ fun _ same => by cases same]
        exact aside_heeds (.collect child) fun _ => .inr rfl
      | ok ending =>
        cases ending with
        | exited status =>
          rw [call.exited]
          refine aside_heeds (.collect child) fun (streams : Bytes × Bytes) => ?_
          show Ran _ _ _ _ (.ok (Command.outcomeOf status streams)) _
          unfold Command.outcomeOf
          split
          · exact rfl
          · exact rfl
        | cancelled =>
          rw [call.stopped child _ _ fun _ same => by cases same]
          exact aside_heeds (.terminate child) fun _ => aside_heeds (.collect child) fun _ => .inr rfl
        | timedOut =>
          rw [call.stopped child _ _ fun _ same => by cases same]
          exact aside_heeds (.log _) fun _ => aside_heeds (.terminate child) fun _ =>
            aside_heeds (.collect child) fun _ => rfl

theorem call_assembler (memory : Option Nat) : Call c irPath (assembling c irPath w) memory
    (.laid w) (.assembling w) (.assembled w) (.assembled w) (.assembled w) where
  starts := .assembles w memory
  started _ := rfl
  declined _ := rfl
  awaits := .awaitsAssembler w
  exited _ _ status := by cases status.isSuccess <;> rfl
  stopped _ _ answer _ := by cases answer <;> rfl

theorem call_facts (bitcode : Path) (memory : Option Nat) :
    Call c irPath (factCommand c w bitcode) memory (.prepared w bitcode) (.generating w) (.generated w)
      (.crashed w .factGeneration) (.closing w) where
  starts := .generates w bitcode memory
  started _ := rfl
  declined _ := rfl
  awaits := .awaitsFacts w
  exited _ _ _ := rfl
  stopped child stop answer other := by
    rcases answer with cause | status | _ | _
    · rfl
    · exact absurd rfl (other status)
    · rfl
    · rfl

theorem call_analysis (memory : Option Nat) :
    Call c irPath (analysisCommand c w) memory (.generated w) (.analysing w) (.analysed w)
      (.crashed w .analysis) (.closing w) where
  starts := .analyses w memory
  started _ := rfl
  declined _ := rfl
  awaits := .awaitsAnalysis w
  exited _ _ _ := rfl
  stopped child stop answer other := by
    rcases answer with cause | status | _ | _
    · rfl
    · exact absurd rfl (other status)
    · rfl
    · rfl

/-! ## Within a workspace -/

/-- Whether a call has ended because no workspace could be made. -/
def Unmade (result : Except OracleError α) : Prop := ∃ cause, result = .error (.workspace cause)

/-- How a call within a workspace ends: with no sentinel due, and with no error about the workspace
itself. -/
def Settled (w : Workspace) (result : Except OracleError α) (phase : Phase) : Prop :=
  phase.settled? = some w ∧ ¬ Unmade result

theorem Settled.ok {phase : Phase} {value : α} (settled : phase.settled? = some w) :
    Settled w (.ok value) phase := ⟨settled, nofun⟩

theorem Settled.error {phase : Phase} {e : OracleError}
    (settled : Settled w (.error e : Except OracleError α) phase) :
    Settled w (.error e : Except OracleError β) phase := by
  refine ⟨settled.1, ?_⟩
  rintro ⟨cause, same⟩
  cases same
  exact settled.2 ⟨cause, rfl⟩

/-- Where preparing bitcode leaves off. -/
def Assembled (w : Workspace) : Except CompileError Path → Phase → Prop
  | .ok bitcode, phase => phase = .prepared w bitcode
  | .error _, phase => phase.settled? = some w

theorem after_read {phase : Phase} (unread : phase.unread? = some w) (path : Path)
    (content : Except Failure Bytes) : phase.after (.file (.read path)) content =
      if content.toOption.any isBitcode then .prepared w path else phase := by
  cases phase <;> cases unread <;> cases content <;> rfl

theorem looksLikeBitcode_abides {phase : Phase} (unread : phase.unread? = some w) (path : Path) :
    Abides (discipline c irPath) (fun found after => after = if found then .prepared w path else phase)
      phase (Compile.looksLikeBitcode path) := by
  refine Abides.request (.readsBitcode unread path) fun (content : Except Failure Bytes) => ?_
  have stands := after_read unread path content
  cases content with
  | error cause => exact stands
  | ok content => exact stands

theorem convert_heeds : Heeds (discipline c irPath) (fun _ phase => phase.unread? = some w) (.laid w)
    (Compile.convert c c.tools.llvmAs irPath (w.root / s!"{Plan.stemOf irPath}.bc")) := by
  refine .bind (.adapt ((run_heeds (call_assembler _)).mono fun result phase ran => ?_))
  rcases result with e | (out | out | _)
  · rcases ran with rfl | rfl
    · exact rfl
    · exact rfl
  · obtain rfl : phase = .assembled w := ran
    exact rfl
  · obtain rfl : phase = .assembled w := ran
    exact rfl
  · obtain rfl : phase = .assembled w := ran
    exact rfl

theorem assemble_heeds :
    Heeds (discipline c irPath) (Assembled w) (.laid w) (Compile.assemble c irPath w.root) := by
  have checks {phase : Phase} (unread : phase.unread? = some w) (output : Path) :
      Heeds (discipline c irPath) (Assembled w) phase (do
        if !(← Compile.looksLikeBitcode output) then
          throw (.notBitcode c.tools.llvmAs.display output)
        return output) := by
    refine .bind (.lifted ((looksLikeBitcode_abides unread output).mono fun found phase stands => ?_))
    subst stands
    cases found
    · exact Phase.settled_of_unread unread
    · exact rfl
  unfold Compile.assemble
  cases Kind.ofPath? irPath with
  | none => exact .throw_bind rfl
  | some kind =>
    cases kind with
    | binaryIr => exact checks rfl irPath
    | textIr =>
      refine .tries ⟨.makesRoot w, fun (made : Except Failure Unit) => ?_⟩
      cases made with
      | error cause => exact rfl
      | ok value =>
        refine .bind (convert_heeds.mono fun result phase unread => ?_)
        cases result with
        | error e => exact Phase.settled_of_unread unread
        | ok value => exact checks unread _
    | cSource | cxxSource => exact .throw_bind rfl

theorem firstMissing_abides {relations : List String} (all : ∀ r ∈ relations, r ∈ c.assertions) :
    Abides (discipline c irPath) (fun _ phase => phase = .analysed w) (.analysed w)
      (Relations.firstMissing w.results relations) := by
  induction relations with
  | nil => exact rfl
  | cons relation rest ih =>
    rw [List.forall_mem_cons] at all
    refine .request (.looks w all.1) fun (found : Bool) => ?_
    cases found with
    | true => exact ih all.2
    | false => exact rfl

theorem firstViolated_heeds {relations : List String} (all : ∀ r ∈ relations, r ∈ c.assertions) :
    Heeds (discipline c irPath) (Settled w) (.analysed w)
      (Relations.firstViolated w.results relations) := by
  induction relations with
  | nil => exact .ok rfl
  | cons relation rest ih =>
    rw [List.forall_mem_cons] at all
    refine .tries ⟨.reads w all.1, fun (content : Except Failure Bytes) => ?_⟩
    cases content with
    | error cause => exact ⟨rfl, nofun⟩
    | ok content =>
      show Tried (discipline c irPath) _ _ _ (.ok content) (Phase.analysed w)
      dsimp only [Tried]
      cases Gzip.firstRead content with
      | error cause => exact ⟨rfl, nofun⟩
      | ok found =>
        cases found with
        | some byte => exact .ok rfl
        | none => exact ih all.2

theorem scan_heeds : Heeds (discipline c irPath) (Settled w) (.analysed w)
    (Relations.scan c.assertions w.results) := by
  refine .bind (.lifted ((firstMissing_abides fun _ among => among).mono fun found phase stands => ?_))
  subst stands
  cases found with
  | none => exact firstViolated_heeds fun _ among => among
  | some relation => exact ⟨rfl, nofun⟩

/-- Where a stage leaves off. -/
def Staged (w : Workspace) (passed failed called : Phase) : Except OracleError StageResult → Phase → Prop
  | .ok .succeeded, phase => phase = passed
  | .ok (.crashed _), phase => phase = failed
  | .ok .timedOut, phase => phase = called
  | .error e, phase => Settled w (.error e : Except OracleError StageResult) phase

theorem stage_heeds {command : Command} {before passed failed called : Phase} {working : Child → Phase}
    (call : Call c irPath command c.memoryLimit before working passed failed called)
    (first : before.settled? = some w) (last : called.settled? = some w) :
    Heeds (discipline c irPath) (Staged w passed failed called) before (runStage c command) := by
  refine .bind (.adapt ((run_heeds call).mono fun result phase ran => ?_))
  rcases result with e | (out | out | _)
  · rcases ran with rfl | rfl
    · exact ⟨first, nofun⟩
    · exact ⟨last, nofun⟩
  · exact ran
  · exact ran
  · exact ran

theorem crash_heeds (stage : Stage) (tool : Path) (crash timeout : String) (output : Output) :
    Heeds (discipline c irPath) (Settled w) (.crashed w stage)
      (reportTrouble irPath tool stage crash timeout (.crashed output)) := by
  refine aside_heeds (.log _) fun _ => aside_heeds (.log _) fun _ => .bind (.tries ⟨?_, ?_⟩)
  · exact .writes w stage _
  · rintro (cause | ⟨⟩)
    · exact ⟨rfl, nofun⟩
    · exact .ok rfl

theorem timeout_heeds (stage : Stage) (tool : Path) (crash timeout : String) :
    Heeds (discipline c irPath) (Settled w) (.closing w)
      (reportTrouble irPath tool stage crash timeout .timedOut) :=
  .lifted ⟨.aside (.log _), fun _ => .ok rfl⟩

/-- Nothing is asked between the end of an action and the verdict that is made of it. -/
theorem settled_return {a : Judging α} {g : α → β} {phase : Phase}
    (heeds : Heeds (discipline c irPath) (Settled w) phase a) :
    Heeds (discipline c irPath) (Settled w) phase (a >>= fun value => pure (g value)) := by
  refine .bind (heeds.mono fun result phase settled => ?_)
  cases result with
  | error e => exact settled.error
  | ok value => exact .ok settled.1

theorem classifyIn_heeds :
    Heeds (discipline c irPath) (Settled w) (.laid w) (classifyIn c w irPath) := by
  refine .bind (.adapt (assemble_heeds.mono fun result phase assembled => ?_))
  cases result with
  | error e => exact ⟨assembled, nofun⟩
  | ok bitcode =>
    obtain rfl : phase = .prepared w bitcode := assembled
    refine .bind ((stage_heeds (call_facts bitcode _) rfl rfl).mono fun result phase staged => ?_)
    rcases result with e | (_ | output | _)
    · exact staged.error
    · obtain rfl : phase = .generated w := staged
      refine .bind ((stage_heeds (call_analysis _) rfl rfl).mono fun result phase staged => ?_)
      rcases result with e | (_ | output | _)
      · exact staged.error
      · obtain rfl : phase = .analysed w := staged
        exact settled_return scan_heeds
      · obtain rfl : phase = .crashed w .analysis := staged
        exact settled_return (crash_heeds .analysis _ _ _ output)
      · obtain rfl : phase = .closing w := staged
        exact settled_return (timeout_heeds .analysis _ _ _)
    · obtain rfl : phase = .crashed w .factGeneration := staged
      exact settled_return (crash_heeds .factGeneration _ _ _ output)
    · obtain rfl : phase = .closing w := staged
      exact settled_return (timeout_heeds .factGeneration _ _ _)

theorem after_removeTree {phase : Phase} (settled : phase.settled? = some w) (path : Path)
    (answer : Except Failure Unit) : phase.after (.file (.removeTree path)) answer = .cleared w answer := by
  cases phase <;> cases settled <;> rfl

/-- A workspace that is not to be kept is cleared. -/
def Discarded (w : Workspace) (phase : Phase) (retain : Bool) (after : Phase) : Prop :=
  if retain then after = phase else ∃ answer, after = .cleared w answer

theorem discard_abides (retain : Bool) {phase : Phase} (settled : phase.settled? = some w) :
    Abides (discipline c irPath) (fun _ => Discarded w phase retain) phase (w.discard retain) := by
  unfold Workspace.discard
  cases retain with
  | true => exact rfl
  | false => exact ⟨.removes settled, fun answer => ⟨answer, after_removeTree settled w.root answer⟩⟩

/-- Where making a workspace leaves off. -/
def Created : Except Failure Workspace → Phase → Prop
  | .ok w, phase => phase = .laid w
  | .error _, phase => phase = .fresh ∨ ∃ w answer, phase = .cleared w answer

theorem create_heeds :
    Heeds (discipline c irPath) Created .fresh (Workspace.create irPath.name) := by
  refine .tries ⟨.makesWorkspace, fun (made : Except Failure Path) => ?_⟩
  cases made with
  | error cause => exact .inl rfl
  | ok root =>
    refine Heeds.bind (Heeds.cleaningUp (.tries ⟨.makesFacts ⟨root⟩,
      fun (made : Except Failure Unit) => ?_⟩))
    have discards (cause : Failure) : Abides (discipline c irPath) (fun _ => Onward (discipline c irPath)
        Created (fun _ : Unit => pure ⟨root⟩) (.error cause)) (.laid ⟨root⟩)
        (Workspace.discard false ⟨root⟩) :=
      (discard_abides false rfl).mono fun _ phase discarded => .inr ⟨⟨root⟩, discarded⟩
    cases made with
    | error cause => exact discards cause
    | ok value =>
      refine .orFail ⟨.makesResults ⟨root⟩, fun (made : Except Failure Unit) => ?_⟩
      cases made with
      | error cause => exact discards cause
      | ok value => exact rfl

/-- Where a call of the oracle leaves off: no workspace was made; or its removal was answered, which
debugging asks for only where not all of it could be made; or it is kept for debugging. -/
inductive Ended (c : Config) (result : Except OracleError α) : Phase → Prop
  | fresh (unmade : Unmade result) : Ended c result .fresh
  | cleared (w : Workspace) (answer : Except Failure Unit) (debugging : c.debug → Unmade result) :
    Ended c result (.cleared w answer)
  | kept {phase : Phase} {w : Workspace} (settled : phase.settled? = some w) (debugging : c.debug)
    (made : ¬ Unmade result) : Ended c result phase

theorem Ended.not_crashed {result : Except OracleError α} {phase : Phase} (ended : Ended c result phase)
    (w : Workspace) (stage : Stage) : phase ≠ .crashed w stage := by
  rintro rfl
  cases ended with
  | kept settled => cases settled

theorem classify_heeds :
    Heeds (discipline c irPath) (Ended c) .fresh (classify c irPath) := by
  refine .bind (.adapt (create_heeds.mono fun result phase created => ?_))
  cases result with
  | error e =>
    have unmade : Unmade (.error (.workspace e) : Except OracleError Classification) := ⟨e, rfl⟩
    rcases created with rfl | ⟨w, answer, rfl⟩
    · exact .fresh unmade
    · exact .cleared w answer fun _ => unmade
  | ok w =>
    obtain rfl : phase = .laid w := created
    refine .cleaningUp (classifyIn_heeds.mono fun result phase settled => ?_)
    refine (discard_abides c.debug settled.1).mono fun _ after discarded => ?_
    cases debugging : c.debug with
    | true =>
      obtain rfl : after = phase := by simpa [Discarded, debugging] using discarded
      exact .kept settled.1 debugging settled.2
    | false =>
      obtain ⟨answer, rfl⟩ : ∃ answer, after = .cleared w answer := by
        simpa [Discarded, debugging] using discarded
      exact .cleared w answer fun absurd => by simp [debugging] at absurd

/-! ## Verdicts and order -/

/-- Where a call stands after exchanges. -/
def standing (xs : List Exchange) : Phase := xs.foldl (fun phase x => phase.after x.request x.answer) .fresh

/-- A call of the oracle comes to a verdict if and only if its record spells out what calls for it;
no record calls for "uncompilable", and any other call ends in an error. Whatever it comes to, each
request is one that may be asked by what was answered before, and at its end no sentinel is due. -/
theorem classify_accounted (host : Host σ) (s : σ) (c : Config) (irPath : Path) :
    let result := (exec host s (classify c irPath)).1
    let xs := record host s (classify c irPath).run
    (∀ verdict, result = .ok verdict ↔ Concludes c irPath verdict xs) ∧
      result ≠ .ok .uncompilable ∧
      ((∃ e, result = .error e) ↔ ∀ verdict, ¬ Concludes c irPath verdict xs) ∧
      (∀ before x after, xs = before ++ x :: after → May c irPath (standing before) x.request) ∧
      ∀ w stage, standing xs ≠ .crashed w stage := by
  intro result xs
  have verdicts (verdict : Classification) : result = .ok verdict ↔ Concludes c irPath verdict xs :=
    exec_classify_iff host s
  obtain ⟨ends, asks⟩ := abides_course classify_heeds (course_run host s (classify c irPath).run)
  refine ⟨verdicts, ?_, ?_, asks, Ended.not_crashed ends⟩
  · intro uncompilable
    exact not_uncompilable ((verdicts _).mp uncompilable)
  · constructor
    · rintro ⟨e, failed⟩ verdict concludes
      cases failed.symm.trans ((verdicts verdict).mpr concludes)
    · intro none
      cases ended : result with
      | error e => exact ⟨e, rfl⟩
      | ok verdict => exact absurd ((verdicts verdict).mp ended) (none verdict)

end BugHunt.Proofs.StageOrder
