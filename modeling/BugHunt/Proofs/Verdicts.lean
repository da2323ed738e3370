import BugHunt.Oracle
import BugHunt.Proofs.Courses
/-!
What leads to a verdict. A verdict is spelled out as what was asked and answered on the way to it:
how the tools were run and ended, what was found of the relations, and that the sentinel of a crash
could be written. An answer that leads nowhere of this leads to an error.
-/

namespace BugHunt.Proofs.Verdicts
open Courses Oracle Runs

/-- Whether the answers of an exchange lead an action to a value. -/
def Leads (a : Action ε α) (xs : List Exchange) (value : α) : Prop := Course a.run xs (.ok value)

/-! ## Rules -/

section Rules

variable {xs : List Exchange} {a : Action ε α} {f : α → Action ε β}

theorem course_pure {value result : α} :
    Course (pure value : Program α) xs result ↔ xs = [] ∧ result = value := by
  constructor
  · exact course_done
  · rintro ⟨rfl, rfl⟩
    exact .done _

theorem course_request_iff {r : Request} {answer : r.Answer} :
    Course (Program.request r) xs answer ↔ xs = [⟨r, answer⟩] := by
  constructor
  · exact course_request
  · rintro rfl
    exact .ask answer (.done answer)

theorem course_bind {p : Program α} {g : α → Program β} {result : β} :
    Course (p >>= g) xs result ↔
      ∃ ys zs value, xs = ys ++ zs ∧ Course p ys value ∧ Course (g value) zs result := by
  constructor
  · exact Course.split
  · rintro ⟨ys, zs, value, rfl, first, second⟩
    exact first.bind second

/-- The exchanges settle the value. -/
theorem course_unique {p : Program α} {value other : α} (course : Course p xs value)
    (also : Course p xs other) : value = other := by
  induction course with
  | done value => exact (course_done also).2.symm
  | ask answer rest ih =>
    cases also with
    | ask _ rest' => exact ih rest'

theorem leads_pure {value result : α} :
    Leads (pure value : Action ε α) xs result ↔ xs = [] ∧ result = value := by
  unfold Leads
  rw [show (pure value : Action ε α).run = (pure (.ok value) : Program _) from rfl, course_pure,
    Except.ok.injEq]

theorem not_leads_throw (e : ε) (value : α) : ¬ Leads (throw e : Action ε α) xs value := by
  intro leads
  cases (course_done leads).2

theorem not_leads_throw_bind (e : ε) (value : β) :
    ¬ Leads (MonadExcept.throw e >>= f) xs value := by
  intro leads
  cases (course_done leads).2

theorem leads_bind {result : β} :
    Leads (a >>= f) xs result ↔
      ∃ ys zs value, xs = ys ++ zs ∧ Leads a ys value ∧ Leads (f value) zs result := by
  unfold Leads
  rw [ExceptT.run_bind, course_bind]
  constructor
  · rintro ⟨ys, zs, answer, split, first, second⟩
    cases answer with
    | ok value => exact ⟨ys, zs, value, split, first, second⟩
    | error e => cases (course_done second).2
  · rintro ⟨ys, zs, value, split, first, second⟩
    exact ⟨ys, zs, .ok value, split, first, second⟩

theorem Leads.bind {ys : List Exchange} {value : α} {result : β} (first : Leads a xs value)
    (second : Leads (f value) ys result) : Leads (a >>= f) (xs ++ ys) result :=
  leads_bind.mpr ⟨xs, ys, value, rfl, first, second⟩

theorem leads_adapt {g : ε → φ} {value : α} : Leads (a.adapt g) xs value ↔ Leads a xs value := by
  show Course (a.run >>= fun result => pure (result.mapError g)) xs _ ↔ _
  rw [course_bind]
  constructor
  · rintro ⟨ys, zs, result, rfl, first, second⟩
    obtain ⟨rfl, same⟩ := course_pure.mp second
    rw [List.append_nil]
    cases result with
    | ok value =>
      obtain rfl := Except.ok.inj same
      exact first
    | error e => cases same
  · intro leads
    exact ⟨xs, [], .ok value, (List.append_nil xs).symm, leads, .done _⟩

theorem leads_orFail {p : Program (Except φ α)} {toError : φ → ε} {value : α} :
    Leads (Action.orFail p toError) xs value ↔ Course p xs (.ok value) := by
  unfold Leads Action.orFail
  rw [ExceptT.run_mk, course_bind]
  constructor
  · rintro ⟨ys, zs, answer, rfl, first, second⟩
    cases answer with
    | ok value =>
      obtain ⟨rfl, same⟩ := course_pure.mp second
      obtain rfl := Except.ok.inj same
      rw [List.append_nil]
      exact first
    | error failure => cases (course_pure.mp second).2
  · intro course
    exact ⟨xs, [], .ok value, (List.append_nil xs).symm, course, .done _⟩

theorem leads_lift {p : Program α} {value : α} :
    Leads (monadLift p : Action ε α) xs value ↔ Course p xs value := by
  show Course (p >>= fun value => pure (Except.ok value)) xs _ ↔ _
  rw [course_bind]
  constructor
  · rintro ⟨ys, zs, result, rfl, first, second⟩
    obtain ⟨rfl, same⟩ := course_pure.mp second
    obtain rfl := Except.ok.inj same
    rw [List.append_nil]
    exact first
  · intro course
    exact ⟨xs, [], value, (List.append_nil xs).symm, course, .done _⟩

theorem leads_cleaningUp {cleanup : Except ε α → Program Unit} {value : α} :
    Leads (a.cleaningUp cleanup) xs value ↔
      ∃ ys zs, xs = ys ++ zs ∧ Leads a ys value ∧ Course (cleanup (.ok value)) zs () := by
  show Course (a.run >>= fun result => cleanup result >>= fun _ => pure result) xs _ ↔ _
  rw [course_bind]
  constructor
  · rintro ⟨ys, zs, result, rfl, first, second⟩
    obtain ⟨zs, rest, ⟨⟩, rfl, cleaned, third⟩ := course_bind.mp second
    obtain ⟨rfl, rfl⟩ := course_pure.mp third
    rw [List.append_nil]
    exact ⟨ys, zs, rfl, first, cleaned⟩
  · rintro ⟨ys, zs, rfl, leads, cleaned⟩
    exact ⟨ys, zs, _, rfl, leads,
      course_bind.mpr ⟨zs, [], (), (List.append_nil zs).symm, cleaned, .done _⟩⟩

/-- An action that asks first for something that cannot fail. -/
theorem leads_asks {r : Request} {f : r.Answer → Action ε β} {result : β} :
    Leads (monadLift (Program.request r) >>= f) xs result ↔
      ∃ answer ys, xs = ⟨r, answer⟩ :: ys ∧ Leads (f answer) ys result := by
  rw [leads_bind]
  constructor
  · rintro ⟨ys, zs, answer, rfl, first, second⟩
    obtain rfl := course_request (leads_lift.mp first)
    exact ⟨answer, zs, rfl, second⟩
  · rintro ⟨answer, ys, rfl, leads⟩
    exact ⟨[⟨r, answer⟩], ys, answer, rfl, leads_lift.mpr (course_request_iff.mpr rfl), leads⟩

/-- An action that begins with something that may fail. -/
theorem leads_tries {p : Program (Except φ α)} {toError : φ → ε} {result : β} :
    Leads (Action.orFail p toError >>= f) xs result ↔
      ∃ ys zs value, xs = ys ++ zs ∧ Course p ys (.ok value) ∧ Leads (f value) zs result := by
  simp only [leads_bind, leads_orFail]

/-- An action whose value is made of another's. -/
theorem leads_return {g : α → β} {result : β} :
    Leads (a >>= fun value => pure (g value)) xs result ↔
      ∃ value, Leads a xs value ∧ result = g value := by
  rw [leads_bind]
  constructor
  · rintro ⟨ys, zs, value, rfl, leads, ended⟩
    obtain ⟨rfl, rfl⟩ := leads_pure.mp ended
    rw [List.append_nil]
    exact ⟨value, leads, rfl⟩
  · rintro ⟨value, leads, rfl⟩
    exact ⟨xs, [], value, (List.append_nil xs).symm, leads, leads_pure.mpr ⟨rfl, rfl⟩⟩

end Rules

/-! ## Tools -/

/-- When the oracle stops waiting for a tool. -/
def patience (c : Config) : Observation → Option Ending :=
  Observation.ending? (some (1000 * c.analysisTimeout))

/-- A tool is run and ends by itself. -/
def exits (c : Config) (command : Command) (child : Child) (status : Status)
    (streams : Bytes × Bytes) : List Exchange :=
  [⟨.isCancelled, false⟩, ⟨.spawn command c.memoryLimit, .ok child⟩,
    ⟨.await child (patience c), .ok (.exited status)⟩, ⟨.collect child, streams⟩]

/-- A tool is run until its time is over. -/
def overruns (c : Config) (command : Command) (child : Child) (streams : Bytes × Bytes) :
    List Exchange :=
  [⟨.isCancelled, false⟩, ⟨.spawn command c.memoryLimit, .ok child⟩,
    ⟨.await child (patience c), .ok .timedOut⟩,
    ⟨.log ⟨.warn, s!"Process {child.id} timed out, killing"⟩, ()⟩, ⟨.terminate child, ()⟩,
    ⟨.collect child, streams⟩]

variable {c : Config} {xs : List Exchange}

theorem leads_run {command : Command} {outcome : Outcome} :
    Leads (command.run c.memoryLimit (some c.analysisTimeout)) xs outcome ↔
      (∃ child status streams, xs = exits c command child status streams ∧
        outcome = Command.outcomeOf status streams) ∨
      ∃ child streams, xs = overruns c command child streams ∧ outcome = .timedOut := by
  constructor
  · intro leads
    unfold Command.run at leads
    obtain ⟨cancelled, ys, rfl, goesOn⟩ := leads_asks.mp leads
    cases cancelled with
    | true => exact (not_leads_throw_bind _ _ goesOn).elim
    | false =>
      obtain ⟨ys, zs, child, rfl, spawned, started⟩ := leads_tries.mp goesOn
      obtain rfl := course_request spawned
      obtain ⟨ending, ys, rfl, waited⟩ := leads_asks.mp started
      cases ending with
      | error cause =>
        obtain ⟨streams, ys, rfl, ended⟩ := leads_asks.mp waited
        exact (not_leads_throw _ _ ended).elim
      | ok ending =>
        cases ending with
        | exited status =>
          obtain ⟨streams, ys, rfl, ended⟩ := leads_asks.mp waited
          obtain ⟨rfl, rfl⟩ := leads_pure.mp ended
          exact .inl ⟨child, status, streams, rfl, rfl⟩
        | cancelled =>
          obtain ⟨-, ys, rfl, killed⟩ := leads_asks.mp waited
          obtain ⟨streams, ys, rfl, ended⟩ := leads_asks.mp killed
          exact (not_leads_throw _ _ ended).elim
        | timedOut =>
          obtain ⟨⟨⟩, ys, rfl, warned⟩ := leads_asks.mp waited
          obtain ⟨⟨⟩, ys, rfl, killed⟩ := leads_asks.mp warned
          obtain ⟨streams, ys, rfl, ended⟩ := leads_asks.mp killed
          obtain ⟨rfl, rfl⟩ := leads_pure.mp ended
          exact .inr ⟨child, streams, rfl, rfl⟩
  · rintro (⟨child, status, streams, rfl, rfl⟩ | ⟨child, streams, rfl, rfl⟩)
    · exact .ask _ (.ask _ (.ask _ (.ask _ (.done _))))
    · exact .ask _ (.ask _ (.ask _ (.ask _ (.ask _ (.ask _ (.done _))))))

/-! ## Relations -/

/-- The relations are there. -/
def present (directory : Path) (relations : List String) : List Exchange :=
  relations.map fun relation : String => ⟨.file (.isFile (directory / relation)), true⟩

/-- Relations are read that hold nothing. -/
inductive Empty (directory : Path) : List String → List Exchange → Prop
  | nil : Empty directory [] []
  | cons {relation : String} {content : Bytes} {relations : List String} {xs : List Exchange}
    (empty : Gzip.firstRead content = .ok none) (rest : Empty directory relations xs) :
    Empty directory (relation :: relations)
      (⟨.file (.read (directory / relation)), .ok content⟩ :: xs)

theorem course_firstMissing {directory : Path} {relations : List String} :
    Course (Relations.firstMissing directory relations) xs none ↔ xs = present directory relations := by
  induction relations generalizing xs with
  | nil =>
    rw [Relations.firstMissing, course_pure]
    simp [present]
  | cons relation rest ih =>
    unfold Relations.firstMissing
    rw [course_bind]
    constructor
    · rintro ⟨ys, zs, found, rfl, looked, later⟩
      obtain rfl := course_request looked
      cases found with
      | true => rw [ih.mp later]; rfl
      | false => cases (course_pure.mp later).2
    · rintro rfl
      exact ⟨_, _, true, rfl, course_request_iff.mpr rfl, ih.mpr rfl⟩

/-- A scan that finds nothing has read every relation. -/
theorem leads_allEmpty {directory : Path} {relations : List String} :
    Leads (Relations.firstViolated directory relations) xs .allEmpty ↔ Empty directory relations xs := by
  induction relations generalizing xs with
  | nil =>
    rw [Relations.firstViolated, leads_pure]
    constructor
    · rintro ⟨rfl, -⟩
      exact .nil
    · rintro ⟨⟩
      exact ⟨rfl, rfl⟩
  | cons relation rest ih =>
    unfold Relations.firstViolated
    dsimp only
    rw [leads_tries]
    constructor
    · rintro ⟨ys, zs, content, rfl, read, judged⟩
      obtain rfl := course_request read
      cases first : Gzip.firstRead content with
      | error cause =>
        rw [first] at judged
        exact (not_leads_throw _ _ judged).elim
      | ok byte =>
        rw [first] at judged
        cases byte with
        | some byte => cases (leads_pure.mp judged).2
        | none => exact .cons first (ih.mp judged)
    · rintro ⟨⟩
      rename_i content xs empty later
      refine ⟨[_], xs, content, rfl, course_request_iff.mpr rfl, ?_⟩
      rw [empty]
      exact ih.mpr later

/-- A scan that finds something has read empty relations up to one that begins with a byte. -/
theorem leads_violated {directory : Path} {relations : List String} {relation : String} :
    Leads (Relations.firstViolated directory relations) xs (.violated relation) ↔
      ∃ before after reads content byte, relations = before ++ relation :: after ∧
        Empty directory before reads ∧ Gzip.firstRead content = .ok (some byte) ∧
        xs = reads ++ [⟨.file (.read (directory / relation)), .ok content⟩] := by
  induction relations generalizing xs with
  | nil =>
    rw [Relations.firstViolated, leads_pure]
    constructor
    · rintro ⟨-, ⟨⟩⟩
    · rintro ⟨before, after, reads, content, byte, split, -⟩
      simp at split
  | cons head rest ih =>
    unfold Relations.firstViolated
    dsimp only
    rw [leads_tries]
    constructor
    · rintro ⟨ys, zs, content, rfl, read, judged⟩
      obtain rfl := course_request read
      cases first : Gzip.firstRead content with
      | error cause =>
        rw [first] at judged
        exact (not_leads_throw _ _ judged).elim
      | ok byte =>
        rw [first] at judged
        cases byte with
        | some byte =>
          obtain ⟨rfl, same⟩ := leads_pure.mp judged
          obtain rfl := Scan.violated.inj same
          exact ⟨[], rest, [], content, byte, rfl, .nil, first, rfl⟩
        | none =>
          obtain ⟨before, after, reads, found, byte, rfl, empty, yields, rfl⟩ := ih.mp judged
          exact ⟨head :: before, after, _, found, byte, rfl, .cons first empty, yields, rfl⟩
    · rintro ⟨before, after, reads, content, byte, split, empty, yields, rfl⟩
      cases empty with
      | nil =>
        obtain ⟨rfl, rfl⟩ := List.cons.inj split
        refine ⟨[_], [], content, rfl, course_request_iff.mpr rfl, ?_⟩
        rw [yields]
        exact leads_pure.mpr ⟨rfl, rfl⟩
      | cons first later =>
        obtain ⟨rfl, rfl⟩ := List.cons.inj split
        refine ⟨[_], _, _, rfl, course_request_iff.mpr rfl, ?_⟩
        rw [first]
        exact ih.mpr ⟨_, after, _, content, byte, rfl, later, yields, rfl⟩

/-! ## Stages -/

theorem outcomeOf_failure {status : Status} (fails : status ≠ .exited 0) (streams : Bytes × Bytes) :
    StageResult.ofOutcome (Command.outcomeOf status streams) =
      .crashed (Command.outputOf status streams) := by
  have failed : status.isSuccess = false := beq_eq_false_iff_ne.mpr fails
  rw [Command.outcomeOf, failed]
  rfl

theorem leads_stage {command : Command} {result : StageResult} :
    Leads (runStage c command) xs result ↔
      (∃ child streams, xs = exits c command child (.exited 0) streams ∧ result = .succeeded) ∨
      (∃ child status streams, status ≠ .exited 0 ∧ xs = exits c command child status streams ∧
        result = .crashed (Command.outputOf status streams)) ∨
      ∃ child streams, xs = overruns c command child streams ∧ result = .timedOut := by
  unfold runStage
  rw [leads_return]
  simp only [leads_adapt, leads_run]
  constructor
  · rintro ⟨outcome, ⟨child, status, streams, rfl, rfl⟩ | ⟨child, streams, rfl, rfl⟩, rfl⟩
    · by_cases success : status = .exited 0
      · subst success
        exact .inl ⟨child, streams, rfl, rfl⟩
      · exact .inr (.inl ⟨child, status, streams, success, rfl, outcomeOf_failure success streams⟩)
    · exact .inr (.inr ⟨child, streams, rfl, rfl⟩)
  · rintro (⟨child, streams, rfl, rfl⟩ | ⟨child, status, streams, fails, rfl, rfl⟩ |
      ⟨child, streams, rfl, rfl⟩)
    · exact ⟨_, .inl ⟨child, _, streams, rfl, rfl⟩, rfl⟩
    · exact ⟨_, .inl ⟨child, status, streams, rfl, rfl⟩, (outcomeOf_failure fails streams).symm⟩
    · exact ⟨_, .inr ⟨child, streams, rfl, rfl⟩, rfl⟩

/-- The crash of a stage is told, and its sentinel is written. -/
def told (sentinel : Sentinel) (crash : String) : List Exchange :=
  [⟨.log ⟨.warn, sentinel.output.tail Sentinel.tailSize⟩, ()⟩, ⟨.log ⟨.warn, crash⟩, ()⟩,
    ⟨.file (.write sentinel.path (utf8 sentinel.toJson.pretty)), .ok ()⟩]

section Reports

variable {irPath tool : Path} {stage : Stage} {crash timeout : String} {value : Unit}

theorem leads_crash {output : Output} :
    Leads (reportTrouble irPath tool stage crash timeout (.crashed output)) xs value ↔
      xs = told ⟨stage, tool, irPath, output⟩ crash := by
  constructor
  · intro leads
    obtain ⟨⟨⟩, ys, rfl, tailed⟩ := leads_asks.mp leads
    obtain ⟨⟨⟩, ys, rfl, warned⟩ := leads_asks.mp tailed
    obtain ⟨path, wrote, -⟩ := leads_return.mp warned
    obtain ⟨⟨⟩, asked, -⟩ := leads_return.mp wrote
    obtain rfl := course_request (leads_orFail.mp asked)
    rfl
  · rintro rfl
    exact .ask _ (.ask _ (.ask _ (.done _)))

theorem leads_timeout :
    Leads (reportTrouble irPath tool stage crash timeout .timedOut) xs value ↔
      xs = [⟨.log ⟨.warn, timeout⟩, ()⟩] := by
  exact leads_lift.trans course_request_iff

end Reports

/-! ## Verdicts -/

variable {irPath : Path} {w : Workspace} {verdict : Classification}

/-- Bitcode was prepared, and the fact generator made facts of it. -/
inductive Generated (c : Config) (irPath : Path) (w : Workspace) : List Exchange → Prop
  | intro {bitcode : Path} {xs : List Exchange} {child : Child} {streams : Bytes × Bytes}
    (prepared : Leads (Compile.assemble c irPath w.root) xs bitcode) :
    Generated c irPath w (xs ++ exits c (factCommand c w bitcode) child (.exited 0) streams)

/-- The facts were analysed, and all relations that are asked for are there. -/
inductive Analysed (c : Config) (irPath : Path) (w : Workspace) : List Exchange → Prop
  | intro {xs : List Exchange} {child : Child} {streams : Bytes × Bytes}
    (generated : Generated c irPath w xs) :
    Analysed c irPath w (xs ++ exits c (analysisCommand c w) child (.exited 0) streams ++
      present w.results c.assertions)

/-- What is asked and answered in a workspace on the way to each verdict. -/
inductive Judged (c : Config) (irPath : Path) (w : Workspace) :
    Classification → List Exchange → Prop
  | factsCrash {bitcode : Path} {xs : List Exchange} {child : Child} {status : Status}
    {streams : Bytes × Bytes} (prepared : Leads (Compile.assemble c irPath w.root) xs bitcode)
    (fails : status ≠ .exited 0) :
    Judged c irPath w .uninteresting (xs ++ exits c (factCommand c w bitcode) child status streams ++
      told ⟨.factGeneration, c.tools.factgen, irPath, Command.outputOf status streams⟩
        "Fact generator crash!")
  | factsTimeout {bitcode : Path} {xs : List Exchange} {child : Child} {streams : Bytes × Bytes}
    (prepared : Leads (Compile.assemble c irPath w.root) xs bitcode) :
    Judged c irPath w .uninteresting (xs ++ overruns c (factCommand c w bitcode) child streams ++
      [⟨.log ⟨.warn, "Fact generator timeout!"⟩, ()⟩])
  | analysisCrash {xs : List Exchange} {child : Child} {status : Status} {streams : Bytes × Bytes}
    (generated : Generated c irPath w xs) (fails : status ≠ .exited 0) :
    Judged c irPath w .interesting (xs ++ exits c (analysisCommand c w) child status streams ++
      told ⟨.analysis, c.analysisTool, irPath, Command.outputOf status streams⟩ "Analysis crash!!")
  | analysisTimeout {xs : List Exchange} {child : Child} {streams : Bytes × Bytes}
    (generated : Generated c irPath w xs) :
    Judged c irPath w .uninteresting (xs ++ overruns c (analysisCommand c w) child streams ++
      [⟨.log ⟨.warn, "Analysis timeout!"⟩, ()⟩])
  | violated {before after : List String} {relation : String} {xs reads : List Exchange}
    {content : Bytes} {byte : UInt8} (analysed : Analysed c irPath w xs)
    (split : c.assertions = before ++ relation :: after) (empty : Empty w.results before reads)
    (yields : Gzip.firstRead content = .ok (some byte)) :
    Judged c irPath w .interesting
      (xs ++ (reads ++ [⟨.file (.read (w.results / relation)), .ok content⟩]))
  | allEmpty {xs reads : List Exchange} (analysed : Analysed c irPath w xs)
    (empty : Empty w.results c.assertions reads) :
    Judged c irPath w .uninteresting (xs ++ reads)

theorem leads_scan {assertions : List String} {directory : Path} {found : Scan} :
    Leads (Relations.scan assertions directory) xs found ↔
      ∃ reads, xs = present directory assertions ++ reads ∧
        Leads (Relations.firstViolated directory assertions) reads found := by
  unfold Relations.scan
  rw [leads_bind]
  constructor
  · rintro ⟨ys, zs, missing, rfl, looked, read⟩
    cases missing with
    | some relation => exact (not_leads_throw _ _ read).elim
    | none => exact ⟨zs, by rw [course_firstMissing.mp (leads_lift.mp looked)], read⟩
  · rintro ⟨reads, rfl, read⟩
    exact ⟨_, reads, none, rfl, leads_lift.mpr (course_firstMissing.mpr rfl), read⟩

theorem judged_of_leads (leads : Leads (classifyIn c w irPath) xs verdict) :
    Judged c irPath w verdict xs := by
  obtain ⟨prep, rest, bitcode, rfl, assembled, generating⟩ := leads_bind.mp leads
  have prepared := leads_adapt.mp assembled
  obtain ⟨ran, rest, facts, rfl, stage, after⟩ := leads_bind.mp generating
  rw [← List.append_assoc]
  rcases leads_stage.mp stage with ⟨child, streams, rfl, rfl⟩ |
    ⟨child, status, streams, fails, rfl, rfl⟩ | ⟨child, streams, rfl, rfl⟩
  · have generated : Generated c irPath w
        (prep ++ exits c (factCommand c w bitcode) child (.exited 0) streams) := .intro prepared
    obtain ⟨ran, rest, analysis, rfl, stage, after⟩ := leads_bind.mp after
    rw [← List.append_assoc]
    rcases leads_stage.mp stage with ⟨child, streams, rfl, rfl⟩ |
      ⟨child, status, streams, fails, rfl, rfl⟩ | ⟨child, streams, rfl, rfl⟩
    · obtain ⟨found, scanned, rfl⟩ := leads_return.mp after
      obtain ⟨reads, rfl, read⟩ := leads_scan.mp scanned
      rw [← List.append_assoc]
      cases found with
      | allEmpty => exact .allEmpty (.intro generated) (leads_allEmpty.mp read)
      | violated relation =>
        obtain ⟨before, after, reads, content, byte, split, empty, yields, rfl⟩ :=
          leads_violated.mp read
        exact .violated (.intro generated) split empty yields
    · obtain ⟨⟨⟩, reported, rfl⟩ := leads_return.mp after
      rw [leads_crash.mp reported]
      exact .analysisCrash generated fails
    · obtain ⟨⟨⟩, reported, rfl⟩ := leads_return.mp after
      rw [leads_timeout.mp reported]
      exact .analysisTimeout generated
  · obtain ⟨⟨⟩, reported, rfl⟩ := leads_return.mp after
    rw [leads_crash.mp reported]
    exact .factsCrash prepared fails
  · obtain ⟨⟨⟩, reported, rfl⟩ := leads_return.mp after
    rw [leads_timeout.mp reported]
    exact .factsTimeout prepared

theorem Judged.leads (judged : Judged c irPath w verdict xs) :
    Leads (classifyIn c w irPath) xs verdict := by
  unfold classifyIn
  cases judged with
  | factsCrash prepared fails =>
    rw [List.append_assoc]
    exact (leads_adapt.mpr prepared).bind <|
      (leads_stage.mpr (.inr (.inl ⟨_, _, _, fails, rfl, rfl⟩))).bind <|
      leads_return.mpr ⟨(), leads_crash.mpr rfl, rfl⟩
  | factsTimeout prepared =>
    rw [List.append_assoc]
    exact (leads_adapt.mpr prepared).bind <|
      (leads_stage.mpr (.inr (.inr ⟨_, _, rfl, rfl⟩))).bind <|
      leads_return.mpr ⟨(), leads_timeout.mpr rfl, rfl⟩
  | analysisCrash generated fails =>
    obtain ⟨prepared⟩ := generated
    simp only [List.append_assoc]
    exact (leads_adapt.mpr prepared).bind <| (leads_stage.mpr (.inl ⟨_, _, rfl, rfl⟩)).bind <|
      (leads_stage.mpr (.inr (.inl ⟨_, _, _, fails, rfl, rfl⟩))).bind <|
      leads_return.mpr ⟨(), leads_crash.mpr rfl, rfl⟩
  | analysisTimeout generated =>
    obtain ⟨prepared⟩ := generated
    simp only [List.append_assoc]
    exact (leads_adapt.mpr prepared).bind <| (leads_stage.mpr (.inl ⟨_, _, rfl, rfl⟩)).bind <|
      (leads_stage.mpr (.inr (.inr ⟨_, _, rfl, rfl⟩))).bind <|
      leads_return.mpr ⟨(), leads_timeout.mpr rfl, rfl⟩
  | violated analysed split empty yields =>
    obtain ⟨⟨prepared⟩⟩ := analysed
    simp only [List.append_assoc]
    exact (leads_adapt.mpr prepared).bind <| (leads_stage.mpr (.inl ⟨_, _, rfl, rfl⟩)).bind <|
      (leads_stage.mpr (.inl ⟨_, _, rfl, rfl⟩)).bind <| leads_return.mpr ⟨_, leads_scan.mpr
        ⟨_, rfl, leads_violated.mpr ⟨_, _, _, _, _, split, empty, yields, rfl⟩⟩, rfl⟩
  | allEmpty analysed empty =>
    obtain ⟨⟨prepared⟩⟩ := analysed
    simp only [List.append_assoc]
    exact (leads_adapt.mpr prepared).bind <| (leads_stage.mpr (.inl ⟨_, _, rfl, rfl⟩)).bind <|
      (leads_stage.mpr (.inl ⟨_, _, rfl, rfl⟩)).bind <| leads_return.mpr ⟨_, leads_scan.mpr
        ⟨_, rfl, leads_allEmpty.mpr empty⟩, rfl⟩

/-- The answers that lead to a verdict are just those that are spelled out. -/
theorem leads_classifyIn : Leads (classifyIn c w irPath) xs verdict ↔ Judged c irPath w verdict xs :=
  ⟨judged_of_leads, Judged.leads⟩

/-- What is asked and answered in a call that comes to a verdict: a workspace is made, the IR is
judged in it, and what is not to be kept is removed. -/
inductive Concludes (c : Config) (irPath : Path) (verdict : Classification) : List Exchange → Prop
  | intro {w : Workspace} {made xs removed : List Exchange}
    (workspace : Leads (Workspace.create irPath.name) made w) (judged : Judged c irPath w verdict xs)
    (discarded : Course (w.discard c.debug) removed ()) :
    Concludes c irPath verdict (made ++ (xs ++ removed))

theorem leads_classify : Leads (classify c irPath) xs verdict ↔ Concludes c irPath verdict xs := by
  unfold classify
  rw [leads_bind]
  constructor
  · rintro ⟨made, rest, w, rfl, created, judging⟩
    obtain ⟨xs, removed, rfl, judged, discarded⟩ := leads_cleaningUp.mp judging
    exact .intro (leads_adapt.mp created) (leads_classifyIn.mp judged) discarded
  · rintro ⟨workspace, judged, discarded⟩
    exact ⟨_, _, _, rfl, leads_adapt.mpr workspace,
      leads_cleaningUp.mpr ⟨_, _, rfl, leads_classifyIn.mpr judged, discarded⟩⟩

theorem not_uncompilable : ¬ Concludes c irPath .uncompilable xs := by
  rintro ⟨-, judged, -⟩
  cases judged

/-- A run comes to a verdict if and only if its record says so. -/
theorem exec_classify_iff (host : Host σ) (s : σ) :
    (exec host s (classify c irPath)).1 = .ok verdict ↔
      Concludes c irPath verdict (record host s (classify c irPath).run) := by
  have course : Course (classify c irPath).run (record host s (classify c irPath).run)
      (exec host s (classify c irPath)).1 := course_run host s _
  rw [← leads_classify]
  constructor
  · intro same
    rw [same] at course
    exact course
  · exact fun leads => course_unique course leads

end BugHunt.Proofs.Verdicts
