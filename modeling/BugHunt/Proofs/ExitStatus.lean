import BugHunt.Session
import BugHunt.Proofs.Asking
import BugHunt.Proofs.Runs
/-!
What the exit status of a session tells. A session whose settings or options make up no
configuration has only looked at files; one that ends in an error never has the status of one that
found something.
-/

namespace BugHunt.Proofs.ExitStatus
open Asking Runs

/-- The status of the session that some arguments start. -/
def exitStatus (host : Host σ) (s : σ) (around : Surroundings) (arguments : List Bytes) : Nat :=
  ((Session.start around arguments).run host s).1

/-! ## Sessions without a configuration -/

/-- Requests that leave all files as they are and start nothing. -/
inductive Looks : Request → Prop
  | read (path : Path) : Looks (.file (.read path))
  | exists (path : Path) : Looks (.file (.exists path))
  | log (line : LogLine) : Looks (.log line)

theorem looks_load (path : Path) : Within Looks (Settings.load path) := by
  unfold Settings.load
  refine .bind (.orFail (asks_request (.read path))) fun content => ?_
  cases Text.decode? content with
  | none => exact .throw _
  | some text =>
    dsimp only
    cases Settings.ofText text with
    | ok settings => exact .pure _
    | error cause => exact .throw _

theorem looks_choose (asked : Option Path) : Within Looks (Settings.choose asked) := by
  unfold Settings.choose
  cases asked with
  | some path => exact .bind (looks_load path) fun settings => .pure _
  | none =>
    refine .bind (.monadLift (asks_request (.exists _))) fun there => ?_
    cases there with
    | true => exact .bind (looks_load _) fun settings => .pure _
    | false => exact .pure _

variable {host : Host σ} {s : σ} {around : Surroundings} {o : Options} {c : Config}

theorem looks_configure (around : Surroundings) (o : Options) :
    Within Looks (Session.configure around o) := by
  exact .bind (looks_choose _) fun _ => trivial

/-- The settings cannot be loaded, or make up no configuration with the options. -/
def Rejected (host : Host σ) (s : σ) (around : Surroundings) (o : Options) : Prop :=
  (∃ error, (exec host s (Settings.choose o.configFile)).1 = .error error) ∨
    ∃ settings file error,
      (exec host s (Settings.choose o.configFile)).1 = .ok (settings, file) ∧
      Config.bootstrap around { o.toOverrides with configFile := file } settings = .error error

theorem exec_configure : exec host s (Session.configure around o) =
    match exec host s (Settings.choose o.configFile) with
    | (.ok (settings, file), t) =>
      (Config.bootstrap around { o.toOverrides with configFile := file } settings, t)
    | (.error error, t) => (.error error, t) := by
  rw [Session.configure, exec_bind]
  cases chosen : exec host s (Settings.choose o.configFile) with
  | mk result t => cases result <;> rfl

theorem rejected_iff : Rejected host s around o ↔
    ∃ error, (exec host s (Session.configure around o)).1 = .error error := by
  unfold Rejected
  rw [exec_configure]
  cases chosen : exec host s (Settings.choose o.configFile) with
  | mk result t =>
    cases result with
    | error error => simp
    | ok found =>
      constructor
      · rintro (⟨error, is⟩ | ⟨settings, file, error, is, rejected⟩)
        · cases is
        · obtain rfl := Except.ok.inj is
          exact ⟨error, rejected⟩
      · rintro ⟨error, rejected⟩
        exact .inr ⟨_, _, error, rfl, rejected⟩

/-! ## Sessions with a configuration -/

/-- What the work of a session finds out: the verdict on one program, or a tally. -/
inductive Finding where
  | verdict (v : Classification)
  | summary (tally : Summary)

def Finding.isInteresting : Finding → Bool
  | .verdict v => v = .interesting
  | .summary tally => tally.foundInteresting

/-- The work that a configuration and the options ask for, up to what it finds out: test-only runs
come to a verdict, all others to a tally. -/
def finding (c : Config) (o : Options) : Action SessionError Finding := do
  if o.reset then Session.reset c
  match o.testOnly, o.program with
  | true, some program =>
    return .verdict (← (Classify.program c program).adapt .pipeline)
  | _, _ => return .summary (← Session.check c o)

/-- The session sets up its configuration and its work ends in a result, in the state `u`. -/
def Works (host : Host σ) (s : σ) (around : Surroundings) (o : Options)
    (result : Except SessionError Finding) (u : σ) : Prop :=
  ∃ c t, exec host s (Session.configure around o) = (.ok c, t) ∧
    exec host t (finding c o) = (result, u)

theorem testOnly_of_bootstrap {file : Option Path} {settings : Settings}
    (ok : Config.bootstrap around { o.toOverrides with configFile := file } settings = .ok c) :
    c.testOnly = o.testOnly := by
  unfold Config.bootstrap at ok
  cases workers : Config.checkWorkers (o.cores.getD around.cores)
      (o.processes.getD (o.cores.getD around.cores)) with
  | error e => simp [workers, bind, Except.bind] at ok
  | ok _ =>
    simp only [workers, bind, Except.bind] at ok
    split at ok
    · cases ok
    · split at ok
      · cases ok
      · obtain rfl := Except.ok.inj ok
        rfl

theorem testOnly_of_configure {t : σ} (ok : exec host s (Session.configure around o) = (.ok c, t)) :
    c.testOnly = o.testOnly := by
  rw [exec_configure] at ok
  cases chosen : exec host s (Settings.choose o.configFile) with
  | mk result u =>
    rw [chosen] at ok
    cases result with
    | error error => cases congrArg Prod.fst ok
    | ok found =>
      obtain ⟨settings, file⟩ := found
      exact @testOnly_of_bootstrap _ _ _ file settings (congrArg Prod.fst ok)

/-- Says how many reductions failed, and ends with the status of what was found out. -/
def report : Finding → Action SessionError Nat
  | .verdict v => return v.exitCode
  | .summary tally => do
    if 0 < tally.reduceFailures then Program.warn s!"{tally.reduceFailures} reduction(s) failed"
    return if tally.foundInteresting then Session.statusFound else Session.statusNotFound

theorem work_eq (sameMode : c.testOnly = o.testOnly) :
    Session.work c o = finding c o >>= report := by
  unfold Session.work finding
  rw [sameMode]
  cases reset : o.reset <;> cases mode : o.testOnly <;> cases program : o.program <;>
    simp [report]

theorem exec_report (f : Finding) : (exec host s (report f)).1 =
    .ok (if f.isInteresting then Session.statusFound else Session.statusNotFound) := by
  cases f with
  | verdict v => cases v <;> rfl
  | summary tally =>
    simp only [report, Finding.isInteresting]
    split <;> rfl

/-- Whether an error that ends a session, in the state `u`, is told as an interrupt. -/
def Interrupted (host : Host σ) (u : σ) (error : SessionError) : Prop :=
  (Program.isCancelled.run host u).1 = true ∨ error = .pipeline .interrupted

theorem run_stopped (host : Host σ) (u : σ) (error : SessionError) :
    Interrupted host u error ∧ ((Session.stopped error).run host u).1 = 130 ∨
      ¬ Interrupted host u error ∧ ((Session.stopped error).run host u).1 = 1 := by
  unfold Session.stopped Interrupted
  rw [run_bind]
  by_cases told : (Program.isCancelled.run host u).1 = true ∨ error = .pipeline .interrupted
  · rw [if_pos (by simpa using told)]
    exact .inl ⟨told, rfl⟩
  · rw [if_neg (by simpa using told)]
    exact .inr ⟨told, rfl⟩

theorem exec_work_ok (sameMode : c.testOnly = o.testOnly) {f : Finding} {t u : σ}
    (found : exec host t (finding c o) = (.ok f, u)) : ∃ v, exec host t (Session.work c o) =
      (.ok (if f.isInteresting then Session.statusFound else Session.statusNotFound), v) := by
  rw [work_eq sameMode, exec_bind_ok found]
  exact ⟨_, Prod.ext (exec_report f) rfl⟩

theorem exec_work_error (sameMode : c.testOnly = o.testOnly) {error : SessionError} {t u : σ}
    (failed : exec host t (finding c o) = (.error error, u)) :
    exec host t (Session.work c o) = (.error error, u) := by
  rw [work_eq sameMode, exec_bind_error failed]

/-! ## The four statuses -/

/-- How a session ends, with its status. -/
inductive Ends (host : Host σ) (s : σ) (around : Surroundings) (o : Options) : Nat → Prop
  | rejected (is : Rejected host s around o) : Ends host s around o 2
  | found {f : Finding} {u : σ} (works : Works host s around o (.ok f) u)
      (is : f.isInteresting) : Ends host s around o 0
  | nothing {f : Finding} {u : σ} (works : Works host s around o (.ok f) u)
      (is : f.isInteresting = false) : Ends host s around o 1
  | interrupted {error : SessionError} {u : σ} (works : Works host s around o (.error error) u)
      (is : Interrupted host u error) : Ends host s around o 130
  | failed {error : SessionError} {u : σ} (works : Works host s around o (.error error) u)
      (is : ¬ Interrupted host u error) : Ends host s around o 1

theorem run_run (host : Host σ) (s : σ) (around : Surroundings) (o : Options) :
    (Session.run around o).run host s = match exec host s (Session.configure around o) with
      | (.error error, t) =>
        (2, ((Program.log .error (Session.chain error.message error.causes)).run host t).2)
      | (.ok c, t) => match exec host t (Session.work c o) with
        | (.ok status, u) => (status, u)
        | (.error error, u) => (Session.stopped error).run host u := by
  rw [Session.run, run_bind, exec]
  cases Program.run host s (Session.configure around o).run with
  | mk result t =>
    cases result with
    | error error => rfl
    | ok c =>
      dsimp only
      rw [run_bind, exec]
      cases Program.run host t (Session.work c o).run with
      | mk result u => cases result <;> rfl

theorem ends_run (host : Host σ) (s : σ) (around : Surroundings) (o : Options) :
    Ends host s around o ((Session.run around o).run host s).1 := by
  rw [run_run]
  cases set : exec host s (Session.configure around o) with
  | mk result t =>
    cases result with
    | error error => exact .rejected (rejected_iff.mpr ⟨error, by rw [set]⟩)
    | ok c =>
      have sameMode := testOnly_of_configure set
      cases found : exec host t (finding c o) with
      | mk result u =>
        cases result with
        | ok f =>
          obtain ⟨v, worked⟩ := exec_work_ok sameMode found
          simp only [worked]
          cases interesting : f.isInteresting with
          | true => exact .found ⟨c, t, set, found⟩ interesting
          | false => exact .nothing ⟨c, t, set, found⟩ interesting
        | error error =>
          simp only [exec_work_error sameMode found]
          rcases run_stopped host u error with ⟨is, status⟩ | ⟨is, status⟩
          · rw [status]
            exact .interrupted ⟨c, t, set, found⟩ is
          · rw [status]
            exact .failed ⟨c, t, set, found⟩ is

/-- The work of a session has one end. -/
theorem Works.unique {result result' : Except SessionError Finding} {u u' : σ}
    (works : Works host s around o result u) (works' : Works host s around o result' u') :
    result = result' ∧ u = u' := by
  obtain ⟨c, t, set, found⟩ := works
  obtain ⟨c', t', set', found'⟩ := works'
  obtain ⟨sameConfig, rfl⟩ := Prod.ext_iff.mp (set.symm.trans set')
  obtain rfl := Except.ok.inj sameConfig
  exact Prod.ext_iff.mp (found.symm.trans found')

theorem Works.not_rejected {result : Except SessionError Finding} {u : σ}
    (works : Works host s around o result u) : ¬ Rejected host s around o := by
  obtain ⟨c, t, set, -⟩ := works
  rw [rejected_iff, set]
  simp

/-- The work ends without an error, and has found something. -/
def Finds (host : Host σ) (s : σ) (around : Surroundings) (o : Options) : Prop :=
  ∃ f u, Works host s around o (.ok f) u ∧ f.isInteresting

/-- The work ends in an error that is told as an interrupt. -/
def Breaks (host : Host σ) (s : σ) (around : Surroundings) (o : Options) : Prop :=
  ∃ error u, Works host s around o (.error error) u ∧ Interrupted host u error

theorem Works.not_breaks {f : Finding} {u : σ} (works : Works host s around o (.ok f) u) :
    ¬ Breaks host s around o := by
  rintro ⟨error, u', works', -⟩
  cases (works.unique works').1

theorem Works.finds_iff {f : Finding} {u : σ} (works : Works host s around o (.ok f) u) :
    Finds host s around o ↔ f.isInteresting := by
  constructor
  · rintro ⟨f', u', works', interesting⟩
    obtain rfl := Except.ok.inj (works.unique works').1
    exact interesting
  · intro interesting
    exact ⟨f, u, works, interesting⟩

theorem Works.not_finds {error : SessionError} {u : σ}
    (works : Works host s around o (.error error) u) : ¬ Finds host s around o := by
  rintro ⟨f, u', works', -⟩
  cases (works.unique works').1

theorem Works.breaks_iff {error : SessionError} {u : σ}
    (works : Works host s around o (.error error) u) :
    Breaks host s around o ↔ Interrupted host u error := by
  constructor
  · rintro ⟨error', u', works', is⟩
    obtain ⟨same, rfl⟩ := works.unique works'
    obtain rfl := Except.error.inj same
    exact is
  · intro is
    exact ⟨error, u, works, is⟩

/-- Each end has its status, and shares it with no other but that nothing found and a failure are
told alike. -/
theorem Ends.status_iff {status : Nat} (ends : Ends host s around o status) :
    (status = 2 ↔ Rejected host s around o) ∧ (status = 0 ↔ Finds host s around o) ∧
      (status = 130 ↔ Breaks host s around o) ∧
      (status = 1 ↔ ¬ Rejected host s around o ∧ ¬ Finds host s around o ∧
        ¬ Breaks host s around o) := by
  cases ends with
  | rejected is =>
    have none {result : Except SessionError Finding} {u : σ} : ¬ Works host s around o result u :=
      fun works => works.not_rejected is
    simp [is, Finds, Breaks, none]
  | found works is => simp [works.not_rejected, works.not_breaks, works.finds_iff, is]
  | nothing works is => simp [works.not_rejected, works.not_breaks, works.finds_iff, is]
  | interrupted works is => simp [works.not_rejected, works.not_finds, works.breaks_iff, is]
  | failed works is => simp [works.not_rejected, works.not_finds, works.breaks_iff, is]

/-- A session that is rejected has asked for nothing but looks. -/
theorem looks_of_rejected (rejected : Rejected host s around o) :
    ∀ r ∈ (Session.run around o).trace host s, Looks r := by
  obtain ⟨error, set⟩ := rejected_iff.mp rejected
  intro r found
  rw [Session.run, trace_bind] at found
  rcases List.mem_append.mp found with before | after
  · exact (looks_configure around o).mem_trace s r before
  · rw [show (Program.run host s (Session.configure around o).run).1 = .error error from set] at after
    change r ∈ [Request.log ⟨.error, Session.chain error.message error.causes⟩] at after
    rw [List.mem_singleton.mp after]
    exact .log _

theorem program_of_parse {arguments : List Bytes} (parsed : CommandLine.parse arguments = .ok o) :
    o.testOnly → o.program ≠ none := by
  intro testOnly none
  unfold CommandLine.parse at parsed
  cases read : CommandLine.read {} Option.none arguments with
  | error e => simp [read, bind, Except.bind] at parsed
  | ok o' =>
    simp only [read, bind, Except.bind] at parsed
    split at parsed
    · cases parsed
    · rename_i fine
      obtain rfl := Except.ok.inj parsed
      simp [testOnly, none] at fine

/-- The exit status of a session whose arguments parse, whatever files and tools its host has: 2
exactly when the settings cannot be loaded or make up no configuration, and then files were only
looked at; 0 exactly when the work ended without an error and found something, in a test-only run
by the verdict on its program; 130 exactly when the work ended in an error and the host is
cancelled or the error is an interrupt; 1 in all other cases. -/
theorem exitStatus_iff {arguments : List Bytes} (parsed : CommandLine.parse arguments = .ok o)
    (host : Host σ) (s : σ) (around : Surroundings) :
    (exitStatus host s around arguments = 2 ↔ Rejected host s around o) ∧
    (Rejected host s around o → ∀ r ∈ (Session.start around arguments).trace host s, Looks r) ∧
    (exitStatus host s around arguments = 0 ↔ Finds host s around o) ∧
    (o.testOnly → o.program ≠ none) ∧
    (exitStatus host s around arguments = 130 ↔ Breaks host s around o) ∧
    (exitStatus host s around arguments = 1 ↔ ¬ Rejected host s around o ∧
      ¬ Finds host s around o ∧ ¬ Breaks host s around o) := by
  have start : Session.start around arguments = Session.run around o := by
    rw [Session.start, parsed]
  unfold exitStatus
  rw [start]
  obtain ⟨two, zero, interrupted, one⟩ := (ends_run host s around o).status_iff
  exact ⟨two, looks_of_rejected, zero, program_of_parse parsed, interrupted, one⟩

/-- A host that refuses everything, and is not cancelled. -/
def refusing : Host Unit := fun request _ =>
  match request with
  | .file (.exists _) | .file (.isFile _) => (false, ())
  | .file (.read _) => (Except.error (.system .denied), ())
  | .file (.createDirectories _) | .file (.createDirectory _) | .file (.write ..)
  | .file (.makeExecutable _) | .file (.touch _) | .file (.copy ..) | .file (.rename ..)
  | .file (.remove _) | .file (.removeTree _) => (Except.error (.system .denied), ())
  | .temporaryDirectory .. | .temporaryFile .. | .spawn .. | .await .. =>
    (Except.error (.system .denied), ())
  | .search _ => ([], ())
  | .isCancelled => (false, ())
  | .choose _ => ((0 : Nat), ())
  | .log _ | .terminate _ => ((), ())
  | .collect _ => (([], []), ())

def atHome : Surroundings := ⟨"/home/w", "/tmp", "/usr/bin/pareduce", 2⟩

theorem parse_resetting :
    CommandLine.parse [utf8 "--reset", utf8 "--config", utf8 "p.toml"] =
      .ok { reset := true, configFile := some "p.toml" } := by
  rfl

/-- A session whose settings cannot be read removes nothing, though it was asked to. -/
theorem unread_settings_reset_nothing :
    exitStatus refusing () atHome [utf8 "--reset", utf8 "--config", utf8 "p.toml"] = 2 ∧
      ∀ r ∈ (Session.start atHome [utf8 "--reset", utf8 "--config", utf8 "p.toml"]).trace refusing (),
        Looks r := by
  have rejected : Rejected refusing () atHome { reset := true, configFile := some "p.toml" } :=
    .inl ⟨.read "p.toml" (.system .denied), rfl⟩
  obtain ⟨two, looks, -⟩ := exitStatus_iff parse_resetting refusing () atHome
  exact ⟨two.mpr rejected, looks rejected⟩

end BugHunt.Proofs.ExitStatus
