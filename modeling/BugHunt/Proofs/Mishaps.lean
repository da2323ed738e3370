import BugHunt.Proofs.Runs
/-!
Runs on a bench on which things go wrong from outside: a run is interrupted, and requests are
refused, at whatever point.
-/

namespace BugHunt.Proofs.Mishaps
open Trees Runs Bench

/-- What goes wrong, by the number of requests that went before. -/
structure Mishaps where
  interrupted : Nat → Bool
  refused : Nat → Option Failure

/-- How a refused request is answered. Looking for a file and removing one is never refused. -/
def refusal? (cause : Failure) : (r : Request) → Option r.Answer
  | .file (.read _) => some (Except.error cause)
  | .file (.createDirectories _) => some (Except.error cause)
  | .file (.createDirectory _) => some (Except.error cause)
  | .file (.write ..) => some (Except.error cause)
  | .file (.makeExecutable _) => some (Except.error cause)
  | .file (.touch _) => some (Except.error cause)
  | .file (.copy ..) => some (Except.error cause)
  | .file (.rename ..) => some (Except.error cause)
  | .temporaryDirectory .. => some (Except.error cause)
  | .temporaryFile .. => some (Except.error cause)
  | .spawn .. => some (Except.error cause)
  | .await .. => some (Except.error cause)
  | _ => none

/-- The answer that is given when the run is interrupted. A tool that is waited for is given up. -/
def heed (interrupted : Bool) : (r : Request) → r.Answer → r.Answer
  | .isCancelled, _ => interrupted
  | .await .., answer => if interrupted then Except.map (fun _ => Ending.cancelled) answer else answer
  | _, answer => answer

/-- How the bench answers with mishaps. What is refused is not done. -/
def troubled (b : Bench) (m : Mishaps) : Host (State × Nat) := fun r (s, n) =>
  match (m.refused n).bind (refusal? · r) with
  | some answer => (answer, s, n + 1)
  | none => (heed (m.interrupted n) r (b.host r s).1, (b.host r s).2, n + 1)

variable {b : Bench} {m : Mishaps}

/-- A request is refused or answered, with an eye on interrupts, as on the bench. -/
theorem troubled_cases (b : Bench) (m : Mishaps) (r : Request) (s : State) (n : Nat) :
    (∃ cause answer, refusal? cause r = some answer ∧ troubled b m r (s, n) = (answer, s, n + 1)) ∨
      troubled b m r (s, n) =
        (heed (m.interrupted n) r (b.host r s).1, (b.host r s).2, n + 1) := by
  cases refused : m.refused n with
  | none =>
    right
    simp only [troubled, refused, Option.bind_none]
  | some cause =>
    cases answered : refusal? cause r with
    | none =>
      right
      simp only [troubled, refused, Option.bind_some, answered]
    | some answer =>
      left
      refine ⟨cause, answer, answered, ?_⟩
      simp only [troubled, refused, Option.bind_some, answered]

theorem troubled_state (r : Request) (s : State × Nat) :
    (troubled b m r s).2.1 = s.1 ∨ (troubled b m r s).2.1 = (b.host r s.1).2 := by
  rcases troubled_cases b m r s.1 s.2 with ⟨_, _, -, ran⟩ | ran
  · exact .inl (congrArg (·.2.1) ran)
  · exact .inr (congrArg (·.2.1) ran)

/-- A request that only looks leaves the bench as it was. -/
theorem troubled_still {r : Request} {s : State} (still : (b.host r s).2 = s) (n : Nat) :
    (troubled b m r (s, n)).2 = (s, n + 1) := by
  rcases troubled_cases b m r s n with ⟨_, _, -, ran⟩ | ran
  · rw [ran]
  · rw [ran, still]

/-- A request that only looks keeps what holds of the bench. -/
theorem quiet {P : State → Prop} {r : Request} (still : ∀ s, (b.host r s).2 = s) :
    Keeps (troubled b m) (P ·.1) (monadLift (Program.request r) : Action ε r.Answer) := by
  refine Keeps.lift fun ⟨s, n⟩ holds => ?_
  have same : (troubled b m r (s, n)).2.1 = s := congrArg Prod.fst (troubled_still (still s) n)
  show P (troubled b m r (s, n)).2.1
  rwa [same]

/-- What holds of the files. -/
def Files (P : FileTree → Prop) (u : State × Nat) : Prop := P u.1.tree

theorem quiet_files {P : FileTree → Prop} {r : Request} (still : ∀ s, (b.host r s).2 = s) :
    Keeps (troubled b m) (Files P) (monadLift (Program.request r) : Action ε r.Answer) :=
  quiet (P := fun s => P s.tree) still

/-! ## The tools that were started -/

theorem host_started (r : Request) (s : State) : s.started <+: (b.host r s).2.started := by
  have change (result : Except Failure FileTree) : s.started <+: (Bench.change s result).2.started := by
    cases result with
    | ok _ => exact List.prefix_refl _
    | error _ => exact List.prefix_refl _
  have make (directory : Path) (before after : String)
      (build : FileTree → Place → Except Failure FileTree) :
      s.started <+: (b.makeTemporary s directory before after build).2.started := by
    unfold Bench.makeTemporary
    dsimp only
    split
    · exact List.prefix_refl _
    · exact List.prefix_refl _
  cases r with
  | file request =>
    cases request with
    | read _ => exact List.prefix_refl _
    | «exists» _ => exact List.prefix_refl _
    | isFile _ => exact List.prefix_refl _
    | makeExecutable _ => exact List.prefix_refl _
    | createDirectories _ => exact change _
    | createDirectory _ => exact change _
    | write _ _ => exact change _
    | touch _ => exact change _
    | copy _ _ => exact change _
    | rename _ _ => exact change _
    | remove _ => exact change _
    | removeTree _ => exact change _
  | temporaryDirectory _ _ => exact make ..
  | temporaryFile _ _ _ => exact make ..
  | spawn command memory =>
    unfold Bench.host
    dsimp only
    split
    · exact List.prefix_append _ _
    · exact List.prefix_refl _
  | await child stop =>
    unfold Bench.host
    dsimp only
    split
    · exact List.prefix_refl _
    · exact List.prefix_refl _
  | search _ => exact List.prefix_refl _
  | isCancelled => exact List.prefix_refl _
  | choose _ => exact List.prefix_refl _
  | log _ => exact List.prefix_refl _
  | terminate _ => exact List.prefix_refl _
  | collect _ => exact List.prefix_refl _

theorem troubled_started (r : Request) (s : State × Nat) :
    s.1.started <+: (troubled b m r s).2.1.started := by
  rcases @troubled_state b m r s with same | same
  · exact ⟨[], by rw [List.append_nil, same]⟩
  · rw [same]
    exact host_started r s.1

/-- No tool that was started is forgotten. -/
theorem run_started (p : Program α) (s : State × Nat) :
    s.1.started <+: (p.run (troubled b m) s).2.1.started := by
  induction p generalizing s with
  | done value => exact List.prefix_refl _
  | ask request next ih => exact (troubled_started request s).trans (ih _ _)

theorem exec_started (a : Action ε α) (s : State × Nat) :
    s.1.started <+: (exec (troubled b m) s a).2.1.started := run_started a.run s

/-! ## Changing files -/

/-- Whether a program changes the files by one operation, if it is not refused. -/
def Changes (b : Bench) (m : Mishaps) (p : Program (Except Failure Unit))
    (operate : FileTree → Except Failure FileTree) : Prop :=
  ∀ s n, (∃ cause, p.run (troubled b m) (s, n) = (.error cause, s, n + 1)) ∨
    p.run (troubled b m) (s, n) =
      ((Bench.change s (operate s.tree)).1, (Bench.change s (operate s.tree)).2, n + 1)

theorem createDirectories_changes (p : Path) :
    Changes b m (Program.createDirectories p) (Trees.createDirectories · (b.place p)) := by
  intro s n
  rcases troubled_cases b m (.file (.createDirectories p)) s n with ⟨cause, answer, refused, ran⟩ | ran
  · obtain rfl : Except.error cause = answer := Option.some.inj refused
    exact .inl ⟨cause, ran⟩
  · exact .inr ran

theorem copy_changes (p q : Path) :
    Changes b m (Program.copy p q) (Trees.copy · (b.place p) (b.place q)) := by
  intro s n
  rcases troubled_cases b m (.file (.copy p q)) s n with ⟨cause, answer, refused, ran⟩ | ran
  · obtain rfl : Except.error cause = answer := Option.some.inj refused
    exact .inl ⟨cause, ran⟩
  · exact .inr ran

theorem write_changes (p : Path) (content : Bytes) :
    Changes b m (Program.write p content) (Trees.write · (b.place p) content) := by
  intro s n
  rcases troubled_cases b m (.file (.write p content)) s n with ⟨cause, answer, refused, ran⟩ | ran
  · obtain rfl : Except.error cause = answer := Option.some.inj refused
    exact .inl ⟨cause, ran⟩
  · exact .inr ran

/-- A change is made, or an error tells that nothing was changed. -/
theorem Changes.ends {p : Program (Except Failure Unit)}
    {operate : FileTree → Except Failure FileTree} (changes : Changes b m p operate)
    {P : FileTree → Prop} {Q : Except ε Unit → FileTree → Prop} {toError : Failure → ε}
    (done : ∀ t u, P t → operate t = .ok u → Q (.ok ()) u)
    (failed : ∀ t cause, P t → Q (.error (toError cause)) t) :
    Ends (troubled b m) (Files P) (Action.orFail p toError) fun result => Files (Q result) := by
  refine .orFail fun ⟨s, n⟩ holds => ?_
  rcases changes s n with ⟨cause, refused⟩ | answered
  · rw [refused]
    exact failed _ _ holds
  · rw [answered]
    cases made : operate s.tree with
    | ok u => exact done _ _ holds made
    | error cause => exact failed _ _ holds

theorem Changes.keeps {p : Program (Except Failure Unit)}
    {operate : FileTree → Except Failure FileTree} (changes : Changes b m p operate)
    {P : FileTree → Prop} {toError : Failure → ε}
    (kept : ∀ t u, P t → operate t = .ok u → P u) :
    Keeps (troubled b m) (Files P) (Action.orFail p toError) :=
  changes.ends kept fun _ _ holds => holds

/-! ## Running a tool -/

/-- How the run of a tool leaves the bench: the tool was not started, was started but not waited
for, or was carried out. Only a tool that was carried out has an outcome. -/
inductive Ran (b : Bench) (s : State) (command : Command) : Except ε α → State → Prop
  | refused (e : ε) : Ran b s command (.error e) s
  | abandoned (e : ε) :
    Ran b s command (.error e) { s with started := s.started ++ [command] }
  | carried (result : Except ε α) : Ran b s command result (after b s command)

theorem spawn_ends (command : Command) (memory : Option Nat) (s : State) {toError : Failure → ε} :
    Ends (troubled b m) (·.1 = s) (Action.orFail (Program.spawn command memory) toError)
      fun result t => match result with
        | .error _ => t.1 = s
        | .ok child => child.id = s.started.length ∧
            t.1 = { s with started := s.started ++ [command] } := by
  refine .orFail ?_
  rintro ⟨_, n⟩ rfl
  rename_i s
  have asked : (Program.spawn command memory).run (troubled b m) (s, n) =
      troubled b m (.spawn command memory) (s, n) := rfl
  rw [asked]
  rcases troubled_cases b m (.spawn command memory) s n with ⟨cause, answer, refused, ran⟩ | ran
  · obtain rfl : Except.error cause = answer := Option.some.inj refused
    rw [ran]
    rfl
  · have hosted : b.host (.spawn command memory) s = _ := @run_spawn b s command memory
    rw [ran, hosted]
    by_cases starts : b.canStart command
    · rw [if_pos starts]
      exact ⟨rfl, rfl⟩
    · rw [if_neg starts]
      rfl

/-- What is waited for has been carried out when an answer comes that is no error. -/
theorem await_ends {child : Child} {stop : Observation → Option Ending} {command : Command}
    {s : State} (known : s.started[child.id]? = some command) :
    Ends (troubled b m) (·.1 = s) (monadLift (Program.await child stop) : Action ε (Except Failure Ending))
      fun result t => (∃ cause, result = .ok (.error cause) ∧ t.1 = s) ∨
        t.1 = { s with tree := (b.carryOut command s.tree).1 } := by
  refine .lift ?_
  rintro ⟨_, n⟩ rfl
  rename_i s
  have asked : (Program.await child stop).run (troubled b m) (s, n) =
      troubled b m (.await child stop) (s, n) := rfl
  rw [asked]
  rcases troubled_cases b m (.await child stop) s n with ⟨cause, answer, refused, ran⟩ | ran
  · obtain rfl : Except.error cause = answer := Option.some.inj refused
    rw [ran]
    exact .inl ⟨cause, rfl, rfl⟩
  · rw [ran]
    exact .inr (congrArg Prod.snd (@run_await b s child stop command known))

/-- However a tool is interrupted or refused, it was carried out as a whole or not at all. -/
theorem command_ends (command : Command) (memory limit : Option Nat) (s : State) :
    Ends (troubled b m) (·.1 = s) (command.run memory limit) fun result t => Ran b s command result t.1 := by
  have collect (t : State) (child : Child) : Keeps (troubled b m) (·.1 = t)
      (monadLift (Program.collect child) : Action RunError (Bytes × Bytes)) :=
    quiet (P := (· = t)) (r := .collect child) fun _ => rfl
  have terminate (t : State) (child : Child) : Keeps (troubled b m) (·.1 = t)
      (monadLift (Program.terminate child) : Action RunError Unit) :=
    quiet (P := (· = t)) (r := .terminate child) fun _ => rfl
  have warn (t : State) (message : String) : Keeps (troubled b m) (·.1 = t)
      (monadLift (Program.warn message) : Action RunError Unit) :=
    quiet (P := (· = t)) (r := .log _) fun _ => rfl
  have carried {a : Action RunError Outcome} (kept : Keeps (troubled b m) (·.1 = after b s command) a) :
      Ends (troubled b m) (·.1 = after b s command) a fun result t => Ran b s command result t.1 :=
    kept.mono fun result _ same => same ▸ .carried result
  unfold Command.run
  refine .bind (quiet (P := (· = s)) (r := .isCancelled) fun _ => rfl) (fun cancelled => ?_)
    fun e t same => same ▸ .refused e
  dsimp only
  split
  · exact .throw_bind fun t same => same ▸ .refused _
  · refine .bind (spawn_ends command memory s) (fun child => ?_) fun e t same => same ▸ .refused e
    refine .knowing fun named => ?_
    have known : (s.started ++ [command])[child.id]? = some command := by
      rw [named]
      simp
    refine .bind (await_ends known) (fun ending => ?_) fun e t came => ?_
    · cases ending with
      | error cause =>
        have given : Ends (troubled b m) (·.1 = { s with started := s.started ++ [command] })
            (do
              let _ ← Program.collect child
              throw (.waiting command.program.display cause) : Action RunError Outcome)
            fun result t => Ran b s command result t.1 :=
          .bind (collect _ child) (fun _ t same => same ▸ .abandoned _) fun e t same => same ▸ .abandoned e
        rintro t (⟨_, -, same⟩ | same)
        · exact given t same
        · exact carried (.bind (collect _ child) fun _ => .throw _) t same
      | ok ending =>
        rintro t (⟨_, impossible, -⟩ | same)
        · cases impossible
        · revert t
          cases ending with
          | exited status => exact carried (.bind (collect _ child) fun _ => .pure _)
          | cancelled =>
            exact carried (.bind (terminate _ child) fun _ => .bind (collect _ child) fun _ => .throw _)
          | timedOut =>
            exact carried (.bind (warn _ _) fun _ => .bind (terminate _ child) fun _ =>
              .bind (collect _ child) fun _ => .pure _)
    · rcases came with ⟨cause, ended, -⟩ | same
      · cases ended
      · exact same ▸ .carried _

/-- What holds of the files before a tool runs and after it was carried out is kept. -/
theorem command_keeps {P : FileTree → Prop} {command : Command} {memory limit : Option Nat}
    (carried : ∀ t, P t → P (b.carryOut command t).1) :
    Keeps (troubled b m) (Files P) (command.run memory limit) := by
  intro u holds
  have ran := @command_ends b m command memory limit u.1 u rfl
  generalize exec (troubled b m) u (command.run memory limit) = result at ran ⊢
  obtain ⟨result, t, k⟩ := result
  cases ran with
  | refused e => exact holds
  | abandoned e => exact holds
  | carried => exact carried _ holds

end BugHunt.Proofs.Mishaps
