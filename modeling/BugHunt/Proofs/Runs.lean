import BugHunt.Proofs.Bench
/-!
Runs on a bench, request by request: what each answer is, and how the run of an action is made up
of the runs of its parts.
-/

namespace BugHunt.Proofs.Runs

/-- The run of an action: its result and the state after it. -/
def exec (host : Host σ) (s : σ) (a : Action ε α) : Except ε α × σ := Program.run host s a.run

theorem mapError_ok (f : ε → φ) (value : α) : (.ok value : Except ε α).mapError f = .ok value := rfl

theorem mapError_error (f : ε → φ) (e : ε) : (.error e : Except ε α).mapError f = .error (f e) := rfl

section Composition

variable {host : Host σ} {s : σ}

@[simp] theorem run_pure (value : α) : (pure value : Program α).run host s = (value, s) := rfl

@[simp] theorem run_bind (p : Program α) (f : α → Program β) :
    (p >>= f).run host s = (f (p.run host s).1).run host (p.run host s).2 :=
  Program.run_bind host s p f

@[simp] theorem run_request (r : Request) : (Program.request r).run host s = host r s := rfl

@[simp] theorem exec_pure (value : α) :
    exec host s (pure value : Action ε α) = (.ok value, s) := rfl

@[simp] theorem exec_throw (e : ε) :
    exec host s (throw e : Action ε α) = (.error e, s) := rfl

theorem exec_bind (a : Action ε α) (f : α → Action ε β) :
    exec host s (a >>= f) =
      match exec host s a with
      | (.ok value, t) => exec host t (f value)
      | (.error e, t) => (.error e, t) := by
  unfold exec
  rw [ExceptT.run_bind, run_bind]
  generalize Program.run host s a.run = result
  obtain ⟨result, t⟩ := result
  cases result <;> rfl

theorem exec_bind_ok {a : Action ε α} {f : α → Action ε β} {value : α} {t : σ}
    (first : exec host s a = (.ok value, t)) : exec host s (a >>= f) = exec host t (f value) := by
  rw [exec_bind, first]

theorem exec_bind_error {a : Action ε α} {f : α → Action ε β} {e : ε} {t : σ}
    (first : exec host s a = (.error e, t)) : exec host s (a >>= f) = (.error e, t) := by
  rw [exec_bind, first]

/-- An action that ends well has ended well in its first part. -/
theorem exec_onward {a : Action ε α} {f : α → Action ε β} {value : β} {u : σ}
    (ended : exec host s (a >>= f) = (.ok value, u)) :
    ∃ first t, exec host s a = (.ok first, t) ∧ exec host t (f first) = (.ok value, u) := by
  rw [exec_bind] at ended
  split at ended
  · exact ⟨_, _, ‹_›, ended⟩
  · cases ended

@[simp] theorem exec_lift (p : Program α) :
    exec host s (ExceptT.lift p : Action ε α) = (.ok (p.run host s).1, (p.run host s).2) :=
  Program.run_bind host s p fun value => .done (Except.ok value)

@[simp] theorem exec_monadLift (p : Program α) :
    exec host s (monadLift p : Action ε α) = (.ok (p.run host s).1, (p.run host s).2) :=
  exec_lift p

@[simp] theorem exec_adapt (a : Action ε α) (f : ε → φ) :
    exec host s (a.adapt f) = ((exec host s a).1.mapError f, (exec host s a).2) :=
  Program.run_bind host s a.run fun result => .done (result.mapError f)

theorem exec_adapt_ok {a : Action ε α} {f : ε → φ} {value : α} {t : σ}
    (ran : exec host s a = (.ok value, t)) : exec host s (a.adapt f) = (.ok value, t) := by
  rw [exec_adapt, ran, mapError_ok]

theorem exec_request {r : Request} {answer : r.Answer} {t : σ} (answered : host r s = (answer, t)) :
    exec host s (monadLift (Program.request r) : Action ε r.Answer) = (.ok answer, t) := by
  rw [exec_monadLift, show (Program.request r).run host s = (answer, t) from answered]

@[simp] theorem exec_orFail (p : Program (Except φ α)) (toError : φ → ε) :
    exec host s (Action.orFail p toError) =
      ((p.run host s).1.mapError toError, (p.run host s).2) := by
  unfold exec Action.orFail
  rw [ExceptT.run_mk, run_bind]
  generalize Program.run host s p = answer
  obtain ⟨answer, t⟩ := answer
  cases answer <;> rfl

@[simp] theorem exec_cleaningUp (a : Action ε α) (cleanup : Except ε α → Program Unit) :
    exec host s (a.cleaningUp cleanup) =
      ((exec host s a).1, ((cleanup (exec host s a).1).run host (exec host s a).2).2) := by
  unfold exec Action.cleaningUp
  rw [ExceptT.run_mk, run_bind, run_bind, run_pure]

end Composition

section Requests

variable {b : Bench} {s : Bench.State}

@[simp] theorem run_read (p : Path) :
    (Program.read p).run b.host s = (b.readAt s p, s) := rfl

@[simp] theorem run_exists (p : Path) :
    (Program.exists p).run b.host s = (Trees.exists s.tree (b.place p), s) := rfl

@[simp] theorem run_isFile (p : Path) :
    (Program.isFile p).run b.host s = (Trees.isFile s.tree (b.place p), s) := rfl

@[simp] theorem run_createDirectories (p : Path) :
    (Program.createDirectories p).run b.host s =
      Bench.change s (Trees.createDirectories s.tree (b.place p)) := rfl

@[simp] theorem run_createDirectory (p : Path) :
    (Program.createDirectory p).run b.host s =
      Bench.change s (Trees.createDirectory s.tree (b.place p)) := rfl

@[simp] theorem run_write (p : Path) (content : Bytes) :
    (Program.write p content).run b.host s =
      Bench.change s (Trees.write s.tree (b.place p) content) := rfl

@[simp] theorem run_touch (p : Path) :
    (Program.touch p).run b.host s = Bench.change s (Trees.touch s.tree (b.place p)) := rfl

@[simp] theorem run_copy (p q : Path) :
    (Program.copy p q).run b.host s =
      Bench.change s (Trees.copy s.tree (b.place p) (b.place q)) := rfl

@[simp] theorem run_rename (p q : Path) :
    (Program.rename p q).run b.host s =
      Bench.change s (Trees.rename s.tree (b.place p) (b.place q)) := rfl

@[simp] theorem run_remove (p : Path) :
    (Program.remove p).run b.host s = Bench.change s (Trees.remove s.tree (b.place p)) := rfl

@[simp] theorem run_removeTree (p : Path) :
    (Program.removeTree p).run b.host s =
      Bench.change s (Trees.removeTree s.tree (b.place p)) := rfl

@[simp] theorem run_isCancelled : Program.isCancelled.run b.host s = (false, s) := rfl

@[simp] theorem run_log (level : Level) (message : String) :
    (Program.log level message).run b.host s = ((), s) := rfl

@[simp] theorem run_info (message : String) :
    (Program.info message).run b.host s = ((), s) := rfl

@[simp] theorem run_warn (message : String) :
    (Program.warn message).run b.host s = ((), s) := rfl

end Requests

section Temporaries
open Trees Texts Names

variable {b : Bench} {s : Bench.State}

/-- Whether a name stands nowhere in a tree. -/
def Fresh (v : View) (name : Bytes) : Prop := ∀ q, v q ≠ none → name ∉ q

theorem Fresh.free {v : View} {name : Bytes} (h : Fresh v name) {q : Place} (within : name ∈ q) :
    v q = none := by
  by_cases there : v q = none
  · exact there
  · exact absurd within (h q there)

/-- The drawn names of temporary files. -/
structure Drawn (v : View) (before after : String) (name : Bytes) : Prop where
  fresh : Fresh v name
  form : ∃ drawn : String, (∀ c ∈ drawn.toList, c.isAlphanum) ∧
    name = utf8 (before ++ drawn ++ after)

theorem drawn (b : Bench) (t : FileTree) (before after : String) :
    Drawn t.node? before after (utf8 (before ++ b.draw t before after ++ after)) :=
  ⟨fun q there => b.draw_fresh t before after q there,
    _, b.draw_sign t before after, rfl⟩

/-- Texts between which any drawn name can stand. -/
def Frames (before after : String) : Prop :=
  ∀ drawn : String, (∀ c ∈ drawn.toList, c.isAlphanum) →
    Proper (utf8 (before ++ drawn ++ after))

theorem frames {before after : String} (cleanBefore : Path.slash ∉ utf8 before)
    (cleanAfter : Path.slash ∉ utf8 after)
    (long : 2 < (utf8 before).length + (utf8 after).length) : Frames before after := by
  intro drawn signs
  have cleanDrawn : '/' ∉ drawn.toList := fun found => absurd (signs '/' found) (by decide)
  apply proper_of_length
  · have before' : '/' ∉ before.toList := fun found => cleanBefore (slash_mem_utf8 found)
    have after' : '/' ∉ after.toList := fun found => cleanAfter (slash_mem_utf8 found)
    simp [before', cleanDrawn, after']
  · simp only [utf8_append, List.length_append]
    omega

theorem place_entry (b : Bench) (d : Path) {name : String} (h : Proper (utf8 name)) :
    b.place (d / Path.ofString name) = b.place d ++ [utf8 name] :=
  Places.placeOf_entry b.here d h

/-- A path that ends in a proper name is no path of a directory only. -/
theorem endsIdle_entry (d : Path) {name : String} (h : Proper (utf8 name)) :
    Bench.endsIdle (d / Path.ofString name) = false := by
  obtain ⟨before, isLead⟩ := Places.lead_front d
  rw [Places.entry_eq d h.clean, Bench.endsIdle,
    show (⟨front d ++ utf8 name⟩ : Path).pieces = before ++ [utf8 name] from (isLead _ h.clean).1]
  simp [Path.isIdle, h.ne_nil, h.ne_dot]

theorem readAt_of_endsIdle {p : Path} (h : Bench.endsIdle p = false) :
    b.readAt s p = read s.tree (b.place p) := by
  simp [Bench.readAt, h]

theorem run_temporaryDirectory {before after : String} (frames : Frames before after)
    (parent : View.directory s.tree.node? (b.place b.temporary)) :
    ∃ p name u, (Program.temporaryDirectory before after).run b.host s =
        (.ok p, { s with tree := u }) ∧
      Bench.endsIdle p = false ∧ p.isAbsolute ∧
      b.place p = b.place b.temporary ++ [name] ∧ Drawn s.tree.node? before after name ∧
      u.node? = View.put s.tree.node? (b.place p) (some .directory) := by
  have named : b.place (b.temporary /
      Path.ofString (before ++ b.draw s.tree before after ++ after)) =
      b.place b.temporary ++ [utf8 (before ++ b.draw s.tree before after ++ after)] :=
    place_entry b b.temporary (frames _ (b.draw_sign s.tree before after))
  have drawn := drawn b s.tree before after
  have free : s.tree.node? (b.place (b.temporary /
      Path.ofString (before ++ b.draw s.tree before after ++ after))) = none := by
    rw [named]
    exact drawn.fresh.free (List.mem_append_right _ (List.mem_singleton_self _))
  obtain ⟨u, made, view⟩ := createDirectory_ok free (by rw [named]; simpa using parent)
  refine ⟨_, _, u, ?_, endsIdle_entry _ (frames _ (b.draw_sign s.tree before after)),
    Places.isAbsolute_join b.temporary_absolute, named, drawn, view⟩
  show b.makeTemporary s b.temporary before after createDirectory = _
  simp only [Bench.makeTemporary, made]

/-- Without a place for temporary files no directory is made. -/
theorem run_temporaryDirectory_error {before after : String} (frames : Frames before after)
    (parent : View.directory s.tree.node? (b.place b.temporary) = false) :
    ∃ cause, (Program.temporaryDirectory before after).run b.host s = (.error cause, s) := by
  have named : b.place (b.temporary /
      Path.ofString (before ++ b.draw s.tree before after ++ after)) =
      b.place b.temporary ++ [utf8 (before ++ b.draw s.tree before after ++ after)] :=
    place_entry b b.temporary (frames _ (b.draw_sign s.tree before after))
  have free := (drawn b s.tree before after).fresh.free
    (q := b.place b.temporary ++ [utf8 (before ++ b.draw s.tree before after ++ after)]) (by simp)
  have refused : createDirectory s.tree (b.place (b.temporary /
      Path.ofString (before ++ b.draw s.tree before after ++ after))) =
      .error (.system .noEntry) := by
    rw [named, createDirectory, free, List.dropLast_concat, parent]
    rfl
  refine ⟨.making (b.temporary / Path.ofString (before ++ b.draw s.tree before after ++ after))
    (.system .noEntry), ?_⟩
  show b.makeTemporary s b.temporary before after createDirectory = _
  simp only [Bench.makeTemporary, refused]

theorem run_temporaryFile {directory : Path} {before after : String}
    (frames : Frames before after) (parent : View.directory s.tree.node? (b.place directory)) :
    ∃ p name u, (Program.temporaryFile directory before after).run b.host s =
        (.ok p, { s with tree := u }) ∧
      Bench.endsIdle p = false ∧
      b.place p = b.place directory ++ [name] ∧ Drawn s.tree.node? before after name ∧
      u.node? = View.put s.tree.node? (b.place p) (some (.file [] false)) := by
  have named : b.place (directory /
      Path.ofString (before ++ b.draw s.tree before after ++ after)) =
      b.place directory ++ [utf8 (before ++ b.draw s.tree before after ++ after)] :=
    place_entry b directory (frames _ (b.draw_sign s.tree before after))
  have drawn := drawn b s.tree before after
  have free : View.writable s.tree.node? (b.place (directory /
      Path.ofString (before ++ b.draw s.tree before after ++ after))) := by
    rw [named]
    exact View.writable_entry (drawn.fresh.free (by simp)) parent
  obtain ⟨u, made, view⟩ := write_ok [] free
  refine ⟨_, _, u, ?_, endsIdle_entry _ (frames _ (b.draw_sign s.tree before after)), named, drawn,
    view⟩
  show b.makeTemporary s directory before after (fun t place => write t place []) = _
  simp only [Bench.makeTemporary, made]

end Temporaries

section Tools

variable {b : Bench} {s : Bench.State}

/-- The outcome that a finish comes to. -/
def outcome (streams : Bytes × Bytes) : Bench.Finish → Outcome
  | .ended status => Command.outcomeOf status streams
  | .hung => .timedOut

theorem outcome_completed {streams : Bytes × Bytes} {finish : Bench.Finish} {output : Output}
    (h : outcome streams finish = .completed output) : finish = .ended (.exited 0) := by
  cases finish with
  | hung => cases h
  | ended status =>
    simp only [outcome, Command.outcomeOf] at h
    split at h
    · rename_i success
      rw [show status = .exited 0 by simpa [Status.isSuccess] using success]
    · cases h

theorem outcome_exited (streams : Bytes × Bytes) :
    outcome streams (.ended (.exited 0)) = .completed (Command.outputOf (.exited 0) streams) := rfl

/-- The state in which a command has been started and carried out. -/
def after (b : Bench) (s : Bench.State) (command : Command) : Bench.State :=
  { s with tree := (b.carryOut command s.tree).1, started := s.started ++ [command] }

theorem run_spawn (command : Command) (memory : Option Nat) :
    (Program.spawn command memory).run b.host s =
      if b.canStart command then
        (.ok ⟨s.started.length⟩, { s with started := s.started ++ [command] })
      else (.error (.system .noEntry), s) := rfl

theorem run_await {child : Child} {stop : Observation → Option Ending} {command : Command}
    (known : s.started[child.id]? = some command) :
    (Program.await child stop).run b.host s =
      (.ok (b.carryOut command s.tree).2.ending,
        { s with tree := (b.carryOut command s.tree).1 }) := by
  show b.host (.await child stop) s = _
  simp only [Bench.host, known]
  rfl

theorem run_collect {child : Child} {command : Command}
    (known : s.started[child.id]? = some command) :
    (Program.collect child).run b.host s = (b.tools.streams command, s) := by
  show b.host (.collect child) s = _
  simp only [Bench.host, known]
  rfl

@[simp] theorem run_terminate (child : Child) :
    (Program.terminate child).run b.host s = ((), s) := rfl

/-- A command runs to its end in one step, if it can be started. -/
theorem exec_command (command : Command) (memory limit : Option Nat) :
    exec b.host s (command.run memory limit) =
      if b.canStart command then
        (.ok (outcome (b.tools.streams command) (b.carryOut command s.tree).2), after b s command)
      else (.error (.spawn command.program.display (.system .noEntry)), s) := by
  unfold Command.run
  simp only [exec_bind, exec_monadLift, run_isCancelled, Bool.false_eq_true, if_false, exec_orFail,
    run_spawn]
  by_cases starts : b.canStart command
  · have known : (s.started ++ [command])[(⟨s.started.length⟩ : Child).id]? = some command := by
      simp
    have collected : (Program.collect ⟨s.started.length⟩).run b.host (after b s command) =
        (b.tools.streams command, after b s command) := run_collect known
    simp only [starts, if_true, mapError_ok]
    rw [run_await known]
    simp only [after] at collected ⊢
    cases finish : (b.carryOut command s.tree).2 with
    | ended status =>
      simp only [Bench.Finish.ending, exec_bind, exec_monadLift, collected, exec_pure]
      rfl
    | hung =>
      simp only [Bench.Finish.ending, exec_bind, exec_monadLift, run_warn, run_terminate,
        collected, exec_pure]
      rfl
  · simp only [starts, Bool.false_eq_true, if_false, mapError_error]

end Tools

section Preservation
open Trees

/-- How every run of an action ends that starts where something holds. -/
def Ends (host : Host σ) (P : σ → Prop) (a : Action ε α) (Q : Except ε α → σ → Prop) : Prop :=
  ∀ s, P s → Q (exec host s a).1 (exec host s a).2

/-- Whether every run of an action keeps what holds. -/
def Keeps (host : Host σ) (P : σ → Prop) (a : Action ε α) : Prop := Ends host P a fun _ => P

section Rules

variable {host : Host σ} {P : σ → Prop}

theorem Ends.bind {a : Action ε α} {f : α → Action ε β} {Q : Except ε α → σ → Prop}
    {R : Except ε β → σ → Prop} (first : Ends host P a Q)
    (second : ∀ value, Ends host (Q (.ok value)) (f value) R)
    (failed : ∀ e s, Q (.error e) s → R (.error e) s) : Ends host P (a >>= f) R := by
  intro s holds
  have next := first s holds
  rw [exec_bind]
  generalize exec host s a = result at next
  obtain ⟨result, t⟩ := result
  cases result with
  | ok value => exact second value t next
  | error e => exact failed e t next

/-- After an error nothing more is done. -/
theorem Ends.throw_bind {e : ε} {f : α → Action ε β} {Q : Except ε β → σ → Prop}
    (thrown : ∀ s, P s → Q (.error e) s) : Ends host P (MonadExcept.throw e >>= f) Q := thrown

theorem Ends.knowing {a : Action ε α} {Q : Except ε α → σ → Prop} {p : Prop}
    (h : p → Ends host P a Q) : Ends host (fun s => p ∧ P s) a Q :=
  fun s holds => h holds.1 s holds.2

theorem Ends.mono {a : Action ε α} {Q R : Except ε α → σ → Prop} (h : Ends host P a Q)
    (implies : ∀ result s, Q result s → R result s) : Ends host P a R :=
  fun s holds => implies _ _ (h s holds)

theorem Ends.lift {p : Program α} {Q : Except ε α → σ → Prop}
    (answered : ∀ s, P s → Q (.ok (p.run host s).1) (p.run host s).2) :
    Ends host P (monadLift p : Action ε α) Q := by
  intro s holds
  rw [exec_monadLift]
  exact answered s holds

theorem Ends.orFail {p : Program (Except φ α)} {toError : φ → ε} {Q : Except ε α → σ → Prop}
    (answered : ∀ s, P s → Q ((p.run host s).1.mapError toError) (p.run host s).2) :
    Ends host P (Action.orFail p toError) Q := by
  intro s holds
  rw [exec_orFail]
  exact answered s holds

theorem Ends.cleaningUp {a : Action ε α} {cleanup : Except ε α → Program Unit}
    {Q R : Except ε α → σ → Prop} (h : Ends host P a Q)
    (cleaned : ∀ result s, Q result s → R result ((cleanup result).run host s).2) :
    Ends host P (a.cleaningUp cleanup) R := by
  intro s holds
  rw [exec_cleaningUp]
  exact cleaned _ _ (h s holds)

theorem Ends.adapt {a : Action ε α} {f : ε → φ} {Q : Except φ α → σ → Prop}
    (h : Ends host P a fun result => Q (result.mapError f)) : Ends host P (a.adapt f) Q := by
  intro s holds
  rw [exec_adapt]
  exact h s holds

/-- A request, and what is done with its answer. -/
theorem Ends.asks {r : Request} {f : r.Answer → Action ε β} {R : Except ε β → σ → Prop}
    (Q : r.Answer → σ → Prop) (answered : ∀ s, P s → Q (host r s).1 (host r s).2)
    (rest : ∀ answer, Ends host (Q answer) (f answer) R) :
    Ends host P (monadLift (Program.request r) >>= f) R := by
  intro s holds
  rw [exec_bind, exec_monadLift]
  exact rest _ _ (answered s holds)

/-- A request that may be refused, and what is done with what it is answered. -/
theorem Ends.tries {p : Program (Except φ α)} {toError : φ → ε} {f : α → Action ε β}
    {R : Except ε β → σ → Prop} (Q : Except φ α → σ → Prop)
    (answered : ∀ s, P s → Q (p.run host s).1 (p.run host s).2)
    (failed : ∀ cause s, Q (.error cause) s → R (.error (toError cause)) s)
    (rest : ∀ value, Ends host (Q (.ok value)) (f value) R) :
    Ends host P (Action.orFail p toError >>= f) R := by
  intro s holds
  rw [exec_bind, exec_orFail]
  have next := answered s holds
  cases answer : (p.run host s).1 with
  | ok value =>
    rw [answer] at next
    exact rest value _ next
  | error cause =>
    rw [answer] at next
    exact failed cause _ next

theorem Keeps.pure (value : α) : Keeps host P (pure value : Action ε α) := fun _ holds => holds

theorem Keeps.and {a : Action ε α} {Q : σ → Prop} (first : Keeps host P a)
    (second : Keeps host Q a) : Keeps host (fun s => P s ∧ Q s) a :=
  fun s holds => ⟨first s holds.1, second s holds.2⟩

theorem Keeps.throw (e : ε) : Keeps host P (throw e : Action ε α) := fun _ holds => holds

theorem Keeps.bind {a : Action ε α} {f : α → Action ε β} (first : Keeps host P a)
    (second : ∀ value, Keeps host P (f value)) : Keeps host P (a >>= f) :=
  Ends.bind first second fun _ _ holds => holds

theorem Keeps.adapt {a : Action ε α} {f : ε → φ} (h : Keeps host P a) :
    Keeps host P (a.adapt f) := Ends.adapt h

theorem Keeps.cleaningUp {a : Action ε α} {cleanup : Except ε α → Program Unit}
    (h : Keeps host P a)
    (kept : ∀ (result : Except ε α) (s : σ), P s → P ((cleanup result).run host s).2) :
    Keeps host P (a.cleaningUp cleanup) := Ends.cleaningUp h kept

/-- An action whose result is looked at as a value. -/
theorem Keeps.attempt {a : Action φ α} (h : Keeps host P a) :
    Keeps host P (ExceptT.lift a.run : Action ε (Except φ α)) := by
  intro s holds
  rw [exec_lift]
  exact h s holds

theorem Keeps.lift {p : Program α} (kept : ∀ s, P s → P (p.run host s).2) :
    Keeps host P (monadLift p : Action ε α) := Ends.lift kept

end Rules

variable {b : Bench} {P : View → Prop}

/-- Whether every run of an action on a bench keeps what holds of the files. -/
abbrev Preserves (b : Bench) (P : View → Prop) (a : Action ε α) : Prop :=
  Keeps b.host (fun s => P s.tree.node?) a

/-- A request that only looks. -/
theorem Keeps.look {p : Program α} (still : ∀ s : Bench.State, (p.run b.host s).2 = s) :
    Preserves b P (monadLift p : Action ε α) :=
  Keeps.lift fun s holds => (still s).symm ▸ holds

/-- A request that changes the files in a way that keeps the property, or fails. -/
theorem Keeps.change {p : Program (Except Failure Unit)} {toError : Failure → ε}
    {operate : FileTree → Except Failure FileTree}
    (is : ∀ s : Bench.State, p.run b.host s = Bench.change s (operate s.tree))
    (kept : ∀ t u : FileTree, P t.node? → operate t = .ok u → P u.node?) :
    Preserves b P (Action.orFail p toError) := by
  intro s holds
  rw [exec_orFail, is]
  cases done : operate s.tree with
  | ok u => exact kept _ _ holds done
  | error cause => exact holds

theorem Keeps.createDirectories {p : Path} {toError : Failure → ε}
    (kept : ∀ t u : FileTree, P t.node? → Trees.createDirectories t (b.place p) = .ok u →
      P u.node?) : Preserves b P (Action.orFail (Program.createDirectories p) toError) :=
  @Keeps.change b P _ _ _ (fun t => Trees.createDirectories t (b.place p)) (fun _ => rfl) kept

theorem Keeps.copy {p q : Path} {toError : Failure → ε}
    (kept : ∀ t u : FileTree, P t.node? → Trees.copy t (b.place p) (b.place q) = .ok u →
      P u.node?) : Preserves b P (Action.orFail (Program.copy p q) toError) :=
  @Keeps.change b P _ _ _ (fun t => Trees.copy t (b.place p) (b.place q)) (fun _ => rfl) kept

theorem Keeps.write {p : Path} {content : Bytes} {toError : Failure → ε}
    (kept : ∀ t u : FileTree, P t.node? → Trees.write t (b.place p) content = .ok u → P u.node?) :
    Preserves b P (Action.orFail (Program.write p content) toError) :=
  @Keeps.change b P _ _ _ (fun t => Trees.write t (b.place p) content) (fun _ => rfl) kept

theorem Keeps.makeExecutable {p : Path} {toError : Failure → ε} :
    Preserves b P (Action.orFail (Program.makeExecutable p) toError) := by
  intro s holds
  rw [exec_orFail]
  exact holds

theorem Keeps.command {command : Command} {memory limit : Option Nat}
    (carried : ∀ t : FileTree, P t.node? → P (b.carryOut command t).1.node?) :
    Preserves b P (command.run memory limit) := by
  intro s holds
  rw [exec_command]
  split
  · exact carried _ holds
  · exact holds

end Preservation

end BugHunt.Proofs.Runs
