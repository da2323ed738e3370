import BugHunt.Tool.Run
/-!
What a program may ask, whatever is answered: a property of every request that it can come to, and
so of every request of every run.
-/

namespace BugHunt.Proofs.Asking

/-- Whether a program asks nothing but requests of some kind, whatever the answers. -/
def Asks (P : Request → Prop) : Program α → Prop
  | .done _ => True
  | .ask request next => P request ∧ ∀ answer, Asks P (next answer)

/-- Whether an action asks nothing but requests of some kind. -/
def Within (P : Request → Prop) (a : Action ε α) : Prop := Asks P a.run

section Composition

variable {P Q : Request → Prop}

theorem asks_request {r : Request} (holds : P r) : Asks P (Program.request r) :=
  ⟨holds, fun _ => trivial⟩

theorem Asks.bind {p : Program α} {f : α → Program β} (first : Asks P p)
    (second : ∀ value, Asks P (f value)) : Asks P (p >>= f) := by
  change Asks P (p.bind f)
  induction p with
  | done value => exact second value
  | ask request next ih => exact ⟨first.1, fun answer => ih answer (first.2 answer)⟩

theorem Asks.mono {p : Program α} (asks : Asks P p) (implies : ∀ r, P r → Q r) : Asks Q p := by
  induction p with
  | done value => trivial
  | ask request next ih => exact ⟨implies _ asks.1, fun answer => ih answer (asks.2 answer)⟩

/-- Every request of every run is one that the program may come to. -/
theorem Asks.mem_trace {host : Host σ} {p : Program α} (asks : Asks P p) (s : σ) :
    ∀ r ∈ p.trace host s, P r := by
  induction p generalizing s with
  | done value => simp [Program.trace]
  | ask request next ih =>
    intro r found
    rcases List.mem_cons.mp found with rfl | later
    · exact asks.1
    · exact ih _ (asks.2 _) _ r later

theorem trace_bind (host : Host σ) (s : σ) (p : Program α) (f : α → Program β) :
    (p >>= f).trace host s = p.trace host s ++ (f (p.run host s).1).trace host (p.run host s).2 := by
  change (p.bind f).trace host s = _
  induction p generalizing s with
  | done value => rfl
  | ask request next ih => exact congrArg (_ :: ·) (ih _ _)

/-- What the answer to each request keeps true, a whole run keeps true. -/
theorem Asks.run {host : Host σ} {I : σ → Prop} (kept : ∀ r s, P r → I s → I (host r s).2)
    {p : Program α} (asks : Asks P p) {s : σ} (holds : I s) : I (p.run host s).2 := by
  induction p generalizing s with
  | done value => exact holds
  | ask request next ih => exact ih _ (asks.2 _) (kept _ _ asks.1 holds)

theorem Within.pure (value : α) : Within P (pure value : Action ε α) := trivial

theorem Within.throw (e : ε) : Within P (throw e : Action ε α) := trivial

theorem Within.bind {a : Action ε α} {f : α → Action ε β} (first : Within P a)
    (second : ∀ value, Within P (f value)) : Within P (a >>= f) := by
  unfold Within
  rw [ExceptT.run_bind]
  refine Asks.bind first fun result => ?_
  cases result with
  | ok value => exact second value
  | error e => trivial

/-- After an error nothing more is asked. -/
theorem Within.throw_bind (e : ε) (f : α → Action ε β) : Within P (MonadExcept.throw e >>= f) := trivial

theorem Within.adapt {a : Action ε α} {f : ε → φ} (asks : Within P a) : Within P (a.adapt f) :=
  Asks.bind asks fun _ => trivial

theorem Within.lift {p : Program α} (asks : Asks P p) : Within P (ExceptT.lift p : Action ε α) :=
  Asks.bind asks fun _ => trivial

theorem Within.monadLift {p : Program α} (asks : Asks P p) :
    Within P (monadLift p : Action ε α) := Within.lift asks

theorem Within.orFail {p : Program (Except φ α)} {toError : φ → ε} (asks : Asks P p) :
    Within P (Action.orFail p toError) := by
  refine Asks.bind asks fun answer => ?_
  cases answer with
  | ok value => trivial
  | error failure => trivial

theorem Within.cleaningUp {a : Action ε α} {cleanup : Except ε α → Program Unit}
    (asks : Within P a) (after : ∀ result, Asks P (cleanup result)) :
    Within P (a.cleaningUp cleanup) :=
  Asks.bind asks fun result => Asks.bind (after result) fun _ => trivial

end Composition

/-- The requests by which a tool is run. -/
inductive Running (command : Command) (memory : Option Nat) : Request → Prop
  | isCancelled : Running command memory .isCancelled
  | spawn : Running command memory (.spawn command memory)
  | await (child : Child) (stop : Observation → Option Ending) :
    Running command memory (.await child stop)
  | terminate (child : Child) : Running command memory (.terminate child)
  | collect (child : Child) : Running command memory (.collect child)
  | warn (message : String) : Running command memory (.log ⟨.warn, message⟩)

/-- Running a tool asks nothing of the files. -/
theorem within_command (command : Command) (memory limit : Option Nat) :
    Within (Running command memory) (command.run memory limit) := by
  unfold Command.run
  refine .bind (.monadLift (asks_request .isCancelled)) fun cancelled => ?_
  dsimp only
  split
  · exact .throw_bind _ _
  · refine .bind (.orFail (asks_request .spawn)) fun child =>
      .bind (.monadLift (asks_request (.await child _))) fun ending => ?_
    have collect : Asks (Running command memory) (Program.collect child) :=
      asks_request (.collect child)
    have terminate : Asks (Running command memory) (Program.terminate child) :=
      asks_request (.terminate child)
    have warn (message : String) : Asks (Running command memory) (Program.warn message) :=
      asks_request (.warn _)
    split
    · exact .bind (.monadLift collect) fun _ => .throw _
    · exact .bind (.monadLift collect) fun _ => .pure _
    · exact .bind (.monadLift terminate) fun _ => .bind (.monadLift collect) fun _ => .throw _
    · exact .bind (.monadLift (warn _)) fun _ => .bind (.monadLift terminate) fun _ =>
        .bind (.monadLift collect) fun _ => .pure _

end BugHunt.Proofs.Asking
