import BugHunt.Proofs.Asking
import BugHunt.Proofs.Runs
/-!
Courses of programs: what was asked and answered on the way to a value. A course knows no host, so
it is as well the share of one program in the doings of several that run side by side.
-/

namespace BugHunt.Proofs.Courses
open Asking Runs

/-- A request with the answer that it was given. -/
structure Exchange where
  request : Request
  answer : request.Answer

/-- `Course p xs value`: given the answers of `xs`, the program asks just the requests of `xs` and
comes to the value. -/
inductive Course {α : Type} : Program α → List Exchange → α → Prop
  | done (value : α) : Course (.done value) [] value
  | ask {request : Request} {next : request.Answer → Program α} (answer : request.Answer)
      {xs : List Exchange} {value : α} (rest : Course (next answer) xs value) :
      Course (.ask request next) (⟨request, answer⟩ :: xs) value

/-- What is asked and answered in a run. -/
def record (host : Host σ) (s : σ) : Program α → List Exchange
  | .done _ => []
  | .ask request next =>
    ⟨request, (host request s).1⟩ :: record host (host request s).2 (next (host request s).1)

/-- A run follows the course that is its record. -/
theorem course_run (host : Host σ) (s : σ) (p : Program α) :
    Course p (record host s p) (p.run host s).1 := by
  induction p generalizing s with
  | done value => exact .done value
  | ask request next ih => exact .ask _ (ih _ _)

theorem record_bind (host : Host σ) (s : σ) (p : Program α) (f : α → Program β) :
    record host s (p >>= f) = record host s p ++ record host (p.run host s).2 (f (p.run host s).1) := by
  change record host s (p.bind f) = _
  induction p generalizing s with
  | done value => rfl
  | ask request next ih => exact congrArg (_ :: ·) (ih _ _)

theorem record_exec_bind (host : Host σ) (s : σ) (a : Action ε α) (f : α → Action ε β) :
    record host s (a >>= f).run = record host s a.run ++ match exec host s a with
      | (.ok value, t) => record host t (f value).run
      | (.error _, _) => [] := by
  rw [ExceptT.run_bind, record_bind, exec]
  generalize Program.run host s a.run = result
  obtain ⟨result, t⟩ := result
  cases result <;> rfl

theorem record_bind_ok {host : Host σ} {s t : σ} {a : Action ε α} {f : α → Action ε β} {value : α}
    (first : exec host s a = (.ok value, t)) :
    record host s (a >>= f).run = record host s a.run ++ record host t (f value).run := by
  rw [record_exec_bind, first]

theorem record_adapt (host : Host σ) (s : σ) (a : Action ε α) (f : ε → φ) :
    record host s (a.adapt f).run = record host s a.run :=
  (record_bind host s a.run fun result => pure (result.mapError f)).trans (List.append_nil _)

theorem record_orFail (host : Host σ) (s : σ) (p : Program (Except φ α)) (toError : φ → ε) :
    record host s (Action.orFail p toError).run = record host s p := by
  unfold Action.orFail
  rw [ExceptT.run_mk, record_bind]
  cases (p.run host s).1 <;> exact List.append_nil _

section Composition

variable {xs ys : List Exchange}

theorem course_done {value result : α} (course : Course (.done value) xs result) :
    xs = [] ∧ result = value := by
  cases course
  exact ⟨rfl, rfl⟩

theorem course_request {r : Request} {answer : r.Answer} (course : Course (Program.request r) xs answer) :
    xs = [⟨r, answer⟩] := by
  cases course with
  | ask _ rest =>
    obtain ⟨rfl, rfl⟩ := course_done rest
    rfl

/-- A course of two programs, one after the other, is a course of the first and one of the second. -/
theorem Course.split {p : Program α} {f : α → Program β} {result : β}
    (course : Course (p >>= f) xs result) :
    ∃ ys zs value, xs = ys ++ zs ∧ Course p ys value ∧ Course (f value) zs result := by
  change Course (p.bind f) xs result at course
  induction p generalizing xs with
  | done value => exact ⟨[], xs, value, rfl, .done value, course⟩
  | ask request next ih =>
    cases course with
    | ask answer rest =>
      obtain ⟨ys, zs, value, rfl, first, second⟩ := ih answer rest
      exact ⟨_ :: ys, zs, value, rfl, .ask answer first, second⟩

theorem Course.bind {p : Program α} {f : α → Program β} {value : α} {result : β}
    (first : Course p xs value) (second : Course (f value) ys result) :
    Course (p >>= f) (xs ++ ys) result := by
  change Course (p.bind f) (xs ++ ys) result
  induction first with
  | done value => exact second
  | ask answer rest ih => exact .ask answer (ih second)

/-- What a program may ask is all that it asks on any course. -/
theorem Course.asks {P : Request → Prop} {p : Program α} {value : α} (course : Course p xs value)
    (asks : Asks P p) : ∀ x ∈ xs, P x.request := by
  induction course with
  | done value => simp
  | ask answer rest ih =>
    intro x among
    rcases List.mem_cons.mp among with rfl | later
    · exact asks.1
    · exact ih (asks.2 _) x later

end Composition

/-! ## Courses that come to a value -/

/-- Whether every course of an action that ends well ends as `Q` says. -/
def Yields (a : Action ε α) (Q : List Exchange → α → Prop) : Prop :=
  ∀ xs value, Course a.run xs (.ok value) → Q xs value

section Rules

variable {a : Action ε α} {f : α → Action ε β} {p : Program α} {P Q : List Exchange → α → Prop}
  {R : List Exchange → β → Prop}

theorem Yields.pure {value : α} (holds : Q [] value) : Yields (pure value : Action ε α) Q := by
  intro xs result course
  obtain ⟨rfl, same⟩ := course_done course
  obtain rfl := Except.ok.inj same
  exact holds

theorem Yields.throw (e : ε) : Yields (throw e : Action ε α) Q := by
  intro xs result course
  cases (course_done course).2

theorem Yields.throw_bind (e : ε) : Yields (MonadExcept.throw e >>= f) R := by
  intro xs result course
  cases (course_done course).2

theorem Yields.mono (yields : Yields a P) (implies : ∀ xs value, P xs value → Q xs value) :
    Yields a Q := fun xs value course => implies xs value (yields xs value course)

theorem Yields.bind
    (first : Yields a fun xs value => Yields (f value) fun ys result => R (xs ++ ys) result) :
    Yields (a >>= f) R := by
  intro xs result course
  rw [ExceptT.run_bind] at course
  obtain ⟨ys, zs, answer, rfl, before, after⟩ := course.split
  cases answer with
  | ok value => exact first ys value before zs result after
  | error e => cases (course_done after).2

theorem Yields.of_within {P : Request → Prop} (asks : Within P a) :
    Yields a fun xs _ => ∀ x ∈ xs, P x.request :=
  fun _ _ course => course.asks asks

theorem Yields.adapt {g : ε → φ} (yields : Yields a Q) : Yields (a.adapt g) Q := by
  intro xs result course
  obtain ⟨ys, zs, answer, rfl, before, after⟩ := Course.split (p := a.run) course
  obtain ⟨rfl, same⟩ := course_done after
  rw [List.append_nil]
  cases answer with
  | ok value =>
    obtain rfl := Except.ok.inj same
    exact yields ys result before
  | error e => cases same

theorem Yields.lift
    (yields : ∀ xs value, Course p xs value → Q xs value) : Yields (ExceptT.lift p : Action ε α) Q := by
  intro xs result course
  obtain ⟨ys, zs, answer, rfl, before, after⟩ := Course.split (p := p) course
  obtain ⟨rfl, same⟩ := course_done after
  obtain rfl := Except.ok.inj same
  rw [List.append_nil]
  exact yields ys result before

theorem Yields.monadLift
    (yields : ∀ xs value, Course p xs value → Q xs value) : Yields (monadLift p : Action ε α) Q :=
  .lift yields

theorem Yields.orFail {p : Program (Except φ α)} {toError : φ → ε}
    (yields : ∀ xs value, Course p xs (.ok value) → Q xs value) : Yields (Action.orFail p toError) Q := by
  intro xs result course
  obtain ⟨ys, zs, answer, rfl, before, after⟩ := Course.split (p := p) course
  cases answer with
  | ok value =>
    obtain ⟨rfl, same⟩ := course_done after
    obtain rfl := Except.ok.inj same
    rw [List.append_nil]
    exact yields ys result before
  | error failure => cases (course_done after).2

end Rules
end BugHunt.Proofs.Courses
