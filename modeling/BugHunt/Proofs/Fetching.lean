import BugHunt.Pipeline.Fetch
import BugHunt.Proofs.Verdicts
/-!
What fetching asks and is answered. For a root that is not there and that a repository provides, it
looks for the directory of the repository, has git clone it where it is not there, and looks for the
root again.
-/

namespace BugHunt.Proofs.Fetching
open Courses

/-- What is asked when a tool has been started. -/
inductive Tending : Request → Prop
  | note (line : LogLine) : Tending (.log line)
  | await (child : Child) (stop : Observation → Option Ending) : Tending (.await child stop)
  | terminate (child : Child) : Tending (.terminate child)
  | collect (child : Child) : Tending (.collect child)

variable {c : Config} {memory limit : Option Nat} {xs : List Exchange} {command : Command}

/-! ## Actions -/

/-- A course of two actions, one after the other, is one of the first that ends in an error, or goes on
to one of the second. -/
theorem course_onward {a : Action ε α} {f : α → Action ε β} {result : Except ε β}
    (course : Course (a >>= f).run xs result) :
    (∃ e, Course a.run xs (.error e) ∧ result = .error e) ∨
      ∃ ys zs value, xs = ys ++ zs ∧ Course a.run ys (.ok value) ∧ Course (f value).run zs result := by
  rw [ExceptT.run_bind] at course
  obtain ⟨ys, zs, first, rfl, begun, rest⟩ := course.split
  cases first with
  | error e =>
    obtain ⟨rfl, rfl⟩ := course_done rest
    rw [List.append_nil]
    exact .inl ⟨e, begun, rfl⟩
  | ok value => exact .inr ⟨ys, zs, value, rfl, begun, rest⟩

/-- An action that asks first for something that cannot fail. -/
theorem course_asks {r : Request} {f : r.Answer → Action ε β} {result : Except ε β}
    (course : Course (monadLift (Program.request r) >>= f).run xs result) :
    ∃ answer ys, xs = ⟨r, answer⟩ :: ys ∧ Course (f answer).run ys result := by
  obtain ⟨e, begun, -⟩ | ⟨ys, zs, answer, rfl, begun, rest⟩ := course_onward course
  · cases begun with
    | ask _ ended => cases ended
  · cases begun with
    | ask _ ended =>
      cases ended
      exact ⟨answer, zs, rfl, rest⟩

/-! ## Tools -/

/-- What the run of a tool asks and is answered, and how it ends. -/
inductive Ran (command : Command) (memory limit : Option Nat) : List Exchange → Except RunError Outcome → Prop
  | stopped (e : RunError) : Ran command memory limit [⟨.isCancelled, true⟩] (.error e)
  | failed (e : RunError) {answer : Except Failure Child} {tail : List Exchange}
    (tending : ∀ x ∈ tail, Tending x.request) :
    Ran command memory limit (⟨.isCancelled, false⟩ :: ⟨.spawn command memory, answer⟩ :: tail) (.error e)
  | timedOut {child : Child} {tail : List Exchange} (tending : ∀ x ∈ tail, Tending x.request) :
    Ran command memory limit (⟨.isCancelled, false⟩ :: ⟨.spawn command memory, .ok child⟩ :: tail)
      (.ok .timedOut)
  | exited (child : Child) (status : Status) (streams : Bytes × Bytes) :
    Ran command memory limit [⟨.isCancelled, false⟩, ⟨.spawn command memory, .ok child⟩,
      ⟨.await child (Observation.ending? (limit.map (1000 * ·))), .ok (.exited status)⟩,
      ⟨.collect child, streams⟩]
      (.ok (Command.outcomeOf status streams))

theorem ran_of_course {result : Except RunError Outcome}
    (course : Course (command.run memory limit).run xs result) : Ran command memory limit xs result := by
  obtain ⟨cancelled, xs, rfl, goesOn⟩ := course_asks course
  cases cancelled with
  | true =>
    cases goesOn
    exact .stopped _
  | false =>
    obtain ⟨cause, begun, rfl⟩ | ⟨ys, zs, child, rfl, begun, started⟩ := course_onward goesOn
    · obtain _ | ⟨answer, ended⟩ := begun
      cases answer <;> cases ended
      exact .failed _ (by simp)
    · obtain _ | ⟨answer, ended⟩ := begun
      cases answer <;> cases ended
      obtain ⟨ending, xs, rfl, waited⟩ := course_asks started
      rcases ending with cause | status | _ | _
      · obtain ⟨streams, xs, rfl, ended⟩ := course_asks waited
        cases ended
        exact .failed _ (by simp [Tending.await, Tending.collect])
      · obtain ⟨streams, xs, rfl, ended⟩ := course_asks waited
        cases ended
        exact .exited child status streams
      · obtain ⟨_, xs, rfl, killed⟩ := course_asks waited
        obtain ⟨streams, xs, rfl, ended⟩ := course_asks killed
        cases ended
        exact .failed _ (by simp [Tending.await, Tending.terminate, Tending.collect])
      · obtain ⟨_, xs, rfl, warned⟩ := course_asks waited
        obtain ⟨_, xs, rfl, killed⟩ := course_asks warned
        obtain ⟨streams, xs, rfl, ended⟩ := course_asks killed
        cases ended
        exact .timedOut (by simp [Tending.await, Tending.note, Tending.terminate, Tending.collect])

/-! ## Roots -/

/-- The call of git that clones a repository into its directory. -/
def gitClone (c : Config) (r : String × String) : Command :=
  Command.ofProgram c.tools.git |>.texts ["clone", "--depth=1", "--branch=master", r.2]
    |>.path (Path.ofString r.1)

/-- What is said before a repository is cloned. -/
def cloning (r : String × String) : Exchange :=
  ⟨.log ⟨.info, s!"Cloning {r.2} into {(Path.ofString r.1).display}"⟩, ()⟩

def looked (p : Path) (found : Bool) : Exchange := ⟨.file (.exists p), found⟩

/-- How the fetching of a root ends with a last look at it. -/
def settled (root : Path) (cloned : List Path) (found : Bool) : Except SetupError (List Path) :=
  if found then .ok cloned else .error (.stillMissing root)

theorem clone_course {r : String × String} {result : Except SetupError Unit}
    (course : Course (Fetch.clone c memory r.2 r.1).run xs result) :
    ∃ ys outcome, xs = cloning r :: ys ∧ Ran (gitClone c r) memory none ys outcome ∧
      ((∃ streams, outcome = .ok (Command.outcomeOf (.exited 0) streams) ∧ result = .ok ()) ∨
        ∃ e, result = .error e ∧ ∀ root, e ≠ .stillMissing root) := by
  obtain ⟨-, ys, rfl, course⟩ := course_asks course
  have adapted {zs : List Exchange} {result : Except SetupError Outcome}
      (course : Course (((gitClone c r).run memory none).adapt SetupError.run).run zs result) :
      ∃ outcome, result = outcome.mapError .run ∧ Ran (gitClone c r) memory none zs outcome := by
    obtain ⟨ys, zs, outcome, rfl, begun, rest⟩ := Course.split course
    obtain ⟨rfl, rfl⟩ := course_done rest
    rw [List.append_nil]
    exact ⟨outcome, rfl, ran_of_course begun⟩
  obtain ⟨e, begun, rfl⟩ | ⟨ys, zs, outcome, rfl, begun, rest⟩ := course_onward course
  · obtain ⟨outcome, same, ran⟩ := adapted begun
    refine ⟨_, outcome, rfl, ran, .inr ⟨e, rfl, ?_⟩⟩
    rintro root rfl
    cases outcome <;> cases same
  · obtain ⟨first, same, ran⟩ := adapted begun
    cases first with
    | error e => cases same
    | ok first =>
      obtain rfl := Except.ok.inj same
      cases ran with
      | timedOut tending =>
        cases rest
        exact ⟨_, _, rfl, .timedOut (by simpa using tending), .inr ⟨_, rfl, by simp⟩⟩
      | exited child status streams =>
        by_cases success : status = .exited 0
        · subst success
          cases rest
          exact ⟨_, _, rfl, .exited child _ streams, .inl ⟨streams, rfl, rfl⟩⟩
        · have failure : Command.outcomeOf status streams = .failed (Command.outputOf status streams) := by
            rw [Command.outcomeOf, if_neg (by simpa [Status.isSuccess] using success)]
          rw [failure] at rest
          cases rest
          exact ⟨_, _, rfl, .exited child status streams, .inr ⟨_, rfl, by simp⟩⟩

/-- What fetching asks and is answered for a root, and how that ends. -/
inductive Way (c : Config) (memory : Option Nat) (root : Path) :
    List Exchange → Except SetupError (List Path) → Prop
  | there : Way c memory root [looked root true] (.ok [])
  | unknown (unknown : Fetch.repositoryFor c root = none) (line : LogLine) :
    Way c memory root [looked root false, ⟨.log line, ()⟩] (.ok [])
  | present {r : String × String} (provides : Fetch.repositoryFor c root = some r) (found : Bool) :
    Way c memory root [looked root false, looked r.1 true, looked root found] (settled root [] found)
  | cloned {r : String × String} (provides : Fetch.repositoryFor c root = some r) {ys : List Exchange}
    {streams : Bytes × Bytes}
    (ran : Ran (gitClone c r) memory none ys (.ok (Command.outcomeOf (.exited 0) streams))) (found : Bool) :
    Way c memory root (looked root false :: looked r.1 false :: cloning r :: (ys ++ [looked root found]))
      (settled root [r.1] found)
  | failed {r : String × String} (provides : Fetch.repositoryFor c root = some r) {ys : List Exchange}
    {outcome : Except RunError Outcome} (ran : Ran (gitClone c r) memory none ys outcome) {e : SetupError}
    (other : ∀ root, e ≠ .stillMissing root) :
    Way c memory root (looked root false :: looked r.1 false :: cloning r :: ys) (.error e)

theorem way_of_course {root : Path} {result : Except SetupError (List Path)}
    (course : Course (Fetch.root c memory root).run xs result) : Way c memory root xs result := by
  unfold Fetch.root at course
  obtain ⟨found, rest, rfl, afterLook⟩ := course_asks course
  cases found with
  | true =>
    cases afterLook
    exact .there
  | false =>
    cases provides : Fetch.repositoryFor c root with
    | none =>
      rw [provides] at afterLook
      obtain ⟨-, rest, rfl, afterNote⟩ := course_asks afterLook
      cases afterNote
      exact .unknown provides _
    | some r =>
      rw [provides] at afterLook
      obtain ⟨there, rest, rfl, onward⟩ := course_asks afterLook
      cases there with
      | true =>
        obtain ⟨found, rest, rfl, ended⟩ := course_asks onward
        cases found with
        | true =>
          cases ended
          exact .present provides true
        | false =>
          cases ended
          exact .present provides false
      | false =>
        obtain ⟨e, begun, rfl⟩ | ⟨ys, zs, value, rfl, begun, rest⟩ := course_onward onward
        · obtain ⟨ys, outcome, rfl, ran, ⟨-, -, same⟩ | ⟨e, same, other⟩⟩ := clone_course begun
          · cases same
          · obtain rfl := Except.error.inj same
            exact .failed provides ran other
        · obtain ⟨found, rest, rfl, ended⟩ := course_asks rest
          obtain ⟨ys, outcome, rfl, ran, ⟨streams, rfl, -⟩ | ⟨e, same, -⟩⟩ := clone_course begun
          · cases found with
            | true =>
              cases ended
              exact .cloned provides ran true
            | false =>
              cases ended
              exact .cloned provides ran false
          · cases same

/-- What fetching asks and is answered, one root after the other, until there is trouble. -/
inductive Tour (c : Config) (memory : Option Nat) :
    List Path → List Exchange → Except SetupError (List Path) → Prop
  | done : Tour c memory [] [] (.ok [])
  | stop {root : Path} {rest : List Path} {xs : List Exchange} {e : SetupError}
    (way : Way c memory root xs (.error e)) : Tour c memory (root :: rest) xs (.error e)
  | next {root : Path} {rest : List Path} {xs ys : List Exchange} {cloned : List Path}
    {result : Except SetupError (List Path)} (way : Way c memory root xs (.ok cloned))
    (tour : Tour c memory rest ys result) :
    Tour c memory (root :: rest) (xs ++ ys) (result.map (cloned ++ ·))

theorem tour_of_course {roots : List Path} {result : Except SetupError (List Path)}
    (course : Course (Fetch.roots c memory roots).run xs result) : Tour c memory roots xs result := by
  induction roots generalizing xs result with
  | nil =>
    cases course
    exact .done
  | cons root rest ih =>
    obtain ⟨e, begun, rfl⟩ | ⟨ys, zs, cloned, rfl, begun, onward⟩ := course_onward course
    · exact .stop (way_of_course begun)
    · obtain ⟨e, more, rfl⟩ | ⟨ys, zs, others, rfl, more, ended⟩ := course_onward onward
      · exact .next (way_of_course begun) (ih more)
      · cases ended
        rw [List.append_nil]
        exact .next (way_of_course begun) (ih more)

/-! ## Where git is run -/

section Guards

variable {before after : List Exchange} {memory' : Option Nat} {called : Command}
  {answer : Except Failure Child}

theorem split_later {x y : Exchange} (other : x.request ≠ y.request)
    (split : x :: xs = before ++ y :: after) :
    ∃ more, before = x :: more ∧ xs = more ++ y :: after := by
  cases before with
  | nil => exact absurd (congrArg Exchange.request (List.cons.inj split).1) other
  | cons first more =>
    obtain ⟨rfl, rest⟩ := List.cons.inj split
    exact ⟨more, rfl, rest⟩

/-- An exchange among others that follow on one another is among the first or among the second. -/
theorem split_append {x : Exchange} {ys : List Exchange} (split : xs ++ ys = before ++ x :: after) :
    (∃ more, xs = before ++ x :: more) ∨ ∃ more, before = xs ++ more ∧ ys = more ++ x :: after := by
  rcases List.append_eq_append_iff.mp split with ⟨more, isBefore, rest⟩ | ⟨more, rfl, rest⟩
  · exact .inr ⟨more, isBefore, rest⟩
  · cases more with
    | nil => exact .inr ⟨[], by simp, rest.symm⟩
    | cons first more =>
      obtain ⟨rfl, -⟩ := List.cons.inj rest
      exact .inl ⟨more, rfl⟩

theorem not_split (other : ∀ x ∈ xs, ∀ called memory, x.request ≠ .spawn called memory) :
    xs ≠ before ++ ⟨.spawn called memory', answer⟩ :: after := by
  rintro rfl
  exact other ⟨.spawn called memory', answer⟩ (by simp) called memory' rfl

theorem Tending.not_spawn {r : Request} (tending : Tending r) (called : Command) (memory : Option Nat) :
    r ≠ .spawn called memory := by
  rintro rfl
  cases tending

theorem Ran.guarded {outcome : Except RunError Outcome} (ran : Ran command memory limit xs outcome)
    (split : xs = before ++ ⟨.spawn called memory', answer⟩ :: after) :
    called = command ∧ before = [⟨.isCancelled, false⟩] := by
  have started {answer' : Except Failure Child} {tail : List Exchange}
      (tending : ∀ x ∈ tail, Tending x.request)
      (split : ⟨.isCancelled, false⟩ :: ⟨.spawn command memory, answer'⟩ :: tail =
        before ++ ⟨.spawn called memory', answer⟩ :: after) :
      called = command ∧ before = [⟨.isCancelled, false⟩] := by
    obtain ⟨more, rfl, rest⟩ := split_later (by simp) split
    cases more with
    | nil =>
      obtain ⟨same, -⟩ := List.cons.inj rest
      obtain ⟨rfl, -⟩ := Request.spawn.inj (Exchange.mk.inj same).1
      exact ⟨rfl, rfl⟩
    | cons first more =>
      exact absurd (List.cons.inj rest).2 (not_split fun x among => (tending x among).not_spawn)
  cases ran with
  | stopped e => exact absurd split (not_split (by simp))
  | failed e tending => exact started tending split
  | timedOut tending => exact started tending split
  | exited child status streams =>
    exact started (by simp [Tending.await, Tending.collect]) split

/-- What comes before git is run for a root: neither the root nor the directory of its repository was
there. -/
def unmet (root : Path) (r : String × String) : List Exchange :=
  [looked root false, looked r.1 false, cloning r, ⟨.isCancelled, false⟩]

theorem Way.guarded {root : Path} {result : Except SetupError (List Path)} (way : Way c memory root xs result)
    (split : xs = before ++ ⟨.spawn called memory', answer⟩ :: after) :
    ∃ r, Fetch.repositoryFor c root = some r ∧ called = gitClone c r ∧ before = unmet root r := by
  have cloned {r : String × String} (provides : Fetch.repositoryFor c root = some r)
      {ys after : List Exchange} {outcome : Except RunError Outcome}
      (ran : Ran (gitClone c r) memory none ys outcome)
      (split : looked root false :: looked r.1 false :: cloning r :: ys =
        before ++ ⟨.spawn called memory', answer⟩ :: after) :
      ∃ r, Fetch.repositoryFor c root = some r ∧ called = gitClone c r ∧ before = unmet root r := by
    obtain ⟨_, rfl, first⟩ := split_later (by simp [looked]) split
    obtain ⟨_, rfl, second⟩ := split_later (by simp [looked]) first
    obtain ⟨_, rfl, third⟩ := split_later (by simp [cloning]) second
    obtain ⟨rfl, rfl⟩ := ran.guarded third
    exact ⟨r, provides, rfl, rfl⟩
  cases way with
  | there => exact absurd split (not_split (by simp [looked]))
  | unknown unknown line => exact absurd split (not_split (by simp [looked]))
  | present provides found => exact absurd split (not_split (by simp [looked]))
  | @cloned r provides ys streams ran found =>
    rcases split_append (show (looked root false :: looked r.1 false :: cloning r :: ys) ++
      [looked root found] = _ from split) with ⟨more, split⟩ | ⟨more, -, split⟩
    · exact cloned provides ran split
    · exact absurd split (not_split (by simp [looked]))
  | failed provides ran other => exact cloned provides ran split

theorem Tour.guarded {roots : List Path} {result : Except SetupError (List Path)}
    (tour : Tour c memory roots xs result) (split : xs = before ++ ⟨.spawn called memory', answer⟩ :: after) :
    ∃ root ∈ roots, ∃ r earlier, Fetch.repositoryFor c root = some r ∧ called = gitClone c r ∧
      before = earlier ++ unmet root r := by
  induction tour generalizing before after with
  | done => simp at split
  | @stop root rest xs e way =>
    obtain ⟨r, provides, isClone, isBefore⟩ := way.guarded split
    exact ⟨root, by simp, r, [], provides, isClone, isBefore⟩
  | @next root rest xs ys cloned result way tour ih =>
    rcases split_append split with ⟨more, here⟩ | ⟨more, rfl, later⟩
    · obtain ⟨r, provides, isClone, isBefore⟩ := way.guarded here
      exact ⟨root, by simp, r, [], provides, isClone, isBefore⟩
    · obtain ⟨root', among, r, earlier, provides, isClone, rfl⟩ := ih later
      exact ⟨root', by simp [among], r, xs ++ earlier, provides, isClone, (List.append_assoc ..).symm⟩

end Guards

/-! ## Roots that stay missing -/

/-- What is asked and answered for a root that is still missing in the end: the directory of its repository
was there, or git cloned it. -/
inductive StillMissing (c : Config) (memory : Option Nat) (root : Path) (r : String × String) :
    List Exchange → Prop
  | present : StillMissing c memory root r [looked root false, looked r.1 true, looked root false]
  | cloned {ys : List Exchange} {streams : Bytes × Bytes}
    (ran : Ran (gitClone c r) memory none ys (.ok (Command.outcomeOf (.exited 0) streams))) :
    StillMissing c memory root r
      (looked root false :: looked r.1 false :: cloning r :: (ys ++ [looked root false]))

variable {root : Path} {result : Except SetupError (List Path)}

theorem Way.still_missing {sought : Path} (way : Way c memory sought xs result)
    (isMissing : result = .error (.stillMissing root)) :
    ∃ r, Fetch.repositoryFor c root = some r ∧ StillMissing c memory root r xs := by
  cases way with
  | there => cases isMissing
  | unknown => cases isMissing
  | present provides found =>
    cases found with
    | true => cases isMissing
    | false =>
      cases isMissing
      exact ⟨_, provides, .present⟩
  | cloned provides ran found =>
    cases found with
    | true => cases isMissing
    | false =>
      cases isMissing
      exact ⟨_, provides, .cloned ran⟩
  | failed provides ran other => exact absurd (Except.error.inj isMissing) (other root)

theorem Tour.still_missing {roots : List Path} (tour : Tour c memory roots xs result)
    (isMissing : result = .error (.stillMissing root)) :
    ∃ r before tail, Fetch.repositoryFor c root = some r ∧ xs = before ++ tail ∧
      StillMissing c memory root r tail := by
  induction tour with
  | done => cases isMissing
  | stop way =>
    obtain ⟨r, provides, missing⟩ := way.still_missing isMissing
    exact ⟨r, [], _, provides, rfl, missing⟩
  | @next root' rest xs ys cloned result way tour ih =>
    cases result with
    | ok value => cases isMissing
    | error e =>
      obtain ⟨r, before, tail, provides, rfl, missing⟩ := ih isMissing
      exact ⟨r, xs ++ before, tail, provides, (List.append_assoc ..).symm, missing⟩

end BugHunt.Proofs.Fetching
