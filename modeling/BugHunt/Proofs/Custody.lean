import BugHunt.Proofs.Asking
import BugHunt.Proofs.Building
/-!
What a program holds while it runs, and what it may ask by what it holds. A discipline lays down
both; a program that abides by one ends with what it is to hold at its end, whatever it was
answered. A build holds at most one staging file, which it asks a compiler to fill, and it gives
that file its final name only after it has read bitcode in it.
-/

namespace BugHunt.Proofs.Custody
open Asking

/-- What may be asked by what is held, and what is held after an answer. -/
structure Discipline (H : Type) where
  may : H → Request → Prop
  after : H → (r : Request) → r.Answer → H

variable {H : Type} {d : Discipline H}

/-- Whether a program asks only what it may, whatever the answers, and comes to its end with a value
and a hold as `Q` says. -/
def Abides (d : Discipline H) (Q : α → H → Prop) : H → Program α → Prop
  | h, .done value => Q value h
  | h, .ask r next => d.may h r ∧ ∀ answer, Abides d Q (d.after h r answer) (next answer)

/-- Whether an action abides by a discipline. -/
def Heeds (d : Discipline H) (Q : Except ε α → H → Prop) (h : H) (a : Action ε α) : Prop :=
  Abides d Q h a.run

section Rules

variable {h : H}

theorem Abides.mono {P Q : α → H → Prop} {p : Program α} (abides : Abides d P h p)
    (implies : ∀ value h, P value h → Q value h) : Abides d Q h p := by
  induction p generalizing h with
  | done value => exact implies _ _ abides
  | ask r next ih => exact ⟨abides.1, fun answer => ih answer (abides.2 answer)⟩

theorem Abides.bind {Q : β → H → Prop} {p : Program α} {f : α → Program β}
    (first : Abides d (fun value h => Abides d Q h (f value)) h p) : Abides d Q h (p >>= f) := by
  change Abides d Q h (p.bind f)
  induction p generalizing h with
  | done value => exact first
  | ask r next ih => exact ⟨first.1, fun answer => ih answer (first.2 answer)⟩

theorem Abides.request {Q : α → H → Prop} {r : Request} {f : r.Answer → Program α}
    (may : d.may h r) (next : ∀ answer, Abides d Q (d.after h r answer) (f answer)) :
    Abides d Q h (Program.request r >>= f) :=
  ⟨may, next⟩

theorem Heeds.pure {Q : Except ε α → H → Prop} {value : α} (holds : Q (.ok value) h) :
    Heeds d Q h (pure value : Action ε α) := holds

theorem Heeds.throw_bind {Q : Except ε β → H → Prop} {e : ε} {f : α → Action ε β}
    (holds : Q (.error e) h) : Heeds d Q h (MonadExcept.throw e >>= f) := holds

/-- What holds at the end of the first of two actions: what the second needs, or what is to hold
after an error. -/
def Onward (d : Discipline H) (Q : Except ε β → H → Prop) (f : α → Action ε β) :
    Except ε α → H → Prop
  | .ok value, h => Heeds d Q h (f value)
  | .error e, h => Q (.error e) h

theorem Heeds.bind {Q : Except ε β → H → Prop} {a : Action ε α} {f : α → Action ε β}
    (first : Heeds d (Onward d Q f) h a) : Heeds d Q h (a >>= f) := by
  unfold Heeds
  rw [ExceptT.run_bind]
  refine Abides.bind (first.mono fun result h holds => ?_)
  cases result with
  | ok value => exact holds
  | error e => exact holds

theorem Heeds.adapt {Q : Except φ α → H → Prop} {a : Action ε α} {g : ε → φ}
    (heeds : Heeds d (fun result => Q (result.mapError g)) h a) : Heeds d Q h (a.adapt g) :=
  Abides.bind heeds

theorem Heeds.lifted {Q : Except ε α → H → Prop} {p : Program α}
    (abides : Abides d (fun value => Q (.ok value)) h p) :
    Heeds d Q h (monadLift p : Action ε α) :=
  Abides.bind abides

/-- Asking for something and going on with the answer. -/
theorem Heeds.asks {Q : Except ε β → H → Prop} {r : Request} {f : r.Answer → Action ε β}
    (may : d.may h r) (next : ∀ answer, Heeds d Q (d.after h r answer) (f answer)) :
    Heeds d Q h (monadLift (Program.request r) >>= f) :=
  .bind (.lifted ⟨may, next⟩)

theorem Heeds.orFail {Q : Except ε α → H → Prop} {p : Program (Except φ α)} {toError : φ → ε}
    (abides : Abides d (fun answer => Q (answer.mapError toError)) h p) :
    Heeds d Q h (Action.orFail p toError) := by
  refine Abides.bind (abides.mono fun answer h holds => ?_)
  cases answer with
  | ok value => exact holds
  | error failure => exact holds

/-- What holds of the answer to something that may fail: what the rest needs, or what is to hold
after the error that is made of a failure. -/
def Tried (d : Discipline H) (Q : Except ε β → H → Prop) (toError : φ → ε) (f : α → Action ε β) :
    Except φ α → H → Prop
  | .ok value, h => Heeds d Q h (f value)
  | .error cause, h => Q (.error (toError cause)) h

theorem Heeds.tries {Q : Except ε β → H → Prop} {p : Program (Except φ α)} {toError : φ → ε}
    {f : α → Action ε β} (abides : Abides d (Tried d Q toError f) h p) :
    Heeds d Q h (Action.orFail p toError >>= f) := by
  refine .bind (.orFail (abides.mono fun answer h holds => ?_))
  cases answer with
  | ok value => exact holds
  | error cause => exact holds

theorem Heeds.cleaningUp {Q : Except ε α → H → Prop} {a : Action ε α}
    {cleanup : Except ε α → Program Unit}
    (heeds : Heeds d (fun result h => Abides d (fun _ => Q result) h (cleanup result)) h a) :
    Heeds d Q h (a.cleaningUp cleanup) :=
  Abides.bind (heeds.mono fun _ _ after => .bind after)

end Rules

/-! ## The staging file of a build -/

/-- What a build holds: a staging file, with a compiler at work on it, with all that a compiler that
ended well has left in it, or with bitcode read in it; or the IR under its final name. -/
inductive Hold where
  | nothing
  | staging (file : Path)
  | working (file : Path) (child : Child)
  | whole (file : Path)
  | approved (file : Path)
  | there

namespace Hold

def file? : Hold → Option Path
  | nothing | there => none
  | staging file | working file _ | whole file | approved file => some file

/-- What is held after an answer. -/
def after : Hold → (r : Request) → r.Answer → Hold
  | nothing, .file (.exists _), true => there
  | nothing, .temporaryFile .., .ok file => staging file
  | staging file, .spawn .., .ok child => working file child
  | working file _, .await .., .ok (.exited status) =>
    if status.isSuccess then whole file else staging file
  | working file _, .await .., .error _ => staging file
  | working file _, .terminate _, _ => staging file
  | whole file, .file (.read _), .ok content =>
    if isBitcode content then approved file else whole file
  | approved _, .file (.rename ..), .ok _ => there
  | staging _, .file (.remove _), _ | whole _, .file (.remove _), _
  | approved _, .file (.remove _), _ => nothing
  | hold, _, _ => hold

/-- What a build may ask by what it holds. -/
inductive May (c : Config) (outDir : Path) (a : Artifact) (p : Plan) : Hold → Request → Prop
  | looks : May c outDir a p nothing (.file (.exists p.irPath))
  | makesDirectories : May c outDir a p nothing (.file (.createDirectories outDir))
  | draws : May c outDir a p nothing (.temporaryFile outDir s!".{p.key}." ".bc")
  | asksCancelled (file : Path) : May c outDir a p (staging file) .isCancelled
  | starts (file : Path) (memory : Option Nat) :
    May c outDir a p (staging file) (.spawn (Compile.command c a p.flags file) memory)
  | awaits (file : Path) (child : Child) (stop : Observation → Option Ending) :
    May c outDir a p (working file child) (.await child stop)
  | warns (file : Path) (child : Child) (line : LogLine) :
    May c outDir a p (working file child) (.log line)
  | terminates (file : Path) (child : Child) :
    May c outDir a p (working file child) (.terminate child)
  | collectsStaging (file : Path) (child : Child) : May c outDir a p (staging file) (.collect child)
  | collects (file : Path) (child : Child) : May c outDir a p (whole file) (.collect child)
  | reads (file : Path) : May c outDir a p (whole file) (.file (.read file))
  | renames (file : Path) : May c outDir a p (approved file) (.file (.rename file p.irPath))
  | discardsStaging (file : Path) : May c outDir a p (staging file) (.file (.remove file))
  | discards (file : Path) : May c outDir a p (whole file) (.file (.remove file))
  | discardsApproved (file : Path) : May c outDir a p (approved file) (.file (.remove file))

/-- How a build ends: with the IR there and a success, or with nothing held and none. -/
def Ended (p : Plan) : Except CompileError Variant → Hold → Prop
  | .ok v, there => v = ⟨p, true⟩
  | .ok v, nothing => v = ⟨p, false⟩
  | .error _, nothing => True
  | _, _ => False

end Hold

open Hold

variable {c : Config} {outDir : Path} {a : Artifact} {p : Plan}

def discipline (c : Config) (outDir : Path) (a : Artifact) (p : Plan) : Discipline Hold where
  may := Hold.May c outDir a p
  after := Hold.after

/-- How a run of the compiler ends: what a compiler that ended well has left is whole. -/
def Ran (file : Path) : Except RunError Outcome → Hold → Prop
  | .ok (.completed _), h => h = .whole file
  | _, h => h = .staging file

theorem command_heeds (file : Path) (memory limit : Option Nat) :
    Heeds (discipline c outDir a p) (Ran file) (.staging file)
      ((Compile.command c a p.flags file).run memory limit) := by
  unfold Command.run
  refine .asks (May.asksCancelled file) fun cancelled => ?_
  cases cancelled with
  | true => exact rfl
  | false =>
    refine .tries ⟨May.starts file memory, fun started => ?_⟩
    cases started with
    | error cause => exact rfl
    | ok child =>
      refine Heeds.asks (May.awaits file child _) fun ending => ?_
      cases ending with
      | error cause => exact .asks (May.collectsStaging file child) fun _ => rfl
      | ok ending =>
        cases ending with
        | exited status =>
          show Heeds (discipline c outDir a p) (Ran file)
            (if status.isSuccess then .whole file else .staging file) _
          by_cases success : status.isSuccess
          · rw [if_pos success]
            refine .asks (May.collects file child) fun (streams : Bytes × Bytes) => ?_
            have outcome : Command.outcomeOf status streams = .completed _ := if_pos success
            show Ran file (.ok (Command.outcomeOf status streams)) _
            rw [outcome]
            rfl
          · rw [if_neg success]
            refine .asks (May.collectsStaging file child) fun (streams : Bytes × Bytes) => ?_
            have outcome : Command.outcomeOf status streams = .failed _ := if_neg success
            show Ran file (.ok (Command.outcomeOf status streams)) _
            rw [outcome]
            rfl
        | cancelled =>
          exact .asks (May.terminates file child) fun _ => .asks (May.collectsStaging file child) fun _ => rfl
        | timedOut =>
          exact .asks (May.warns file child _) fun _ => .asks (May.terminates file child) fun _ =>
            .asks (May.collectsStaging file child) fun _ => rfl

/-- What is held at the end of compiling into a staging file: the IR under its final name after a
success, and still the file otherwise. -/
def Compiled (file : Path) : Except CompileError Bool → Hold → Prop
  | .ok true, h => h = .there
  | _, h => h = .staging file ∨ h = .whole file ∨ h = .approved file

theorem intoStaging_heeds (file : Path) : Heeds (discipline c outDir a p) (Compiled file)
    (.staging file) (Compile.intoStaging c a p file) := by
  unfold Compile.intoStaging Compile.runTool
  refine .bind (.adapt ((command_heeds file _ _).mono fun result h ran => ?_))
  cases result with
  | error e => exact .inl ran
  | ok outcome =>
    cases outcome with
    | completed out =>
      obtain rfl : h = .whole file := ran
      refine .bind (.lifted (.bind ⟨May.reads file, fun (content : Except Failure Bytes) => ?_⟩))
      cases content with
      | error cause => exact .inr (.inl rfl)
      | ok content =>
        show Heeds (discipline c outDir a p) (Compiled file)
          (if isBitcode content then .approved file else .whole file) (if !isBitcode content then _ else _)
        cases magic : isBitcode content with
        | false => exact .inr (.inl rfl)
        | true =>
          refine .tries ⟨May.renames file, fun (renamed : Except Failure Unit) => ?_⟩
          cases renamed with
          | error cause => exact .inr (.inr rfl)
          | ok value => exact rfl
    | failed out =>
      obtain rfl : h = .staging file := ran
      exact .inl rfl
    | timedOut =>
      obtain rfl : h = .staging file := ran
      exact .inl rfl

/-- A staging file that did not get its final name is discarded. -/
theorem discard_abides {file : Path} {result : Except CompileError Bool} {h : Hold}
    (compiled : Compiled file result h) {Q : Unit → Hold → Prop}
    (there : result = .ok true → Q () .there) (nothing : result ≠ .ok true → Q () .nothing) :
    Abides (discipline c outDir a p) Q h (Compile.discardStaging file result) := by
  unfold Compile.discardStaging
  split
  · obtain rfl : h = .there := compiled
    exact there rfl
  · rename_i failed
    have holds : h = .staging file ∨ h = .whole file ∨ h = .approved file := by
      unfold Compiled at compiled
      split at compiled
      · exact absurd rfl failed
      · exact compiled
    rcases holds with rfl | rfl | rfl
    · exact ⟨May.discardsStaging file, fun _ => nothing failed⟩
    · exact ⟨May.discards file, fun _ => nothing failed⟩
    · exact ⟨May.discardsApproved file, fun _ => nothing failed⟩

/-- A build of a source abides by the discipline. -/
theorem build_heeds (isSource : a.isSource) :
    Heeds (discipline c outDir a p) (Ended p) .nothing (Compile.build c outDir a p) := by
  unfold Compile.build
  simp only [isSource, Bool.not_true, Bool.false_eq_true, if_false]
  refine .asks May.looks fun (found : Bool) => ?_
  cases found with
  | true => exact rfl
  | false =>
    refine .tries ⟨May.makesDirectories, fun (made : Except Failure Unit) => ?_⟩
    cases made with
    | error cause => exact trivial
    | ok value =>
      refine .tries ⟨May.draws, fun (drawn : Except Failure Path) => ?_⟩
      cases drawn with
      | error cause => exact trivial
      | ok file =>
        refine Heeds.bind (.cleaningUp ((intoStaging_heeds file).mono fun result h compiled => ?_))
        refine discard_abides compiled ?_ ?_
        · rintro rfl
          exact rfl
        · intro failed
          cases result with
          | error e => exact trivial
          | ok success =>
            cases success with
            | true => exact absurd rfl failed
            | false => exact rfl

end BugHunt.Proofs.Custody
