import BugHunt.Proofs.Estate
import BugHunt.Proofs.Stages
/-!
What a dispatch writes to: the copy that it keeps, the text beside it and what it reduces. Where the
paths of these lead to none of some places, a dispatch leaves those as they are, however it ends.
-/

namespace BugHunt.Proofs.Sparing
open Asking Estate FileTree Grounds Names Outcomes Places Reducing Runs StageOrder Toolless Ways

variable (c : Config) (a : Artifact) (v : Variant)

/-! ## The paths of a dispatch -/

/-- The copy of a variant that is kept. -/
def keptPath : Path := c.outputRoot / Reduce.keptName v

/-- The textual form of the copy. -/
def textPath : Path := (keptPath c v).withExtension "ll"

/-- The output directory as the minimizers are told of it. -/
def outputDirectory : Path := Path.absolute c.startDirectory c.outputRoot

/-- What IR is reduced to. -/
def reducedIrPath (ir : Path) : Path := outputDirectory c / Reduce.irName ir

/-- The bitcode of what IR is reduced to. -/
def bitcodePath (ir : Path) : Path := outputDirectory c / s!"{Plan.stemOf (reducedIrPath c ir)}.bc"

/-- The copy that a source is reduced in. -/
def sourcePath : Path := outputDirectory c / Reduce.sourceName a

/-- The call that disassembles a file beside itself. -/
def disassembling (path : Path) : Command :=
  Command.ofProgram c.tools.llvmDis |>.path path |>.text "-o" |>.path (path.withExtension "ll")

/-! ## The parts of a dispatch -/

/-- What follows on the making of the output directory: a variant is copied, and disassembled. -/
def keeping : Reducing Path := do
  Action.orFail (Program.copy v.irPath (keptPath c v)) (.files (keptPath c v))
  match ← ExceptT.lift (Compile.disassemble c (keptPath c v)).run with
  | .ok _ => return keptPath c v
  | .error (.run (.interrupted program)) => throw (.run (.interrupted program))
  | .error error =>
    Program.warn s!"Could not disassemble {(keptPath c v).display}: {error.message}"
    return keptPath c v

def reducing : Reducing Path :=
  match Backend.of a with
  | .irLevel => Reduce.reduceIr c v.irPath
  | .sourceLevel => Reduce.reduceSource c a

def onward : Reducing Path := do
  let _ ← keeping c v
  reducing c a v

/-- A dispatch makes the output directory, and goes on from there. -/
theorem dispatch_eq : Reduce.dispatch c a v =
    Action.orFail (Program.createDirectories c.outputRoot) (.files c.outputRoot) >>= fun _ => onward c a v := by
  have kept : Reduce.preserve c v =
      Action.orFail (Program.createDirectories c.outputRoot) (.files c.outputRoot) >>= fun _ => keeping c v := rfl
  rw [Reduce.dispatch, kept, bind_assoc]
  rfl

/-! ## What is asked for -/

section Requests

variable {P : Request → Prop}

/-- A variant is kept before it is disassembled. -/
theorem within_keeping (copies : P (.file (.copy v.irPath (keptPath c v))))
    (runs : ∀ r, Running (disassembling c (keptPath c v)) c.memoryLimit r → P r)
    (looks : ∀ r, Looking r → P r) (warns : ∀ message, P (.log ⟨.warn, message⟩)) :
    Within P (keeping c v) := by
  unfold keeping
  refine .bind (.orFail (asks_request copies)) fun _ =>
    .bind (.lift (Stages.disassemble_within c looks _ runs)) fun result => ?_
  split
  · exact .pure _
  · exact .throw _
  · exact .bind (.monadLift (asks_request (warns _))) fun _ => .pure _

end Requests

/-! ## What is left alone -/

variable {t : FileTree} {here : Place} {W Z : Place → Prop}

/-- A tool that is run on its own is harmless if its outputs are. -/
theorem harmless_running {command : Command} {memory : Option Nat}
    (clear : ∀ u, Spares t W u → ∀ q, Outputs u here command q → ¬ Z q) (r : Request)
    (running : Running command memory r) : Harmless t here W Z r := by
  cases running with
  | spawn => exact clear
  | _ => trivial

theorem harmless_looking (r : Request) (looking : Looking r) : Harmless t here W Z r := by
  cases r with
  | file request => cases request <;> trivial
  | _ => exact looking.elim

/-- What converters write to is where the path of their output leads. -/
theorem clear_convert {output : Path} (clear : Clear t here W Z output) (tool input : Path) (u : FileTree)
    (spares : Spares t W u) (q : Place) (isOutput : Outputs u here
      (Command.ofProgram tool |>.path input |>.text "-o" |>.path output) q) : ¬ Z q := by
  unfold Outputs at isOutput
  rw [convert_call] at isOutput
  obtain ⟨base, target, rfl, found, rfl⟩ := isOutput
  exact clear u spares true target found

variable {host : Host σ} {tree : σ → FileTree} {given : σ → Child → Place → Prop}
  (premises : Premises host tree here given) (watch : Watch t W Z)

/-- The keeping of a variant is harmless if the paths of the copy and of its text are clear. -/
theorem keeping_harmless (copies : Clear t here W W (keptPath c v)) (disassembles : Clear t here W Z (textPath c v)) :
    Within (Harmless t here W Z) (keeping c v) :=
  within_keeping c v copies (harmless_running (clear_convert disassembles _ _)) harmless_looking
    fun _ => trivial

include premises watch

theorem minimize_lasts (command : Command) (input : Path)
    (clear : ∀ u, Spares t W u → ∀ q, Outputs u here command q → ¬ W q) :
    Ends host (Stands tree given t W Z) (Reduce.minimize c command input) (Lasts tree given t W Z) := by
  have failed {e : ReduceError} : Ends host (Stands tree given t W Z) (throw e : Reducing Unit)
      (Lasts tree given t W Z) := fun s stands => stands.own watch
  unfold Reduce.minimize
  refine .bind (Q := Lasts tree given t W Z) (.adapt fun s stands => ?_) (fun outcome => ?_)
    fun _ _ => id
  · have lasts := command_lasts premises watch command c.memoryLimit none clear s stands
    cases result : (exec host s (command.run c.memoryLimit none)).1 with
    | ok outcome => rwa [result] at lasts
    | error e => rwa [result] at lasts
  · cases outcome with
    | completed _ => exact fun s stands => stands
    | failed _ => exact failed
    | timedOut => exact failed

/-- IR is reduced without harm if the outputs of the minimizer and the assembler are clear. -/
theorem reduceIr_lasts (ir : Path)
    (minimizes : ∀ u, Spares t W u → ∀ q, Outputs u here (irCommand c ir) q → ¬ W q)
    (assembles : Clear t here W Z (bitcodePath c ir)) :
    Ends host (Stands tree given t W Z) (Reduce.reduceIr c ir) (Lasts tree given t W Z) := by
  unfold Reduce.reduceIr
  refine .asks (fun _ => Stands tree given t W Z) (fun _ stands => stands.step premises watch trivial)
    fun found => ?_
  cases found with
  | true =>
    exact .asks (fun _ => Stands tree given t W Z) (fun _ stands => stands.step premises watch trivial)
      fun _ _ => id
  | false =>
    refine .asks (fun _ => Stands tree given t W Z) (fun _ stands => stands.step premises watch trivial)
      fun _ => .bind (Q := Lasts tree given t W Z) (minimize_lasts c premises watch (irCommand c ir) ir minimizes)
        (fun _ => ?_) fun _ _ => id
    have assembled : Within (Harmless t here W Z)
        (Compile.assemble c (reducedIrPath c ir) (outputDirectory c)) :=
      Stages.assemble_within c harmless_looking _ _ trivial (harmless_running (clear_convert assembles _ _))
    exact .bind (Q := Lasts tree given t W Z) (lasts_of_within premises watch assembled.adapt)
      (fun _ _ => id) fun _ _ => id

/-- The minimizer's script is written into its directory, and a copy that was not reduced goes. -/
theorem reduceCopy_lasts {t' : FileTree} {directory : Path} {P : Place}
    (scratch : Scratch t here W directory P t') (copies : Clear t here W W (sourcePath c a))
    (unlinked : ∀ u, Spares t W u → Unlinked u here (sourcePath c a))
    (minimizes : ∀ test u, Spares t W u → ∀ q, Outputs u here (sourceCommand c a test) q → ¬ W q) :
    Ends host (Stands tree given t' W Z)
      (Reduce.reduceCopy c a (outputDirectory c) (sourcePath c a) directory) (Lasts tree given t' W Z) := by
  have watch' := watch.kept scratch.spares
  have proper : Proper (utf8 "interesting.sh") := proper_of_length (by decide) (by decide)
  have script : Clear t' here W W (directory / "interesting.sh") := scratch.clear proper
  have removed : Harmless t' here W W (.file (.remove (sourcePath c a))) :=
    ⟨copies.kept scratch.spares, fun u spares => unlinked u (scratch.spares.trans spares)⟩
  unfold Reduce.reduceCopy
  refine .tries (fun _ => Stands tree given t' W Z) (fun s stands => stands.step premises watch' script)
    (fun _ _ stands => stands.own watch') fun _ =>
      .tries (fun _ => Stands tree given t' W Z) (fun s stands => stands.step premises watch' script)
        (fun _ _ stands => stands.own watch') fun _ =>
          .asks (fun _ => Stands tree given t' W Z)
            (fun s stands => stands.step premises watch' (r := .log ⟨.info, _⟩) trivial) fun _ =>
              .cleaningUp (minimize_lasts c premises watch' (sourceCommand c a _) a.path fun u spares =>
                minimizes _ u (scratch.spares.trans spares)) fun result s lasts => ?_
  cases result with
  | ok _ => exact lasts
  | error e => exact Stands.step premises watch'.own lasts removed

/-- A source is reduced without harm if the path of the copy is clear, as is the output of the minimizer,
and ends in no link. -/
theorem reduceSource_lasts (copies : Clear t here W W (sourcePath c a))
    (unlinked : ∀ u, Spares t W u → Unlinked u here (sourcePath c a))
    (minimizes : ∀ test u, Spares t W u → ∀ q, Outputs u here (sourceCommand c a test) q → ¬ W q) :
    Ends host (Stands tree given t W Z) (Reduce.reduceSource c a) (Lasts tree given t W Z) := by
  unfold Reduce.reduceSource
  refine .asks (fun _ => Stands tree given t W Z) (fun _ stands => stands.step premises watch trivial)
    fun found => ?_
  cases found with
  | true =>
    exact .asks (fun _ => Stands tree given t W Z) (fun _ stands => stands.step premises watch trivial)
      fun _ _ => id
  | false =>
    refine .tries (fun _ => Stands tree given t W Z) (fun s stands => stands.step premises watch copies)
      (fun _ _ stands => stands.own watch) fun _ =>
        .tries (Drawn tree given t here W Z) (fun s stands => stands.drawn premises watch _ _)
          (fun _ _ => id) fun directory => ?_
    rintro s ⟨P, t', scratch, stands⟩
    have cleaned : Ends host (Stands tree given t' W Z)
        ((Reduce.reduceCopy c a (outputDirectory c) (sourcePath c a) directory).cleaningUp fun _ => do
          let _ ← Program.removeTree directory) (Lasts tree given t W Z) := by
      refine .cleaningUp (reduceCopy_lasts c a premises watch scratch copies unlinked minimizes)
        fun result s lasts => ?_
      cases result with
      | ok _ => exact scratch.removes premises watch lasts
      | error e => exact scratch.removes premises watch.own lasts
    have whole : Ends host (Stands tree given t' W Z)
        (((Reduce.reduceCopy c a (outputDirectory c) (sourcePath c a) directory).cleaningUp fun _ => do
          let _ ← Program.removeTree directory) >>= fun _ => pure (sourcePath c a))
        (Lasts tree given t W Z) := .bind cleaned (fun _ _ => id) fun _ _ => id
    exact whole s stands

/-- A dispatch does no harm once the output directory is there, if neither its keeping nor its reducing
does any. -/
theorem onward_lasts (copies : Clear t here W W (keptPath c v)) (disassembles : Clear t here W Z (textPath c v))
    (reduces : Ends host (Stands tree given t W Z) (reducing c a v) (Lasts tree given t W Z)) :
    Ends host (Stands tree given t W Z) (onward c a v) (Lasts tree given t W Z) := by
  unfold onward
  exact .bind (Q := Lasts tree given t W Z)
    (lasts_of_within premises watch (keeping_harmless c v copies disassembles)) (fun _ => reduces)
    fun _ _ => id

end BugHunt.Proofs.Sparing
