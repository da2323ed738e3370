import Mathlib.Data.List.Induction
import BugHunt.Proofs.Passages
/-!
When an interesting variant can be disposed of: what has to be there, and what must not stand in the
way, for it to be kept and for a minimizer to be run on it.
-/

namespace BugHunt.Proofs.Succeeding
open Trees Texts Names Places Runs Bench Growth Outcomes Building Judging Caching Keeping Reducing
open Tallying Interrupts FailedReduction Collecting Leftovers Passages

variable {b : Bench} {c : Config} {s : State}

/-! ## Directories -/

/-- Whether nothing but directories stands on the way to a place. -/
def Passable (v : View) (place : Place) : Prop := ∀ q, q <+: place → v q = none ∨ v.directory q

theorem makePath_made {t : FileTree} {place : Place} {names : List Bytes}
    (clear : ∀ front, front <+: names → t.node? (place ++ front) = none ∨
      View.directory t.node? (place ++ front)) : ∃ u, makePath t place names = .ok u := by
  induction names generalizing t place with
  | nil => exact ⟨t, rfl⟩
  | cons name rest ih =>
    have further (front : Place) (below : front <+: rest) :
        t.node? (place ++ [name] ++ front) = none ∨
          View.directory t.node? (place ++ [name] ++ front) := by
      have := clear (name :: front) (List.cons_prefix_cons.mpr ⟨rfl, below⟩)
      rwa [show place ++ name :: front = place ++ [name] ++ front by simp] at this
    unfold makePath
    split
    · refine ih fun front below => ?_
      rw [View.directory, node?_set (by simp)]
      by_cases here : front = []
      · subst here
        exact .inr (by rw [List.append_nil, View.put_self]; rfl)
      · rw [View.put_other (by simpa using here)]
        exact further front below
    · rename_i node there
      obtain free | directory := clear [name] (List.prefix_append [name] rest)
      · cases there.symm.trans free
      · have isDirectory : node.isDirectory := by
          rwa [View.directory, there] at directory
        rw [if_pos isDirectory]
        exact ih further

/-- All that leads to a directory is a directory. -/
theorem directory_above {v : View} (grown : Grown v) {place : Place} (there : v.directory place)
    {q : Place} (way : q <+: place) : v.directory q := by
  obtain ⟨rest, rfl⟩ := way
  induction rest using List.reverseRecOn with
  | nil => simpa using there
  | append_singleton rest name ih =>
    refine ih ?_
    rw [← List.append_assoc] at there
    simpa using grown.parent there

/-- Directories can be made wherever nothing but directories stands on the way. -/
theorem createDirectories_iff {t : FileTree} (grown : Grown t.node?) (place : Place) :
    (∃ u, createDirectories t place = .ok u) ↔ Passable t.node? place := by
  constructor
  · intro made q way
    obtain ⟨u, made⟩ := made
    obtain ⟨more, there⟩ := createDirectories_spec made
    have directory : View.directory u.node? q := 
      directory_above (createDirectories_grown grown made) there way
    by_cases free : t.node? q = none
    · exact .inl free
    · exact .inr (by rwa [View.directory, ← more.kept q free])
  · intro clear
    unfold createDirectories
    split
    · exact ⟨t, rfl⟩
    · exact makePath_made fun front below => by simpa using clear front below

theorem copy_file {t : FileTree} {place target : Place} {bytes : Bytes} {executable : Bool}
    (isFile : t.node? place = some (.file bytes executable)) :
    copy t place target = write t target (if place = target then [] else bytes) := by
  rw [copy, read_ok isFile]
  rfl

/-! ## Disposing of a variant -/

/-- Whether the result of a dispatch is one that a check goes on after. -/
def Disposed : Except ReduceError α → Prop
  | .ok _ | .error (.minimizerFailed ..) => True
  | .error _ => False

/-- Whether the reduced form of IR can be assembled, as a minimizer has made it. -/
def Assembles (b : Bench) (c : Config) (v : Variant) (reduced : Option Bytes) (t : View) : Prop :=
  let effect := b.tools.convert c.tools.llvmAs reduced
  b.tools.starts c.tools.llvmAs [] ∧ effect.finish = .ended (.exited 0) ∧
    match effect.written with
    | some bytes => t.directory (assembledPlace b c v) = false ∧ isBitcode bytes
    | none => ∃ bytes executable,
      t (assembledPlace b c v) = some (.file bytes executable) ∧ isBitcode bytes

theorem assembles_congr {v : Variant} {reduced : Option Bytes} {t u : View}
    (same : t (assembledPlace b c v) = u (assembledPlace b c v)) :
    Assembles b c v reduced t ↔ Assembles b c v reduced u := by
  unfold Assembles
  rw [directory_congr same, same]

/-- Whether there is a reduced form, or one can be made, or the minimizer tells that it fails. -/
def Reducible (b : Bench) (c : Config) (p : Pair c) (program : Option Bytes) (t : View) : Prop :=
  t (b.place (reducedPath c p.artifact p.variant)) ≠ none ∨
    match Backend.of p.artifact with
    | .sourceLevel => b.tools.starts c.tools.creduce []
    | .irLevel =>
      let reduction := b.tools.minimizeIr c.tools.llvmReduce program
      b.tools.starts c.tools.llvmReduce [] ∧
        (reduction.1 ≠ .exited 0 ∨ Assembles b c p.variant reduction.2 t)

/-- Whether an interesting variant can be kept and reduced. -/
structure Disposable (b : Bench) (c : Config) (p : Pair c) (program : Option Bytes) (t : View) :
    Prop where
  clear : Passable t (b.place c.outputRoot)
  vacant : t.directory (keptPlace b c p.variant) = false
  reducible : Reducible b c p program t

section Disposing

variable {p : Pair c}

theorem disposed_bind {a : Reducing α} {f : α → Reducing β}
    (goes : ∀ value, ∃ result, f value = pure result) :
    Disposed (exec b.host s (a >>= f)).1 ↔ Disposed (exec b.host s a).1 := by
  rw [exec_bind]
  generalize exec b.host s a = ended
  obtain ⟨r, t⟩ := ended
  cases r with
  | ok value =>
    obtain ⟨result, isPure⟩ := goes value
    dsimp only
    rw [isPure]
    exact Iff.rfl
  | error e => cases e <;> exact Iff.rfl

/-! ### Keeping -/

/-- On a bench no run of a tool that converts IR is interrupted. -/
theorem convert_calm (tool input output : Path) (program : String) :
    (exec b.host s (Compile.convert c tool input output)).1 ≠ .error (.run (.interrupted program)) := by
  unfold Compile.convert
  dsimp only
  rw [exec_bind, exec_runTool]
  by_cases starts : b.canStart (Command.ofProgram tool |>.path input |>.text "-o" |>.path output)
  · rw [if_pos starts]
    dsimp only
    generalize outcome _ _ = ended
    intro same
    cases ended <;> cases same
  · rw [if_neg starts]
    intro same
    cases same

theorem disassemble_calm (path : Path) (program : String) :
    (exec b.host s (Compile.disassemble c path)).1 ≠ .error (.run (.interrupted program)) := by
  unfold Compile.disassemble
  split
  · intro same
    cases same
  · dsimp only
    rw [exec_bind]
    have calm := @convert_calm b c s c.tools.llvmDis path (path.withExtension "ll") program
    generalize exec b.host s (Compile.convert c c.tools.llvmDis path _) = ended at calm
    obtain ⟨r, t⟩ := ended
    cases r with
    | error e =>
      intro same
      exact calm (congrArg Except.error (Except.error.inj same))
    | ok value =>
      dsimp only
      rw [exec_bind, exec_monadLift, run_exists]
      dsimp only
      intro same
      split at same <;> cases same
  · intro same
    cases same

theorem disassemble_directories {v : Variant} (clean : '/' ∉ v.name.toList) (s : State) (q : Place)
    (there : View.directory s.tree.node? q) :
    View.directory (exec b.host s (Compile.disassemble c
      (c.outputRoot / Path.ofString (Reduce.keptName v)))).2.tree.node? q := by
  have untouched : Spared b c s.tree.node? fun _ => False :=
    ⟨fun _ never => never.elim, fun _ never => never, fun _ never => never⟩
  have changed := disassemble_kept untouched (keptName_proper clean)
    (by rw [keptName_head]; decide) s (.refl _ _)
  exact changed.directories q there

/-- An interesting variant is kept exactly where nothing stands in the way. -/
theorem preserve_run (grown : Grown s.tree.node?) {bytes : Bytes}
    (there : content s.tree (b.place p.variant.irPath) = some bytes) :
    ∃ r t, exec b.host s (Reduce.preserve c p.variant) = (r, t) ∧
      ((Passable s.tree.node? (b.place c.outputRoot) ∧
          View.directory s.tree.node? (keptPlace b c p.variant) = false ∧
          (∃ kept, r = .ok kept) ∧ View.directory t.tree.node? (b.place c.outputRoot)) ∨
        ((Passable s.tree.node? (b.place c.outputRoot) →
          View.directory s.tree.node? (keptPlace b c p.variant)) ∧
          ∃ path cause, r = .error (.files path cause))) := by
  have passes := createDirectories_iff grown (b.place c.outputRoot)
  unfold Reduce.preserve
  rw [exec_bind, exec_orFail, run_createDirectories]
  cases made : createDirectories s.tree (b.place c.outputRoot) with
  | error cause =>
    refine ⟨_, _, rfl, .inr ⟨fun clear => ?_, _, _, rfl⟩⟩
    obtain ⟨u, created⟩ := passes.mpr clear
    cases made.symm.trans created
  | ok u =>
    have clear := passes.mp ⟨u, made⟩
    obtain ⟨more, directory⟩ := createDirectories_spec made
    have kept : keptPlace b c p.variant = b.place c.outputRoot ++ [utf8 (Reduce.keptName p.variant)] :=
      keptPlace_eq p.clean
    have same : View.directory u.node? (keptPlace b c p.variant) =
        View.directory s.tree.node? (keptPlace b c p.variant) := by
      rw [View.directory, View.directory, more.change.elsewhere]
      intro inside
      rw [kept] at inside
      exact not_prefix_of_entry _ _ inside.1
    have found := (createDirectories_content made (b.place p.variant.irPath)).trans there
    obtain ⟨executable, isFile⟩ := content_eq_some.mp found
    simp only [Bench.change, mapError_ok]
    rw [exec_bind, exec_orFail, run_copy, show b.place (c.outputRoot / Path.ofString
      (Reduce.keptName p.variant)) = keptPlace b c p.variant from rfl, copy_file isFile]
    by_cases vacant : View.directory s.tree.node? (keptPlace b c p.variant) = false
    · have free : View.writable u.node? (keptPlace b c p.variant) := by
        rw [View.writable, same, vacant, kept, List.dropLast_concat, directory]
        rfl
      obtain ⟨w, written, view⟩ := write_ok _ free
      rw [written]
      simp only [Bench.change, mapError_ok]
      have outside : View.directory w.node? (b.place c.outputRoot) := by
        rw [view, View.directory_put (same.trans vacant) rfl]
        exact directory
      obtain ⟨result, t, ran⟩ : ∃ r t, (Compile.disassemble c (c.outputRoot /
          Path.ofString (Reduce.keptName p.variant))).run.run b.host { s with tree := w } = (r, t) :=
        ⟨_, _, rfl⟩
      have still : View.directory t.tree.node? (b.place c.outputRoot) := by
        have steady := @disassemble_directories b c _ p.clean { s with tree := w } _ outside
        rwa [exec, ran] at steady
      have calm := @disassemble_calm b c { s with tree := w }
        (c.outputRoot / Path.ofString (Reduce.keptName p.variant))
      rw [exec, ran] at calm
      rw [exec_bind, exec_lift, ran]
      dsimp only
      split
      · exact ⟨_, _, rfl, .inl ⟨clear, vacant, ⟨_, rfl⟩, still⟩⟩
      · rename_i program
        exact absurd rfl (calm program)
      · exact ⟨_, _, rfl, .inl ⟨clear, vacant, ⟨_, rfl⟩, still⟩⟩
    · have refused : View.writable u.node? (keptPlace b c p.variant) = false := by
        rw [View.writable, same]
        simp [vacant]
      rw [write_error _ refused]
      exact ⟨_, _, rfl, .inr ⟨fun _ => by simpa using vacant, _, _, rfl⟩⟩

/-! ### Reducing -/

theorem disposed_minimize {command : Command} (input : Path) :
    Disposed (exec b.host s (Reduce.minimize c command input)).1 ↔ b.canStart command := by
  by_cases starts : b.canStart command
  · obtain ⟨r, ran, ends⟩ := @exec_minimize b c s command input starts
    rw [ran]
    refine ⟨fun _ => starts, fun _ => ?_⟩
    split at ends
    · subst ends
      trivial
    · obtain ⟨tool, detail, rfl⟩ := ends
      trivial
  · obtain ⟨e, ran⟩ := @exec_minimize_unstarted b c s command input (by simpa using starts)
    rw [ran]
    exact ⟨fun never => never.elim, fun never => absurd never starts⟩

theorem canStart_sourceCommand (a : Artifact) (test : Path) :
    b.canStart (sourceCommand c a test) = b.tools.starts c.tools.creduce [] := by
  rw [canStart, sourceCommand, minimizeSource_call]
  rfl

theorem canStart_irCommand (ir : Path) :
    b.canStart (irCommand c ir) = b.tools.starts c.tools.llvmReduce [] := by
  rw [canStart, irCommand, minimizeIr_call]
  rfl

/-- A source is reduced once there is a directory for the script. -/
theorem disposed_reduceCopy {a : Artifact} {directory : Path} (copy : Path)
    (there : View.directory s.tree.node? (b.place directory))
    (free : s.tree.node? (b.place directory ++ [utf8 "interesting.sh"]) = none) :
    Disposed (exec b.host s (Reduce.reduceCopy c a (Path.absolute c.startDirectory c.outputRoot) copy
        directory)).1 ↔ b.tools.starts c.tools.creduce [] := by
  have script : b.place (directory / Path.ofString "interesting.sh") =
      b.place directory ++ [utf8 "interesting.sh"] :=
    place_entry b directory (proper_of_length (by decide) (by decide))
  unfold Reduce.reduceCopy
  generalize Recursion.script (Recursion.scriptBody c (Reduce.sourceName a)) = text
  obtain ⟨u, written, view⟩ := write_ok text (View.writable_entry free there)
  rw [← script] at written view
  have isFile : u.node? (b.place (directory / Path.ofString "interesting.sh")) =
      some (.file text false) := by rw [view, View.put_self]
  rw [exec_bind, exec_orFail, run_write, written]
  simp only [Bench.change, mapError_ok]
  have executable : (Program.makeExecutable (directory / Path.ofString "interesting.sh")).run b.host
      { s with tree := u } = (.ok (), { s with tree := u }) := by
    show ((Trees.read u _).map fun _ => (), _) = _
    rw [read_ok isFile]
    rfl
  rw [exec_bind, exec_orFail, executable]
  simp only [mapError_ok]
  rw [exec_bind, exec_monadLift]
  dsimp only
  rw [exec_cleaningUp, ← @canStart_sourceCommand b c a (directory / Path.ofString "interesting.sh")]
  exact disposed_minimize a.path

/-- A source is reduced, or left as it was reduced before, if the minimizer starts. -/
theorem disposed_reduceSource (sited : Sited b c) {source : Bytes}
    (level : Backend.of p.artifact = .sourceLevel)
    (there : content s.tree (b.place p.artifact.path) = some source)
    (directory : View.directory s.tree.node? (b.place c.outputRoot))
    (temporary : View.directory s.tree.node? (b.place b.temporary)) (program : Option Bytes) :
    Disposed (exec b.host s (Reduce.reduceSource c p.artifact)).1 ↔
      Reducible b c p program s.tree.node? := by
  have isReduced : reducedPath c p.artifact p.variant =
      Path.absolute c.startDirectory c.outputRoot / Path.ofString (Reduce.sourceName p.artifact) := by
    rw [reducedPath, level]
  unfold Reduce.reduceSource Reducible
  rw [level, isReduced]
  dsimp only
  rw [exec_bind, exec_monadLift, run_exists]
  dsimp only
  by_cases found : s.tree.node? (b.place (Path.absolute c.startDirectory c.outputRoot /
      Path.ofString (Reduce.sourceName p.artifact))) = none
  · have missing : Trees.exists s.tree (b.place (Path.absolute c.startDirectory c.outputRoot /
        Path.ofString (Reduce.sourceName p.artifact))) = false := by
      rw [Trees.exists, found]
      rfl
    rw [missing]
    simp only [Bool.false_eq_true, if_false]
    obtain ⟨executable, isFile⟩ := content_eq_some.mp there
    have free : View.writable s.tree.node? (b.place (Path.absolute c.startDirectory c.outputRoot /
        Path.ofString (Reduce.sourceName p.artifact))) := by
      rw [place_reducedSource sited] at found ⊢
      exact View.writable_entry found directory
    obtain ⟨u, written, view⟩ := write_ok _ free
    have noDirectory : View.directory s.tree.node? (b.place (Path.absolute c.startDirectory
        c.outputRoot / Path.ofString (Reduce.sourceName p.artifact))) = false :=
      View.directory_of_none found
    have still : View.directory u.node? (b.place b.temporary) := by
      rw [view, View.directory_put noDirectory rfl]
      exact temporary
    rw [exec_bind, exec_orFail, run_copy, copy_file isFile, written]
    simp only [Bench.change, mapError_ok]
    have framed : Frames "pareduce-creduce" "" := frames (by decide) (by decide) (by decide)
    obtain ⟨own, name, w, made, -, -, place, drawn, laid⟩ :=
      @run_temporaryDirectory b { s with tree := u } _ _ framed still
    rw [exec_bind, exec_orFail, made]
    simp only [mapError_ok]
    rw [disposed_bind fun _ => ⟨_, rfl⟩, exec_cleaningUp]
    refine (disposed_reduceCopy _ ?_ ?_).trans ⟨.inr, fun reducible => ?_⟩
    · rw [laid, View.directory, View.put_self]
      rfl
    · rw [laid, View.put_other (by simp)]
      exact drawn.fresh.free (by simp [place])
    · obtain there | starts := reducible
      · exact absurd found there
      · exact starts
  · have reduced : Trees.exists s.tree (b.place (Path.absolute c.startDirectory c.outputRoot /
        Path.ofString (Reduce.sourceName p.artifact))) := Option.isSome_iff_ne_none.mpr found
    rw [reduced]
    exact ⟨fun _ => .inl found, fun _ => trivial⟩

theorem convert_run (tool input output : Path) :
    let effect := b.tools.convert tool (content s.tree (b.place input))
    ∃ r t, exec b.host s (Compile.convert c tool input output) = (r, t) ∧
      if b.tools.starts tool [] ∧ effect.finish = .ended (.exited 0) then
        r = .ok () ∧ t.tree = put s.tree (b.place output) effect.written
      else ∃ e, r = .error e := by
  intro effect
  have starts : b.canStart (Command.ofProgram tool |>.path input |>.text "-o" |>.path output) =
      b.tools.starts tool [] := by
    rw [canStart, convert_call]
    rfl
  have carried : b.carryOut (Command.ofProgram tool |>.path input |>.text "-o" |>.path output) s.tree =
      (put s.tree (b.place output) effect.written, effect.finish) := by
    rw [carryOut, convert_call]
    rfl
  unfold Compile.convert
  rw [exec_bind, exec_runTool, starts, carried]
  by_cases runs : b.tools.starts tool []
  · rw [if_pos runs]
    dsimp only
    cases ended : outcome (b.tools.streams _) effect.finish with
    | completed output =>
      refine ⟨_, _, rfl, ?_⟩
      rw [if_pos ⟨runs, outcome_completed ended⟩]
      exact ⟨rfl, congrArg Prod.fst carried⟩
    | failed output =>
      refine ⟨_, _, rfl, ?_⟩
      rw [if_neg fun both => not_exited ended (by simp) both.2]
      exact ⟨_, rfl⟩
    | timedOut =>
      refine ⟨_, _, rfl, ?_⟩
      rw [if_neg fun both => not_exited ended (by simp) both.2]
      exact ⟨_, rfl⟩
  · rw [if_neg runs]
    refine ⟨_, _, rfl, ?_⟩
    rw [if_neg fun both => runs both.1]
    exact ⟨_, rfl⟩

theorem irName_eq (ir : Path) : Reduce.irName ir = "reduced-" ++ Plan.stemOf ir ++ "." ++ "ll" := by
  have ending : "." ++ "ll" = ".ll" := by decide
  rw [String.append_assoc, ending, Reduce.irName]
  simp

/-- The reduced form of IR is textual. -/
theorem reduced_kind (root ir : Path) :
    Kind.ofPath? (root / Path.ofString (Reduce.irName ir)) = some .textIr := by
  have long : 8 ≤ (utf8 ("reduced-" ++ Plan.stemOf ir)).length := by
    rw [utf8_append, List.length_append]
    exact Nat.le_add_right _ _
  have stem : Stem (utf8 ("reduced-" ++ Plan.stemOf ir)) := by
    refine ⟨?_, ?_, fun found => ?_⟩
    · intro empty
      rw [empty] at long
      cases long
    · intro dot
      rw [dot] at long
      exact absurd long (by decide)
    · have := slash_of_mem_utf8 found
      simp [slash_notMem_stemOf] at this
  rw [irName_eq, entry_kind root stem (by decide) (by decide)]
  decide +kernel

/-- Whether bitcode stands at a place that something has been written to, or nothing. -/
theorem bitcode_put {t : FileTree} {place : Place} {written : Option Bytes}
    (parent : View.directory t.node? place.dropLast) :
    (content (put t place written) place).any isBitcode ↔
      match written with
      | some bytes => View.directory t.node? place = false ∧ isBitcode bytes
      | none => ∃ bytes executable, t.node? place = some (.file bytes executable) ∧ isBitcode bytes := by
  cases written with
  | some bytes =>
    by_cases vacant : View.directory t.node? place = false
    · have free : View.writable t.node? place := by
        rw [View.writable, vacant, parent]
        rfl
      rw [content_of_node?, put_written free]
      simp [vacant]
    · have refused : View.writable t.node? place = false := by
        rw [View.writable]
        simp [vacant]
      obtain ⟨node, there, isDirectory⟩ := Option.any_eq_true _ _ |>.mp (show
        View.directory t.node? place by simpa using vacant)
      have same : put t place (some bytes) = t := by
        rw [put, write_error _ refused]
        rfl
      rw [same, content_of_node?, there]
      cases node <;> simp_all [Node.isDirectory]
  | none =>
    rw [show put t place none = t from rfl, content_of_node?]
    cases found : t.node? place with
    | none => simp
    | some node => cases node <;> simp

theorem checked_run {output : Path} {e : CompileError} (named : endsIdle output = false) :
    (∃ q t, exec b.host s (do
        if !(← Compile.looksLikeBitcode output) then throw e
        return output : Compiling Path) = (.ok q, t)) ↔
      (content s.tree (b.place output)).any isBitcode := by
  rw [exec_bind, exec_monadLift, looksLikeBitcode_run named]
  dsimp only
  generalize (content s.tree (b.place output)).any isBitcode = magic
  cases magic with
  | true => exact ⟨fun _ => rfl, fun _ => ⟨_, _, rfl⟩⟩
  | false =>
    constructor
    · intro made
      obtain ⟨_, _, same⟩ := made
      cases congrArg Prod.fst same
    · intro never
      cases never

/-- The reduced form of IR is assembled if what the minimizer made of it can be. -/
theorem assemble_run (sited : Sited b c) (directory : View.directory s.tree.node? (b.place c.outputRoot)) :
    (∃ q t, exec b.host s (Compile.assemble c (Path.absolute c.startDirectory c.outputRoot /
        Path.ofString (Reduce.irName p.variant.irPath)) (Path.absolute c.startDirectory c.outputRoot)) =
        (.ok q, t)) ↔
      Assembles b c p.variant (content s.tree (b.place (Path.absolute c.startDirectory c.outputRoot /
        Path.ofString (Reduce.irName p.variant.irPath)))) s.tree.node? := by
  have there : View.directory s.tree.node? (b.place (Path.absolute c.startDirectory c.outputRoot)) := by
    rwa [place_root sited]
  have named := endsIdle_entry (Path.absolute c.startDirectory c.outputRoot) (ended_proper
    (slash_notMem_stemOf (Path.absolute c.startDirectory c.outputRoot /
      Path.ofString (Reduce.irName p.variant.irPath))))
  have parent : View.directory s.tree.node? (assembledPlace b c p.variant).dropLast := by
    rw [assembledPlace_eq sited, List.dropLast_concat]
    exact directory
  unfold Compile.assemble Assembles
  rw [reduced_kind]
  simp only [toString_text]
  unfold assembledPlace at parent ⊢
  dsimp only at parent ⊢
  generalize Path.absolute c.startDirectory c.outputRoot / Path.ofString (Plan.stemOf
    (Path.absolute c.startDirectory c.outputRoot / Path.ofString (Reduce.irName p.variant.irPath)) ++
    ".bc") = output at named parent ⊢
  obtain ⟨r, t, ran, converts⟩ := @convert_run b c s c.tools.llvmAs
    (Path.absolute c.startDirectory c.outputRoot / Path.ofString (Reduce.irName p.variant.irPath)) output
  rw [exec_bind, exec_orFail, run_createDirectories, createDirectories_of_directory there]
  simp only [Bench.change, mapError_ok]
  rw [exec_bind, ran]
  generalize b.tools.convert c.tools.llvmAs _ = effect at converts ⊢
  split at converts
  · rename_i runs
    obtain ⟨rfl, tree⟩ := converts
    dsimp only
    rw [pure_bind, checked_run named, tree, bitcode_put parent]
    exact ⟨fun made => ⟨runs.1, runs.2, made⟩, fun made => made.2.2⟩
  · rename_i stuck
    obtain ⟨e, rfl⟩ := converts
    constructor
    · intro made
      obtain ⟨_, _, same⟩ := made
      cases congrArg Prod.fst same
    · intro assembles
      exact absurd ⟨assembles.1, assembles.2.1⟩ stuck

/-- The minimizer for IR ends as it does on the program. -/
theorem carryOut_reduction (sited : Sited b c) (p : Pair c) (t : FileTree) :
    b.carryOut (irCommand c p.variant.irPath) t =
      (put t (b.place (Path.absolute c.startDirectory c.outputRoot /
          Path.ofString (Reduce.irName p.variant.irPath)))
        (b.tools.minimizeIr c.tools.llvmReduce (content t (b.place p.variant.irPath))).2,
      .ended (b.tools.minimizeIr c.tools.llvmReduce (content t (b.place p.variant.irPath))).1) := by
  have output : placeOf (b.place (Path.absolute c.startDirectory c.outputRoot))
      (Path.absolute c.startDirectory c.outputRoot / Path.ofString (Reduce.irName p.variant.irPath)) =
      b.place (Path.absolute c.startDirectory c.outputRoot /
        Path.ofString (Reduce.irName p.variant.irPath)) :=
    placeOf_from_absoluteForm sited.absolute _ _
  have input : placeOf (b.place (Path.absolute c.startDirectory c.outputRoot))
      (Path.absolute c.startDirectory p.variant.irPath) = b.place p.variant.irPath := by
    rw [@placeOf_absolute _ b.here _ (isAbsolute_absoluteForm sited.absolute (irPath_ne_nil p)),
      placeOf_absoluteForm sited.home]
    rfl
  rw [← output, ← input, carryOut, irCommand, minimizeIr_call]
  rfl

theorem disposed_adapt {a : Compiling α} :
    Disposed (exec b.host s (a.adapt ReduceError.compile)).1 ↔
      ∃ value t, exec b.host s a = (.ok value, t) := by
  rw [exec_adapt]
  generalize exec b.host s a = ended
  obtain ⟨r, t⟩ := ended
  cases r with
  | ok value => exact ⟨fun _ => ⟨value, t, rfl⟩, fun _ => trivial⟩
  | error e =>
    refine ⟨fun never => never.elim, fun made => ?_⟩
    obtain ⟨_, _, same⟩ := made
    cases congrArg Prod.fst same

/-- IR is reduced, or left as it was reduced before, if the minimizer starts and what it makes can be
assembled, unless the minimizer tells that it fails. -/
theorem disposed_reduceIr (sited : Sited b c) (level : Backend.of p.artifact = .irLevel)
    (directory : View.directory s.tree.node? (b.place c.outputRoot)) :
    Disposed (exec b.host s (Reduce.reduceIr c p.variant.irPath)).1 ↔
      Reducible b c p (content s.tree (b.place p.variant.irPath)) s.tree.node? := by
  have isReduced : reducedPath c p.artifact p.variant =
      Path.absolute c.startDirectory c.outputRoot / Path.ofString (Reduce.irName p.variant.irPath) := by
    rw [reducedPath, level]
  have apart := reducedPath_ne_assembled (p := p) sited level
  have place := place_reducedPath sited p.artifact p.variant
  rw [isReduced] at apart place
  unfold Reduce.reduceIr Reducible
  rw [level, isReduced]
  dsimp only
  rw [exec_bind, exec_monadLift, run_exists]
  dsimp only
  by_cases found : s.tree.node? (b.place (Path.absolute c.startDirectory c.outputRoot /
      Path.ofString (Reduce.irName p.variant.irPath))) = none
  · have missing : Trees.exists s.tree (b.place (Path.absolute c.startDirectory c.outputRoot /
        Path.ofString (Reduce.irName p.variant.irPath))) = false := by
      rw [Trees.exists, found]
      rfl
    rw [missing]
    simp only [Bool.false_eq_true, if_false]
    rw [exec_bind_ok (show exec b.host s (monadLift (Program.info _) : Reducing Unit) = (.ok (), s) from
      rfl)]
    generalize source : content s.tree (b.place p.variant.irPath) = program
    have carried := carryOut_reduction sited p s.tree
    rw [source] at carried
    rw [exec_bind, ← irCommand]
    by_cases starts : b.tools.starts c.tools.llvmReduce []
    · have begins := (@canStart_irCommand b c p.variant.irPath).trans starts
      obtain ⟨r, ran, ends⟩ := @exec_minimize b c s _ p.variant.irPath begins
      rw [carried] at ends
      rw [ran]
      by_cases success : (b.tools.minimizeIr c.tools.llvmReduce program).1 = .exited 0
      · rw [if_pos (by rw [success])] at ends
        subst ends
        dsimp only
        have view : (after b s (irCommand c p.variant.irPath)).tree = put s.tree (b.place (Path.absolute
            c.startDirectory c.outputRoot / Path.ofString (Reduce.irName p.variant.irPath)))
            (b.tools.minimizeIr c.tools.llvmReduce program).2 := congrArg Prod.fst carried
        have stands : Stands (b.place (Path.absolute c.startDirectory c.outputRoot /
            Path.ofString (Reduce.irName p.variant.irPath))) none s.tree := found
        rw [place] at stands
        have made := put_stands stands directory (b.tools.minimizeIr c.tools.llvmReduce program).2
        rw [← place, Option.or_none, ← view] at made
        have same : (after b s (irCommand c p.variant.irPath)).tree.node? (assembledPlace b c p.variant) =
            s.tree.node? (assembledPlace b c p.variant) := by
          rw [view, put_other _ apart.symm]
        have outside : View.directory (after b s (irCommand c p.variant.irPath)).tree.node?
            (b.place c.outputRoot) := by
          rw [view]
          exact put_directory _ directory
        rw [disposed_bind fun _ => ⟨_, rfl⟩, disposed_adapt, assemble_run sited outside, made.content,
          assembles_congr same]
        refine ⟨fun assembles => .inr ⟨starts, .inr assembles⟩, fun reducible => ?_⟩
        obtain there | ⟨_, failed | assembles⟩ := reducible
        · exact absurd found there
        · exact absurd success failed
        · exact assembles
      · rw [if_neg (by simpa using success)] at ends
        obtain ⟨tool, detail, rfl⟩ := ends
        exact ⟨fun _ => .inr ⟨starts, .inl success⟩, fun _ => trivial⟩
    · have stuck := (@canStart_irCommand b c p.variant.irPath).trans (by simpa using starts)
      obtain ⟨e, ran⟩ := @exec_minimize_unstarted b c s _ p.variant.irPath stuck
      rw [ran]
      refine ⟨fun never => never.elim, fun reducible => ?_⟩
      obtain there | reducible := reducible
      · exact absurd found there
      · exact absurd reducible.1 starts
  · have reduced : Trees.exists s.tree (b.place (Path.absolute c.startDirectory c.outputRoot /
        Path.ofString (Reduce.irName p.variant.irPath))) := Option.isSome_iff_ne_none.mpr found
    rw [reduced]
    exact ⟨fun _ => .inl found, fun _ => trivial⟩

/-! ### Dispatching -/

theorem preserve_moved {r : Except ReduceError Path} {t : State}
    (ran : exec b.host s (Reduce.preserve c p.variant) = (r, t)) :
    Moved (b.place c.outputRoot) (Preserved b c p.variant) s.tree.node? t.tree.node? := by
  have moved := (preserve_lasts (i := noInterrupts b) (c := c) (p := p) s (.refl _ _ _)).calm
  rwa [ran] at moved

theorem not_preserved_of_head {entry : Bytes} (other : entry.head? ≠ some keptSign) :
    ¬ Preserved b c p.variant (b.place c.outputRoot ++ [entry]) := by
  intro preserved
  obtain ⟨kept, same, first⟩ := preserved.entry p.clean
  obtain rfl := List.singleton_inj.mp (List.append_inj' same rfl).2
  exact other first

/-- Keeping a variant leaves the places of the reduced form as they were. -/
theorem preserved_spares (sited : Sited b c) {v t : View}
    (moved : Moved (b.place c.outputRoot) (Preserved b c p.variant) v t) :
    t (b.place (reducedPath c p.artifact p.variant)) = v (b.place (reducedPath c p.artifact p.variant)) ∧
      t (assembledPlace b c p.variant) = v (assembledPlace b c p.variant) := by
  constructor
  · exact moved.same (.inr (Product.reduced.apart sited))
      (place_reducedPath sited p.artifact p.variant ▸ not_preserved_of_head (reducedName_head _ _))
  · rw [assembledPlace_eq sited]
    refine moved.same (.inr (not_prefix_of_entry _ _)) (not_preserved_of_head ?_)
    have first : (utf8 "reduced-").head? = some 0x72 := by decide
    rw [utf8_append, utf8_append, List.append_assoc, List.head?_append, first, Option.some_or]
    decide

theorem reducible_congr {program : Option Bytes} {t u : View}
    (reduced : t (b.place (reducedPath c p.artifact p.variant)) =
      u (b.place (reducedPath c p.artifact p.variant)))
    (assembled : t (assembledPlace b c p.variant) = u (assembledPlace b c p.variant)) :
    Reducible b c p program t ↔ Reducible b c p program u := by
  unfold Reducible
  rw [reduced]
  refine or_congr Iff.rfl ?_
  split
  · exact Iff.rfl
  · simp only [assembles_congr assembled]

/-- A check goes on after a dispatch exactly where the variant can be kept and reduced. -/
theorem disposed_dispatch (sited : Sited b c) (grown : Grown s.tree.node?) {bytes source : Bytes}
    (compiled : content s.tree (b.place p.variant.irPath) = some bytes)
    (there : content s.tree (b.place p.artifact.path) = some source)
    (temporary : View.directory s.tree.node? (b.place b.temporary)) :
    Disposed (exec b.host s (Reduce.dispatch c p.artifact p.variant)).1 ↔
      Disposable b c p (some bytes) s.tree.node? := by
  obtain ⟨r, t, ran, ⟨clear, vacant, ⟨kept, rfl⟩, directory⟩ | ⟨blocked, path, cause, rfl⟩⟩ :=
    @preserve_run b c s p grown bytes compiled
  · have moved := preserve_moved ran
    have program : t.tree.node? (b.place p.artifact.path) = s.tree.node? (b.place p.artifact.path) := by
      obtain ⟨executable, isFile⟩ := content_eq_some.mp there
      refine moved.same (.inl (by simp [isFile])) fun preserved => ?_
      obtain same | ⟨isBinary, same⟩ := preserved
      · exact artifactPlace_ne_kept p same
      · exact artifactPlace_ne_text p isBinary same
    obtain ⟨reduced, assembled⟩ := preserved_spares sited moved
    have disposable : Disposable b c p (some bytes) s.tree.node? ↔
        Reducible b c p (some bytes) s.tree.node? := ⟨fun h => h.reducible, fun h => ⟨clear, vacant, h⟩⟩
    rw [Reduce.dispatch, exec_bind, ran, disposable, ← reducible_congr reduced assembled]
    dsimp only
    split
    · rename_i level
      have ir : p.artifact.isSource = false := by simpa [Backend.of] using level
      rw [disposed_reduceIr sited level directory]
      rw [p.irPath_of_ir ir] at compiled ⊢
      rw [content_of_node?, program, ← content_of_node?, compiled]
    · rename_i level
      exact disposed_reduceSource sited level (by rw [content_of_node?, program, ← content_of_node?, there])
        directory (moved.steady temporary) _
  · rw [Reduce.dispatch, exec_bind, ran]
    refine ⟨fun never => never.elim, fun disposable => ?_⟩
    have vacant := disposable.vacant
    rw [blocked disposable.clear] at vacant
    cases vacant

/-- A check goes on with an interesting variant exactly where it can be kept and reduced. -/
theorem reduce_succeeds (sited : Sited b c) (grown : Grown s.tree.node?) {bytes source : Bytes}
    (compiled : content s.tree (b.place p.variant.irPath) = some bytes)
    (there : content s.tree (b.place p.artifact.path) = some source)
    (temporary : View.directory s.tree.node? (b.place b.temporary)) (sum : Summary) :
    (∃ sum' t, exec b.host s (Check.reduce c p.artifact p.variant sum) = (.ok sum', t)) ↔
      Disposable b c p (some bytes) s.tree.node? := by
  rw [← disposed_dispatch sited grown compiled there temporary, Check.reduce, exec_bind, exec_lift,
    show (Reduce.dispatch c p.artifact p.variant).run.run b.host s =
      exec b.host s (Reduce.dispatch c p.artifact p.variant) from rfl]
  generalize exec b.host s (Reduce.dispatch c p.artifact p.variant) = ended
  obtain ⟨r, t⟩ := ended
  dsimp only
  split
  · exact ⟨fun _ => trivial, fun _ => ⟨_, _, rfl⟩⟩
  · exact ⟨fun _ => trivial, fun _ => ⟨_, _, rfl⟩⟩
  · rename_i error other
    constructor
    · intro made
      obtain ⟨_, _, same⟩ := made
      cases congrArg Prod.fst same
    · intro disposed
      cases error with
      | minimizerFailed tool input detail => exact absurd rfl (other tool input detail)
      | compile => exact disposed.elim
      | run => exact disposed.elim
      | files => exact disposed.elim

end Disposing

end BugHunt.Proofs.Succeeding
