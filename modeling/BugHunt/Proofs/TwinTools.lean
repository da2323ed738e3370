import BugHunt.Proofs.Reducing
import BugHunt.Proofs.Twins
/-!
Tools in twin programs: they are started in both states or in neither, come to the same, and leave
the states mirroring each other, though they are given other temporary files.
-/

namespace BugHunt.Proofs.TwinTools
open Trees Texts Names Places Runs Bench Outcomes Building Judging Reducing Mirroring Twins

variable {b : Bench} {c : Config} {k : Claims} {f g : Notes}

/-- Whether two commands do the same, each in its state. -/
structure Acts (b : Bench) (k : Claims) (g : Notes) (m n : Command) : Prop where
  starts : b.canStart n = b.canStart m
  alike : ∀ t u, Alike b k g t.node? u.node? → (b.carryOut n u).2 = (b.carryOut m t).2 ∧
    Alike b k g (b.carryOut m t).1.node? (b.carryOut n u).1.node?
  confined : ∀ u, Change (Own k g) u.node? (b.carryOut n u).1.node?

/-- Outcomes of the same kind. What tools print may differ, since they know their temporary
files. -/
inductive Kin : Outcome → Outcome → Prop
  | completed (out out' : Output) : Kin (.completed out) (.completed out')
  | failed (out out' : Output) : Kin (.failed out) (.failed out')
  | timedOut : Kin .timedOut .timedOut

/-- Errors that are no interrupts. -/
def Calm (e e' : RunError) : Prop := e.isInterrupt = false ∧ e'.isInterrupt = false

section Running

variable {m n : Command}

theorem twin_spawn (starts : b.canStart n = b.canStart m) (memory : Option Nat) :
    Twin b k (Match (fun f child other => f = { g with waiting := some ⟨child.id, m, other.id, n⟩ })
      (At g Any)) (Program.spawn m memory) (Program.spawn n memory) g := by
  refine .once ⟨.spawn m memory, id, rfl⟩ ⟨.spawn n memory, id, rfl⟩ fun s t _ _ mirror => ?_
  rw [run_spawn, run_spawn, starts]
  by_cases started : b.canStart m
  · simp only [started, if_true]
    refine ⟨{ g with waiting := some ⟨s.started.length, m, t.started.length, n⟩ },
      ⟨mirror.alike.awaiting _, fun w known => ?_⟩, .still rfl (List.prefix_append _ _) rfl, rfl⟩
    obtain rfl := Option.some.inj known
    simp
  · simp only [started, Bool.false_eq_true, if_false]
    exact ⟨g, mirror, .still rfl (List.prefix_refl _) rfl, rfl, trivial⟩

theorem twin_await {child other : Child} {stop : Observation → Option Ending} (acts : Acts b k g m n)
    (idle : g.waiting = none) :
    Twin b k (At g fun x y => ∃ finish : Finish, x = .ok finish.ending ∧ y = .ok finish.ending)
      (Program.await child stop) (Program.await other stop)
      { g with waiting := some ⟨child.id, m, other.id, n⟩ } := by
  refine .once ⟨.await child stop, id, rfl⟩ ⟨.await other stop, id, rfl⟩ fun s t _ _ mirror => ?_
  obtain ⟨known, knownToo⟩ := mirror.waiting _ rfl
  have less : g.Less { g with waiting := some ⟨child.id, m, other.id, n⟩ } :=
    ⟨fun _ same => same, fun same => same, fun _ same => by rw [idle] at same; cases same⟩
  obtain ⟨finish, alike⟩ := acts.alike _ _ (mirror.alike.less less)
  rw [run_await known, run_await knownToo, finish]
  refine ⟨g, Mirror.of_alike (mirror.less less) alike, ?_, rfl, _, rfl, rfl⟩
  exact (Step.of_change (u := { t with tree := (b.carryOut n t.tree).1 }) (acts.confined t.tree)
    (List.prefix_refl _) rfl).less less

theorem twin_collect (child other : Child) :
    Twin b k (At g Any) (Program.collect child) (Program.collect other) g :=
  .look ⟨.collect child, id, rfl⟩ ⟨.collect other, id, rfl⟩ (fun _ => rfl) (fun _ => rfl)
    fun _ _ _ => trivial

theorem twin_terminate (child other : Child) :
    Twin b k (At g Any) (Program.terminate child) (Program.terminate other) g :=
  .look ⟨.terminate child, id, rfl⟩ ⟨.terminate other, id, rfl⟩ (fun _ => rfl) (fun _ => rfl)
    fun _ _ _ => trivial

/-- Two commands that do the same come to the same. -/
theorem paired_command (acts : Acts b k g m n) (idle : g.waiting = none) (memory limit : Option Nat) :
    Paired b k (At g Kin) (At g Calm) (m.run memory limit) (n.run memory limit) g := by
  unfold Command.run
  refine .then (E := Calm) (.lift twin_isCancelled) (fun _ _ ⟨no, noToo⟩ => ?_)
    fun _ _ calm => ⟨rfl, calm⟩
  subst no noToo
  refine .bind (E := At g Calm) (.orFail (twin_spawn acts.starts memory) fun _ _ _ same =>
    ⟨same.1, rfl, rfl⟩) (fun f child other same => ?_) fun _ _ _ same => same
  subst same
  refine .bind (E := At g Calm) (.lift (twin_await acts idle)) ?_ fun _ _ _ same => same
  rintro _ _ _ ⟨rfl, finish, rfl, rfl⟩
  cases finish with
  | ended status =>
    refine .then (E := Calm) (.lift (twin_collect child other)) (fun streams streams' _ => ?_)
      fun _ _ calm => ⟨rfl, calm⟩
    refine .pure ⟨rfl, ?_⟩
    rw [Command.outcomeOf, Command.outcomeOf]
    cases status.isSuccess with
    | true => exact .completed ..
    | false => exact .failed ..
  | hung =>
    refine .then (E := Calm) (.lift (twin_log _ _ _ _)) (fun _ _ _ => ?_) fun _ _ calm => ⟨rfl, calm⟩
    refine .then (E := Calm) (.lift (twin_terminate child other)) (fun _ _ _ => ?_)
      fun _ _ calm => ⟨rfl, calm⟩
    refine .then (E := Calm) (.lift (twin_collect child other)) (fun _ _ _ => .pure ⟨rfl, .timedOut⟩)
      fun _ _ calm => ⟨rfl, calm⟩

end Running

/-! ## What tools write -/

section Writing

variable {t u : FileTree} {p q r : Place} {m n : Command}

theorem put_alike (h : Alike b k g t.node? u.node?) (orderly : Orderly b k) (spot : Spot k g q r)
    (written : Option Bytes) : Alike b k g (put t q written).node? (put u r written).node? := by
  cases written with
  | none => exact h
  | some bytes =>
    have both := write_both h orderly spot bytes
    rw [put, put]
    generalize write t q bytes = result at both ⊢
    generalize write u r bytes = result' at both ⊢
    cases result with
    | ok t' =>
      cases result' with
      | ok u' => exact both.1
      | error cause => exact both.elim
    | error cause =>
      cases result' with
      | ok u' => exact both.elim
      | error cause' => exact h

theorem fill_alike (h : Alike b k g t.node? u.node?) (orderly : Orderly b k) {x : Scratch}
    (known : g.scratch = some x) (rest : Place) (files : List (Bytes × Bytes)) :
    Alike b k g (fill t (x.root ++ rest) files).node? (fill u (x.other ++ rest) files).node? := by
  induction files with
  | nil => exact h
  | cons file more ih =>
    have spot : Spot k g (x.root ++ rest ++ [file.1]) (x.other ++ rest ++ [file.1]) := by
      rw [List.append_assoc, List.append_assoc]
      exact .scratch known (rest ++ [file.1])
    exact put_alike ih orderly spot (some file.2)

theorem content_alike (h : Alike b k g t.node? u.node?) (seen : Seen k g q r) :
    content u r = content t q := by
  rw [content_of_node?, content_of_node?, h.node seen]

/-- A tool with one output, which follows from what the tool can see. -/
theorem Acts.of_put (orderly : Orderly b k) (spot : Spot k g q r) (starts : b.canStart n = b.canStart m)
    (effect effect' : FileTree → Option Bytes × Finish)
    (same : ∀ t u, Alike b k g t.node? u.node? → effect' u = effect t)
    (mine : ∀ t, b.carryOut m t = (put t q (effect t).1, (effect t).2))
    (twin : ∀ u, b.carryOut n u = (put u r (effect' u).1, (effect' u).2)) : Acts b k g m n where
  starts := starts
  alike := by
    intro t u h
    rw [mine, twin, same t u h]
    exact ⟨rfl, put_alike h orderly spot _⟩
  confined := by
    intro u
    rw [twin]
    exact (put_change u r _).mono fun q here => here ▸ spot.own

/-- A tool that fills a directory of the workspace. -/
theorem Acts.of_fill (orderly : Orderly b k) {x : Scratch} (known : g.scratch = some x) (rest : Place)
    (starts : b.canStart n = b.canStart m) (effect effect' : FileTree → Harvest)
    (same : ∀ t u, Alike b k g t.node? u.node? → effect' u = effect t)
    (mine : ∀ t, b.carryOut m t = (fill t (x.root ++ rest) (effect t).files, (effect t).finish))
    (twin : ∀ u, b.carryOut n u = (fill u (x.other ++ rest) (effect' u).files, (effect' u).finish)) :
    Acts b k g m n where
  starts := starts
  alike := by
    intro t u h
    rw [mine, twin, same t u h]
    exact ⟨rfl, fill_alike h orderly known rest _⟩
  confined := by
    intro u
    rw [twin]
    refine ⟨fun q outside => fill_other ?_, fun q there => fill_directory _ there⟩
    rintro name rfl
    exact outside (.inr ⟨x, known, by simp⟩)

end Writing

/-! ## The tools of a check -/

theorem acts_compile (orderly : Orderly b k) {a : Artifact} (source : b.place a.path = k.source)
    (flags : List String) {p q : Path} (spot : Spot k g (b.place p) (b.place q)) :
    Acts b k g (Compile.command c a flags p) (Compile.command c a flags q) := by
  let effect (t : FileTree) : Option Bytes × Finish :=
    let effect := b.tools.compile (Compile.compilerFor c a.kind) (compileOptions c flags)
      (content t (b.place a.path))
    (effect.written, effect.finish)
  have seen : Seen k g (b.place a.path) (b.place a.path) := by
    rw [source]
    exact .source
  refine .of_put orderly spot ?_ effect effect (fun t u h => ?_)
    (carryOut_compile a flags p) (carryOut_compile a flags q)
  · rw [canStart_compile, canStart_compile]
  · simp only [effect, content_alike h seen]

theorem acts_convert (orderly : Orderly b k) (tool : Path) {input input' output output' : Path}
    (seen : Seen k g (b.place input) (b.place input')) (spot : Spot k g (b.place output) (b.place output')) :
    Acts b k g (Command.ofProgram tool |>.path input |>.text "-o" |>.path output)
      (Command.ofProgram tool |>.path input' |>.text "-o" |>.path output') := by
  let effect (input : Path) (t : FileTree) : Option Bytes × Finish :=
    let effect := b.tools.convert tool (content t (b.place input))
    (effect.written, effect.finish)
  refine .of_put orderly spot ?_ (effect input) (effect input') (fun t u h => ?_)
    (fun _ => rfl) (fun _ => rfl)
  · rw [canStart, canStart, convert_call, convert_call]
    rfl
  · simp only [effect, content_alike h seen]

theorem acts_facts (orderly : Orderly b k) {x : Scratch} (known : g.scratch = some x) {w w' : Workspace}
    (mine : b.place w.root = x.root) (twin : b.place w'.root = x.other) {q q' : Path}
    (seen : Seen k g (b.place q) (b.place q')) :
    Acts b k g (Oracle.factCommand c w q) (Oracle.factCommand c w' q') := by
  let effect (q : Path) (t : FileTree) : Harvest :=
    b.tools.facts c.tools.factgen (utf8 c.contextSensitivity) (content t (b.place q))
  refine .of_fill orderly known [utf8 "facts"] ?_ (effect q) (effect q') (fun t u h => ?_)
    (fun t => ?_) (fun u => ?_)
  · rw [canStart_facts, canStart_facts]
  · simp only [effect, content_alike h seen]
  · rw [carryOut_facts, place_facts, mine]
  · rw [carryOut_facts, place_facts, twin]

theorem acts_analysis (orderly : Orderly b k) {x : Scratch} (known : g.scratch = some x) {w w' : Workspace}
    (mine : b.place w.root = x.root) (twin : b.place w'.root = x.other) (absolute : w.root.isAbsolute)
    (absoluteToo : w'.root.isAbsolute) :
    Acts b k g (Oracle.analysisCommand c w) (Oracle.analysisCommand c w') := by
  let effect (facts : Place) (t : FileTree) : Harvest :=
    b.tools.analyse c.analysisTool (analysisOptions c) fun name => content t (facts ++ [name])
  refine .of_fill orderly known [utf8 "results"] ?_ (effect (x.root ++ [utf8 "facts"]))
    (effect (x.other ++ [utf8 "facts"])) (fun t u h => ?_) (fun t => ?_) (fun u => ?_)
  · rw [canStart_analysis, canStart_analysis]
  · have same : (fun name => content u (x.other ++ [utf8 "facts"] ++ [name])) =
        fun name => content t (x.root ++ [utf8 "facts"] ++ [name]) := by
      funext name
      rw [List.append_assoc, List.append_assoc]
      exact content_alike h (.scratch known _)
    simp only [effect, same]
  · rw [carryOut_analysis absolute, place_results, place_facts, mine]
  · rw [carryOut_analysis absoluteToo, place_results, place_facts, twin]

/-- The minimizer for IR, which is given no temporary file. -/
theorem acts_reduceIr (orderly : Orderly b k) (sited : Sited b c) {ir : Path} (named : ir.bytes ≠ [])
    (seen : Seen k g (b.place ir) (b.place ir))
    (spot : Spot k g (b.place (Path.absolute c.startDirectory c.outputRoot / Path.ofString (Reduce.irName ir)))
      (b.place (Path.absolute c.startDirectory c.outputRoot / Path.ofString (Reduce.irName ir)))) :
    Acts b k g (irCommand c ir) (irCommand c ir) := by
  let root := Path.absolute c.startDirectory c.outputRoot
  let effect (t : FileTree) : Option Bytes × Finish :=
    let result := b.tools.minimizeIr c.tools.llvmReduce (content t (b.place ir))
    (result.2, .ended result.1)
  have output : placeOf (b.place root) (root / Path.ofString (Reduce.irName ir)) =
      b.place (root / Path.ofString (Reduce.irName ir)) :=
    placeOf_from_absoluteForm sited.absolute _ _
  have input : placeOf (b.place root) (Path.absolute c.startDirectory ir) = b.place ir :=
    (placeOf_absolute (isAbsolute_absoluteForm sited.absolute named)).trans
      (placeOf_absoluteForm sited.home ir)
  have carried (t : FileTree) : b.carryOut (irCommand c ir) t =
      (put t (b.place (root / Path.ofString (Reduce.irName ir))) (effect t).1, (effect t).2) := by
    simp only [effect]
    rw [← output, ← input, carryOut, irCommand, minimizeIr_call]
    rfl
  refine .of_put orderly spot rfl effect effect (fun t u h => ?_) carried carried
  simp only [effect, content_alike h seen]

/-- The minimizer for sources, which is given a script in a temporary directory. -/
theorem acts_reduceSource (orderly : Orderly b k) (sited : Sited b c) (a : Artifact) (test test' : Path)
    (spot : Spot k g
      (b.place (Path.absolute c.startDirectory c.outputRoot / Path.ofString (Reduce.sourceName a)))
      (b.place (Path.absolute c.startDirectory c.outputRoot / Path.ofString (Reduce.sourceName a)))) :
    Acts b k g (sourceCommand c a test) (sourceCommand c a test') := by
  rw [place_reducedSource sited] at spot
  let copy := b.place c.outputRoot ++ [utf8 (Reduce.sourceName a)]
  let effect (t : FileTree) : Option Bytes × Finish :=
    let result := b.tools.minimizeSource c.tools.creduce (content t copy)
    (result.2, .ended result.1)
  have output : placeOf (b.place (Path.absolute c.startDirectory c.outputRoot))
      (Path.ofString (Reduce.sourceName a)) = copy := by
    rw [place_root sited]
    exact placeOf_name _ (sourceName_proper a)
  have carried (test : Path) (t : FileTree) : b.carryOut (sourceCommand c a test) t =
      (put t copy (effect t).1, (effect t).2) := by
    simp only [effect]
    rw [← output, carryOut, sourceCommand, minimizeSource_call]
    rfl
  refine .of_put orderly spot ?_ effect effect (fun t u h => ?_) (carried test) (carried test')
  · rw [canStart, canStart, sourceCommand, sourceCommand, minimizeSource_call, minimizeSource_call]
    rfl
  · simp only [effect, copy, content_alike h spot.seen]

end BugHunt.Proofs.TwinTools
