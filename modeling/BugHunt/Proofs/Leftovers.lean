import BugHunt.Proofs.Collecting
import BugHunt.Proofs.Interrupts
/-!
What the stages of a check leave behind that are interrupted. A build and a judgement leave the files
as they were; a dispatch leaves what it would leave anyway, complete or not.
-/

namespace BugHunt.Proofs.Leftovers
open Trees Texts Names Places Runs Bench Outcomes Building Judging Caching Keeping Reducing Asking
open Toolless Interrupts FailedReduction Collecting

variable {b : Bench} {c : Config} {s : State} {i : Interrupts b}

/-! ## Building -/

theorem compile_heeds {a : Artifact} {flags : List String} {staging : Path}
    (staged : Staged s.tree.node? staging (b.place staging)) :
    Heeds i s (Compile.runTool c (Compile.command c a flags staging)) (fun _ _ => True)
      fun e t => e.isInterrupt ∧ ∃ bytes, t.tree.node? =
        View.put s.tree.node? (b.place staging) (some (.file bytes false)) := by
  have heeds : Heeds i s ((Compile.command c a flags staging).run c.memoryLimit
      (some c.compileTimeout)) (fun _ _ => True) _ := command_heeds _ _ _ trivial
  refine .adapt (heeds.mono (fun _ _ _ _ => trivial) ?_)
  rintro _ t ⟨rfl, cut⟩
  refine ⟨rfl, ?_⟩
  cases cut with
  | unstarted => exact ⟨[], staged.put none⟩
  | @killed tools _ =>
    have carried := @carryOut_compile (refit b tools) c a flags staging s.tree
    rw [after, carried]
    exact ⟨_, staged.put _⟩

theorem intoStaging_heeds {a : Artifact} {p : Plan} {staging : Path}
    (staged : Staged s.tree.node? staging (b.place staging)) :
    Heeds i s (Compile.intoStaging c a p staging) (fun _ _ => True)
      fun e t => e.isInterrupt ∧ ∃ bytes, t.tree.node? =
        View.put s.tree.node? (b.place staging) (some (.file bytes false)) := by
  unfold Compile.intoStaging
  refine (compile_heeds staged).bind (fun _ _ left => left) (fun _ _ _ => trivial)
    fun outcome t _ _ => .toolless ?_ trivial
  cases outcome with
  | completed _ =>
    refine .bind (.monadLift ((asks_looksLikeBitcode staging).mono toolless_of_discreet)) fun fine => ?_
    cases fine
    · exact .throw_bind _ _
    · exact .bind (.orFail (asks_request trivial)) fun _ => .pure _
  | failed _ => exact .pure _
  | timedOut => exact .pure _

/-- An interrupted build leaves the files as they were. -/
theorem build_heeds {outDir : Path} {a : Artifact} {flags : List String} {source : Bytes} {p : Plan}
    (isPlan : p = Plan.ofContent c.extraArgs outDir a flags source)
    (directory : View.directory s.tree.node? (b.place outDir)) :
    Heeds i s (Compile.build c outDir a p) (fun _ _ => True)
      fun e t => e.isInterrupt ∧ t.tree.node? = s.tree.node? := by
  obtain ⟨staging, name, u, made, named, place, drawn, view⟩ :=
    @run_temporaryFile b s outDir s!".{p.key}." ".bc"
      (isPlan ▸ staging_frames c.extraArgs outDir a flags source) directory
  have fresh : s.tree.node? (b.place staging) = none := drawn.fresh.free (by rw [place]; simp)
  have staged : Staged u.node? staging (b.place staging) := by
    refine ⟨named, by rw [view, View.put_self], ?_⟩
    have empty : View.directory s.tree.node? (b.place staging) = false :=
      View.directory_of_none fresh
    rw [view, View.directory_put empty rfl, place, List.dropLast_concat]
    exact directory
  unfold Compile.build
  by_cases isSource : a.isSource
  · simp only [isSource, Bool.not_true, Bool.false_eq_true, if_false]
    refine .step (.monadLift (asks_request trivial)) (fun _ _ _ => trivial) fun found t looked => ?_
    rw [exec_monadLift, run_exists] at looked
    obtain rfl : s = t := congrArg Prod.snd looked
    cases found with
    | true => exact .toolless (.pure _) trivial
    | false =>
      simp only [Bool.false_eq_true, if_false]
      refine .step (.orFail (asks_request trivial)) (fun _ _ _ => trivial) fun _ t created => ?_
      rw [exec_orFail, run_createDirectories, createDirectories_of_directory directory] at created
      obtain rfl : s = t := congrArg Prod.snd created
      refine .step (.orFail (asks_request trivial)) (fun _ _ _ => trivial) fun chosen t opened => ?_
      rw [exec_orFail, made] at opened
      obtain rfl : staging = chosen := Except.ok.inj (congrArg Prod.fst opened)
      obtain rfl : { s with tree := u } = t := congrArg Prod.snd opened
      have cleaned : Heeds i { s with tree := u }
          ((Compile.intoStaging c a p staging).cleaningUp (Compile.discardStaging staging))
          (fun _ _ => True) fun e t => e.isInterrupt ∧ t.tree.node? = s.tree.node? := by
        refine (intoStaging_heeds staged).cleaningUp
          (fun r => (asks_discardStaging staging r).mono plain_of_discreet)
          (fun _ _ _ _ => trivial) fun e t left => ?_
        obtain ⟨told, bytes, written⟩ := left
        exact ⟨told, discardStaging_run (by simp) fresh (by rw [written, view, View.put_put])⟩
      exact cleaned.bind (fun _ _ left => left) (fun _ _ _ => trivial)
        fun _ _ _ _ => .toolless (.pure _) trivial
  · simp only [isSource, Bool.not_false, if_true]
    exact .toolless (.pure _) trivial

/-! ## Judging -/

theorem convert_lasts {P : View → Prop} {tool input output : Path}
    (written : ∀ tools (t : FileTree), Unfinished b tools → P t.node? →
      P (put t (b.place output) (tools.convert tool (content t (b.place input))).written).node?) :
    Lasts i P CompileError.isInterrupt (Compile.convert c tool input output) := by
  have ran : Lasts i P CompileError.isInterrupt (Compile.runTool c
      (Command.ofProgram tool |>.path input |>.text "-o" |>.path output)) := by
    refine .adapt (.command fun tools t unfinished holds => ?_)
    rw [carryOut, convert_call]
    exact written tools t unfinished holds
  unfold Compile.convert
  refine ran.bind fun outcome => ?_
  cases outcome with
  | completed _ => exact .pure _
  | failed _ => exact .throw _
  | timedOut => exact .throw _

theorem looksLikeBitcode_lasts {P : View → Prop} {stopped : ε → Bool} (p : Path) :
    Lasts i P stopped (monadLift (Compile.looksLikeBitcode p) : Action ε Bool) :=
  .toolless (.monadLift ((asks_looksLikeBitcode p).mono toolless_of_discreet))
    (.look (looksLikeBitcode_still p))

/-- What is assembled into a directory is written to it. -/
theorem assemble_lasts {P : View → Prop} {p directory : Path}
    (created : ∀ t u : FileTree, P t.node? → createDirectories t (b.place directory) = .ok u →
      P u.node?)
    (written : ∀ tools (t : FileTree), Unfinished b tools → P t.node? →
      P (put t (b.place (directory / Path.ofString (Plan.stemOf p ++ ".bc")))
        (tools.convert c.tools.llvmAs (content t (b.place p))).written).node?) :
    Lasts i P CompileError.isInterrupt (Compile.assemble c p directory) := by
  have tail (output : Path) : Lasts i P CompileError.isInterrupt (do
      if !(← Compile.looksLikeBitcode output) then
        throw (.notBitcode c.tools.llvmAs.display output)
      return output : Compiling Path) := by
    refine (looksLikeBitcode_lasts output).bind fun magic => ?_
    dsimp only
    split
    · exact .bind (.throw _) fun _ => .pure _
    · exact .pure _
  unfold Compile.assemble
  dsimp only
  split
  · exact .bind (.pure _) fun _ => tail _
  · exact .bind (.toolless (.orFail (asks_request trivial)) (.createDirectories created)) fun _ =>
      .bind (convert_lasts written) fun _ => .bind (.pure _) fun _ => tail _
  · exact .bind (.throw _) fun _ => tail _

theorem runStage_lasts {P : View → Prop} {command : Command}
    (carried : ∀ tools (t : FileTree), P t.node? → P ((refit b tools).carryOut command t).1.node?) :
    Lasts i P OracleError.isInterrupt (Oracle.runStage c command) :=
  .bind (.adapt (.command fun tools t _ holds => carried tools t holds)) fun _ => .pure _

section Workspace

variable {v : View} {w : Workspace}

theorem assemble_laid (p : Path) :
    Lasts i (Laid b v w) CompileError.isInterrupt (Compile.assemble c p w.root) := by
  refine assemble_lasts (fun t u laid made => ?_) fun _ t _ laid => laid.put ?_ _
  · rw [createDirectories_of_directory laid.root] at made
    rwa [← Except.ok.inj made]
  · rw [place_entry b w.root (ended_proper (slash_notMem_stemOf p))]
    exact List.prefix_append ..

theorem facts_laid (bitcode : Path) :
    Lasts i (Laid b v w) OracleError.isInterrupt
      (Oracle.runStage c (Oracle.factCommand c w bitcode)) := by
  refine runStage_lasts fun tools t laid => ?_
  have below : b.place w.root <+: b.place w.facts := by simp [place_facts]
  rw [@carryOut_facts (refit b tools) c w bitcode t]
  exact laid.fill below _

theorem analysis_laid :
    Lasts i (Laid b v w) OracleError.isInterrupt (Oracle.runStage c (Oracle.analysisCommand c w)) := by
  refine runStage_lasts fun tools t laid => ?_
  have below : b.place w.root <+: b.place w.results := by simp [place_results]
  rw [@carryOut_analysis (refit b tools) c w laid.absolute t]
  exact laid.fill below _

/-- A judgement is interrupted only while all that has changed lies in the workspace. -/
theorem classifyIn_heeds (laid : Laid b v w s.tree.node?) (p : Path) :
    Heeds i s (Oracle.classifyIn c w p) (fun _ _ => True)
      fun e t => e.isInterrupt ∧ Laid b v w t.tree.node? := by
  unfold Oracle.classifyIn
  have prepared : Lasts i (Laid b v w) OracleError.isInterrupt
      ((Compile.assemble c p w.root).adapt .assemble) := .adapt (assemble_laid p)
  refine (prepared s laid).bind (fun _ _ left => left) (fun _ _ _ => trivial)
    fun bitcode t _ laid => ?_
  refine (facts_laid bitcode t laid).bind (fun _ _ left => left) (fun _ _ _ => trivial)
    fun facts t _ laid => ?_
  split
  · exact .toolless (.bind ((within_reportTrouble ..).mono toolless_of_discreet) fun _ => .pure _) trivial
  · refine (analysis_laid t laid).bind (fun _ _ left => left) (fun _ _ _ => trivial)
      fun analysis t _ laid => ?_
    split
    · exact .toolless (.bind ((within_reportTrouble ..).mono toolless_of_discreet) fun _ => .pure _) trivial
    · exact .toolless (.bind ((within_scan ..).mono toolless_of_discreet) fun _ => .pure _) trivial

end Workspace

/-- An interrupted judgement leaves the files as they were; when debugging, it leaves the workspace
behind. -/
theorem classify_heeds {p : Path} {name : Bytes} (hasName : p.fileName? = some name) :
    Heeds i s (Oracle.classify c p) (fun _ _ => True) fun e t => e.isInterrupt ∧
      View.directory s.tree.node? (b.place b.temporary) ∧
      Scratched b c.debug s.tree.node? s.tree.node? t.tree.node? := by
  unfold Oracle.classify
  refine .step (.adapt ((within_create _).mono toolless_of_discreet)) (fun _ _ _ => trivial)
    fun w t created => ?_
  rw [exec_adapt] at created
  by_cases temporary : View.directory s.tree.node? (b.place b.temporary)
  · obtain ⟨own, u, name, made, place, drawn, laid, -⟩ :=
      @create_spec b s p.name (scratch_frames hasName) temporary
    rw [made] at created
    obtain rfl : own = w := Except.ok.inj (congrArg Prod.fst created)
    obtain rfl : { s with tree := u } = t := congrArg Prod.snd created
    refine (classifyIn_heeds laid p).cleaningUp
      (fun _ => (asks_discard c.debug own).mono plain_of_discreet) (fun _ _ _ _ => trivial)
      fun e t ⟨told, left⟩ => ⟨told, temporary, p.name, name, drawn, fun q differs => ?_⟩
    rw [discard_node? (by simp [place]) left.root] at differs
    by_cases below : b.place own.root <+: q
    · have within : name ∈ q := below.subset (by rw [place]; simp)
      refine ⟨?_, place ▸ below⟩
      cases keep : c.debug with
      | true => rfl
      | false =>
        rw [keep, if_pos ⟨rfl, below⟩] at differs
        exact absurd (drawn.fresh.free within).symm differs
    · rw [if_neg fun h => below h.2] at differs
      exact absurd (left.outside q below) differs
  · obtain ⟨cause, failed⟩ :=
      run_temporaryDirectory_error (scratch_frames hasName) (by simpa using temporary)
    unfold Workspace.create at created
    rw [exec_bind, exec_orFail, failed] at created
    cases congrArg Prod.fst created

/-! ## Changes of files -/

/-- A file that comes or changes at a place, or all stays as it is. -/
def Rewritten (place : Place) (v t : View) : Prop :=
  t = v ∨ v.directory place = false ∧ ∃ bytes executable, t = v.put place (some (.file bytes executable))

theorem write_rewritten {t u : FileTree} {place : Place} {bytes : Bytes}
    (written : write t place bytes = .ok u) : Rewritten place t.node? u.node? := by
  obtain ⟨free, view⟩ := write_view written
  exact .inr ⟨(View.writable_iff.mp free).1, bytes, false, view⟩

theorem copy_rewritten {t u : FileTree} {source target : Place}
    (copied : copy t source target = .ok u) : Rewritten target t.node? u.node? := by
  obtain ⟨bytes, -, written⟩ := copy_written copied
  exact write_rewritten written

theorem put_rewritten (t : FileTree) (place : Place) (written : Option Bytes) :
    Rewritten place t.node? (put t place written).node? := by
  cases written with
  | none => exact .inl rfl
  | some bytes =>
    cases done : write t place bytes with
    | error cause => exact .inl (by simp [put, done, Except.toOption])
    | ok u =>
      have same : put t place (some bytes) = u := by simp [put, done, Except.toOption]
      exact same ▸ write_rewritten done

/-- What has changed between two views: directories that lead to a place are new, and at some places
files came or changed. -/
def Moved (out : Place) (within : Place → Prop) (v t : View) : Prop :=
  ∀ q, t q ≠ v q → (v q = none ∧ t q = some .directory ∧ q <+: out) ∨
    (within q ∧ v.directory q = false ∧ t.directory q = false ∧ t q ≠ none)

section Moved

variable {out : Place} {within : Place → Prop} {u v t : View}

theorem Moved.refl (out : Place) (within : Place → Prop) (v : View) : Moved out within v v :=
  fun _ changed => absurd rfl changed

theorem Moved.trans (h : Moved out within u v) (k : Moved out within v t) :
    Moved out within u t := by
  intro q changed
  by_cases first : v q = u q
  · rw [← first] at changed ⊢
    rw [← directory_congr first]
    exact k q changed
  · by_cases second : t q = v q
    · rw [second, directory_congr second]
      exact h q first
    · rcases h q first with ⟨_, made, _⟩ | ⟨inside, before, _, filled⟩
      · rcases k q second with ⟨none, _⟩ | ⟨_, noDirectory, _⟩
        · cases none.symm.trans made
        · rw [View.directory, made] at noDirectory
          cases noDirectory
      · rcases k q second with ⟨none, _⟩ | ⟨_, _, after⟩
        · exact absurd none filled
        · exact .inr ⟨inside, before, after⟩

/-- Nothing goes. -/
theorem Moved.stays (h : Moved out within v t) {q : Place} (there : v q ≠ none) : t q ≠ none := by
  intro gone
  rcases h q (gone ▸ there.symm) with ⟨none, _⟩ | ⟨_, _, _, filled⟩
  · exact there none
  · exact filled gone

/-- Directories stay. -/
theorem Moved.steady (h : Moved out within v t) {q : Place} (there : v.directory q) :
    t.directory q := by
  by_cases same : t q = v q
  · rwa [directory_congr same]
  · obtain ⟨none, _⟩ | ⟨_, noDirectory, _⟩ := h q same
    · rw [View.directory, none] at there
      cases there
    · rw [noDirectory] at there
      cases there

/-- What is there stays as it was, and what is not on the way is not made, but for what is kept. -/
theorem Moved.same (moved : Moved out within v t) {q : Place} (outside : v q ≠ none ∨ ¬ q <+: out)
    (other : ¬ within q) : t q = v q := by
  refine Decidable.byContradiction fun changed => ?_
  obtain ⟨free, _, way⟩ | ⟨inside, _⟩ := moved q changed
  · obtain there | apart := outside
    · exact there free
    · exact apart way
  · exact other inside

theorem Moved.mono {more : Place → Prop} (h : Moved out within v t)
    (inside : ∀ q, within q → more q) : Moved out more v t :=
  fun q changed => (h q changed).imp_right fun written => ⟨inside q written.1, written.2⟩

theorem Moved.removed (h : Moved out within v t) {place : Place} (free : v place = none) :
    Moved out within v (t.put place none) := by
  intro q changed
  by_cases same : q = place
  · subst same
    exact absurd (by rw [View.put_self, free]) changed
  · rw [View.put_other same] at changed ⊢
    rw [directory_congr (View.put_other same : t.put place none q = t q)]
    exact h q changed

theorem moved_of_extends (more : Extends v t out) : Moved out within v t := by
  intro q changed
  refine .inl ⟨?_, (more.new q changed).2, (more.new q changed).1⟩
  exact Decidable.byContradiction fun there => changed (more.kept q there)

theorem moved_of_rewritten {place : Place} (inside : within place) (written : Rewritten place v t) :
    Moved out within v t := by
  rintro q changed
  rcases written with rfl | ⟨before, bytes, executable, rfl⟩
  · exact absurd rfl changed
  · obtain rfl : q = place :=
      Decidable.byContradiction fun other => changed (View.put_other other)
    refine .inr ⟨inside, before, ?_, ?_⟩
    · rw [View.directory, View.put_self]
      rfl
    · rw [View.put_self]
      exact Option.some_ne_none _

end Moved

/-! ## Collecting -/

/-- Where the reduced form of IR is assembled to. -/
def assembledPlace (b : Bench) (c : Config) (v : Variant) : Place :=
  let root := Path.absolute c.startDirectory c.outputRoot
  b.place (root / Path.ofString (Plan.stemOf (root / Path.ofString (Reduce.irName v.irPath)) ++ ".bc"))

theorem assembledPlace_eq (sited : Sited b c) (v : Variant) : assembledPlace b c v =
    b.place c.outputRoot ++ [utf8 ("reduced-" ++ Plan.stemOf v.irPath ++ ".bc")] := by
  rw [assembledPlace, assembly_place sited, stemOf_reducedIr, utf8_append _ ".bc"]

/-- The places that collecting a variant writes to. -/
inductive Product (b : Bench) (c : Config) (p : Pair c) : Place → Prop
  | kept : Product b c p (keptPlace b c p.variant)
  | text (isBinary : Kind.ofPath? (c.outputRoot / Path.ofString (Reduce.keptName p.variant)) =
      some .binaryIr) : Product b c p (textPlace b c p.variant)
  | reduced : Product b c p (b.place (reducedPath c p.artifact p.variant))
  | assembled (level : Backend.of p.artifact = .irLevel) :
      Product b c p (assembledPlace b c p.variant)

variable {p : Pair c}

theorem Product.entry (sited : Sited b c) {q : Place} (product : Product b c p q) :
    ∃ name : String, q = b.place c.outputRoot ++ [utf8 name] := by
  cases product with
  | kept => exact ⟨_, keptPlace_eq p.clean⟩
  | text isBinary =>
    obtain ⟨stem, -, place⟩ := @textPlace_eq b c p.variant p.clean isBinary
    exact ⟨_, place⟩
  | reduced => exact ⟨_, place_reducedPath sited _ _⟩
  | assembled => exact ⟨_, assembledPlace_eq sited _⟩

theorem not_prefix_of_entry (directory : Place) (name : Bytes) : ¬ directory ++ [name] <+: directory := by
  intro below
  have := below.length_le
  simp only [List.length_append, List.length_singleton] at this
  omega

theorem Product.apart (sited : Sited b c) {q : Place} (product : Product b c p q) :
    ¬ q <+: b.place c.outputRoot := by
  obtain ⟨name, rfl⟩ := product.entry sited
  exact not_prefix_of_entry _ _

/-- What has happened so far to the files while a variant is collected. -/
abbrev Collecting (b : Bench) (c : Config) (p : Pair c) : View → View → Prop :=
  Moved (b.place c.outputRoot) (Product b c p)

section Collecting

variable {v : View}

theorem Collecting.next {t u : View} {place : Place}
    (holds : Collecting b c p v t) (product : Product b c p place) (written : Rewritten place t u) :
    Collecting b c p v u :=
  holds.trans (moved_of_rewritten product written)

theorem Collecting.created {t u : FileTree}
    (holds : Collecting b c p v t.node?) (made : createDirectories t (b.place c.outputRoot) = .ok u) :
    Collecting b c p v u.node? := holds.trans (moved_of_extends (createDirectories_spec made).1)

theorem minimize_lasts {P : View → Prop} {command : Command} (input : Path)
    (carried : ∀ tools (t : FileTree), P t.node? → P ((refit b tools).carryOut command t).1.node?) :
    Lasts i P ReduceError.isInterrupt (Reduce.minimize c command input) := by
  have ran : Lasts i P ReduceError.isInterrupt ((command.run c.memoryLimit none).adapt ReduceError.run) :=
    .adapt (.command fun tools t _ holds => carried tools t holds)
  unfold Reduce.minimize
  refine ran.bind fun outcome => ?_
  cases outcome with
  | completed _ => exact .pure _
  | failed _ => exact .throw _
  | timedOut => exact .throw _

theorem eq_of_isInterrupt {e : CompileError} (told : e.isInterrupt) :
    ∃ program, e = .run (.interrupted program) := by
  cases e with
  | run error =>
    cases error with
    | interrupted program => exact ⟨program, rfl⟩
    | spawn => cases told
    | waiting => cases told
  | _ => cases told

/-- The places that keeping a variant writes to. -/
def Preserved (b : Bench) (c : Config) (v : Variant) (q : Place) : Prop :=
  q = keptPlace b c v ∨ Kind.ofPath? (c.outputRoot / Path.ofString (Reduce.keptName v)) =
    some .binaryIr ∧ q = textPlace b c v

theorem Preserved.product {q : Place} (kept : Preserved b c p.variant q) : Product b c p q := by
  rcases kept with rfl | ⟨isBinary, rfl⟩
  · exact .kept
  · exact .text isBinary

/-- What is kept of a variant has a name with a sign of its own. -/
theorem Preserved.entry {v : Variant} (clean : '/' ∉ v.name.toList) {q : Place}
    (preserved : Preserved b c v q) :
    ∃ entry : Bytes, q = b.place c.outputRoot ++ [entry] ∧ entry.head? = some keptSign := by
  obtain rfl | ⟨isBinary, rfl⟩ := preserved
  · exact ⟨_, keptPlace_eq clean, keptName_head v⟩
  · obtain ⟨stem, name, place⟩ := @textPlace_eq b c v clean isBinary
    refine ⟨_, place, ?_⟩
    have first := keptName_head v
    rw [name, utf8_append] at first
    rw [utf8_append]
    cases bytes : utf8 stem with
    | nil =>
      rw [bytes] at first
      exact absurd (Option.some.inj first) (by decide)
    | cons b rest =>
      rw [bytes] at first
      exact first

theorem preserve_lasts : Lasts i
    (Moved (b.place c.outputRoot) (Preserved b c p.variant) v) ReduceError.isInterrupt
      (Reduce.preserve c p.variant) := by
  have next {t u : View} {place : Place} (inside : Preserved b c p.variant place)
      (holds : Moved (b.place c.outputRoot) (Preserved b c p.variant) v t)
      (written : Rewritten place t u) : Moved (b.place c.outputRoot) (Preserved b c p.variant) v u :=
    holds.trans (moved_of_rewritten inside written)
  have created (t u : FileTree) (holds : Moved (b.place c.outputRoot) (Preserved b c p.variant) v t.node?)
      (made : createDirectories t (b.place c.outputRoot) = .ok u) :
      Moved (b.place c.outputRoot) (Preserved b c p.variant) v u.node? :=
    holds.trans (moved_of_extends (createDirectories_spec made).1)
  have text : Lasts i (Moved (b.place c.outputRoot) (Preserved b c p.variant) v)
      CompileError.isInterrupt
      (Compile.disassemble c (c.outputRoot / Path.ofString (Reduce.keptName p.variant))) := by
    unfold Compile.disassemble
    split
    · exact .pure _
    · rename_i isBinary
      refine .bind (convert_lasts fun _ t _ holds => next (.inr ⟨isBinary, rfl⟩) holds
        (put_rewritten t _ _)) fun _ =>
          .bind (.toolless (.monadLift (asks_request trivial)) (.look fun _ => rfl)) fun found => ?_
      dsimp only
      split
      · exact .bind (.throw _) fun _ => .pure _
      · exact .pure _
    · exact .throw _
  unfold Reduce.preserve
  refine .bind (.toolless (.orFail (asks_request trivial)) (.createDirectories created)) fun _ =>
    .bind (.toolless (.orFail (asks_request trivial)) (.copy fun t u holds copied =>
      next (.inl rfl) holds (copy_rewritten copied))) fun _ => .attempt text (fun e told => ?_) fun _ => ?_
  · obtain ⟨program, rfl⟩ := eq_of_isInterrupt told
    exact ⟨_, rfl, rfl⟩
  · split
    · exact .pure _
    · exact .throw _
    · exact .bind (.toolless (.monadLift (asks_request trivial)) (.look fun _ => rfl)) fun _ =>
        .pure _

/-- The minimizer for IR and the assembler write to the places of the reduced form. -/
theorem reduceIr_lasts (sited : Sited b c) (level : Backend.of p.artifact = .irLevel) :
    Lasts i (Collecting b c p v) ReduceError.isInterrupt (Reduce.reduceIr c p.variant.irPath) := by
  have isReduced : reducedPath c p.artifact p.variant =
      Path.absolute c.startDirectory c.outputRoot / Path.ofString (Reduce.irName p.variant.irPath) := by
    rw [reducedPath, level]
  have product : Product b c p (b.place (Path.absolute c.startDirectory c.outputRoot /
      Path.ofString (Reduce.irName p.variant.irPath))) := isReduced ▸ .reduced
  have minimized : Lasts i (Collecting b c p v) ReduceError.isInterrupt
      (Reduce.minimize c (irCommand c p.variant.irPath) p.variant.irPath) := by
    refine minimize_lasts _ fun tools t holds => ?_
    obtain ⟨written, carried, -⟩ :=
      @carryOut_irCommand (refit b tools) c ⟨sited.home, sited.absolute⟩ p.variant.irPath t
    rw [carried]
    exact holds.next product (put_rewritten t _ written)
  have assembled : Lasts i (Collecting b c p v) CompileError.isInterrupt (Compile.assemble c
      (Path.absolute c.startDirectory c.outputRoot / Path.ofString (Reduce.irName p.variant.irPath))
      (Path.absolute c.startDirectory c.outputRoot)) := by
    refine assemble_lasts (fun t u holds made => ?_) fun _ t _ holds =>
      holds.next (.assembled level) (put_rewritten t _ _)
    rw [place_root sited] at made
    exact holds.created made
  unfold Reduce.reduceIr
  refine .bind (.toolless (.monadLift (asks_request trivial)) (.look fun _ => rfl)) fun found => ?_
  dsimp only
  split
  · exact .bind (.toolless (.monadLift (asks_request trivial)) (.look fun _ => rfl)) fun _ => .pure _
  · exact .bind (.toolless (.monadLift (asks_request trivial)) (.look fun _ => rfl)) fun _ =>
      minimized.bind fun _ => .bind (.adapt assembled) fun _ => .pure _

/-- A view with nothing at or below a place. -/
def without (t : View) (place : Place) : View := fun q => if place <+: q then none else t q

theorem without_put_below {t : View} {directory place : Place} (below : directory <+: place)
    (node : Option Node) : without (t.put place node) directory = without t directory := by
  funext q
  unfold without
  split
  · rfl
  · rename_i outside
    exact View.put_other fun same => outside (same ▸ below)

theorem without_put {t : View} {directory place : Place} (outside : ¬ directory <+: place)
    (node : Option Node) : without (t.put place node) directory = (without t directory).put place node := by
  funext q
  unfold without
  by_cases same : q = place
  · rw [same, if_neg outside, View.put_self, View.put_self]
  · rw [View.put_other same, View.put_other same]

theorem without_rewritten {t u : View} {directory place : Place} (outside : ¬ directory <+: place)
    (written : Rewritten place t u) : Rewritten place (without t directory) (without u directory) := by
  rcases written with rfl | ⟨before, bytes, executable, rfl⟩
  · exact .inl rfl
  · refine .inr ⟨?_, bytes, executable, without_put outside _⟩
    rwa [View.directory, without, if_neg outside]

/-- What has happened so far while a minimizer's script stands in a directory of its own. -/
structure Scripting (b : Bench) (c : Config) (p : Pair c) (v : View) (directory : Place) (t : View) :
    Prop where
  beside : Collecting b c p v (without t directory)
  there : t.directory directory

theorem Rewritten.directory {place q : Place} {t u : View} (written : Rewritten place t u)
    (there : t.directory q) : u.directory q := by
  rcases written with rfl | ⟨before, bytes, executable, rfl⟩
  · exact there
  · rwa [View.directory_put before rfl]

theorem Scripting.beside_next {directory place : Place} {t u : View}
    (h : Scripting b c p v directory t) (product : Product b c p place)
    (outside : ¬ directory <+: place) (written : Rewritten place t u) :
    Scripting b c p v directory u :=
  ⟨h.beside.next product (without_rewritten outside written), written.directory h.there⟩

theorem Scripting.removed {directory place : Place} {t u : FileTree}
    (h : Scripting b c p v directory t.node?) (free : v place = none) (outside : ¬ directory <+: place)
    (removed : Trees.remove t place = .ok u) : Scripting b c p v directory u.node? := by
  obtain ⟨file, view⟩ := remove_view removed
  rw [view]
  refine ⟨?_, ?_⟩
  · rw [without_put outside]
    exact h.beside.removed free
  · rw [View.directory_put file rfl]
    exact h.there

theorem Scripting.below_next {directory place : Place} {t u : View}
    (h : Scripting b c p v directory t) (below : directory <+: place) (written : Rewritten place t u) :
    Scripting b c p v directory u := by
  refine ⟨?_, written.directory h.there⟩
  rcases written with rfl | ⟨_, bytes, executable, rfl⟩
  · exact h.beside
  · rw [without_put_below below]
    exact h.beside

theorem reduceCopy_lasts (sited : Sited b c) (level : Backend.of p.artifact = .sourceLevel)
    (free : v (b.place (reducedPath c p.artifact p.variant)) = none) {directory : Path} (outside : ¬ b.place directory <+: b.place (Path.absolute c.startDirectory
      c.outputRoot / Path.ofString (Reduce.sourceName p.artifact))) :
    Lasts i (Scripting b c p v (b.place directory)) ReduceError.isInterrupt
      (Reduce.reduceCopy c p.artifact (Path.absolute c.startDirectory c.outputRoot)
        (Path.absolute c.startDirectory c.outputRoot / Path.ofString (Reduce.sourceName p.artifact))
        directory) := by
  have isReduced : reducedPath c p.artifact p.variant =
      Path.absolute c.startDirectory c.outputRoot / Path.ofString (Reduce.sourceName p.artifact) := by
    rw [reducedPath, level]
  have product : Product b c p (b.place (Path.absolute c.startDirectory c.outputRoot /
      Path.ofString (Reduce.sourceName p.artifact))) := isReduced ▸ .reduced
  have script : b.place (directory / Path.ofString "interesting.sh") =
      b.place directory ++ [utf8 "interesting.sh"] :=
    place_entry b directory (proper_of_length (by decide) (by decide))
  have minimized (test : Path) : Lasts i (Scripting b c p v (b.place directory))
      ReduceError.isInterrupt (Reduce.minimize c (sourceCommand c p.artifact test) p.artifact.path) := by
    refine minimize_lasts _ fun tools t holds => ?_
    rw [@carryOut_sourceCommand (refit b tools) c ⟨sited.home, sited.absolute⟩ p.artifact test t]
    exact holds.beside_next product outside (put_rewritten t _ _)
  unfold Reduce.reduceCopy
  refine .bind (.toolless (.orFail (asks_request trivial)) (.write fun t u holds written => ?_))
    fun _ => .bind (.toolless (.orFail (asks_request trivial)) .makeExecutable) fun _ =>
      .bind (.toolless (.monadLift (asks_request trivial)) (.look fun _ => rfl)) fun _ =>
        .cleaningUp (minimized _) (fun r => ?_) fun r s holds => ?_
  · exact holds.below_next (script ▸ List.prefix_append ..) (write_rewritten written)
  · cases r with
    | ok _ => trivial
    | error e => exact .bind (asks_request trivial) fun _ => trivial
  · cases r with
    | ok _ => exact holds
    | error e =>
      simp only
      rw [run_bind, run_remove]
      cases removed : Trees.remove s.tree (b.place (Path.absolute c.startDirectory c.outputRoot /
          Path.ofString (Reduce.sourceName p.artifact))) with
      | error cause => exact holds
      | ok u => exact holds.removed (isReduced ▸ free) outside removed

/-- A script comes and goes with its directory. -/
theorem scripted_heeds (sited : Sited b c) (level : Backend.of p.artifact = .sourceLevel)
    (free : v (b.place (reducedPath c p.artifact p.variant)) = none)
    (holds : Collecting b c p v s.tree.node?)
    (copied : Filed (b.place (Path.absolute c.startDirectory c.outputRoot /
      Path.ofString (Reduce.sourceName p.artifact))) s.tree) :
    Heeds i s (do
        let root := Path.absolute c.startDirectory c.outputRoot
        let copy := root / Path.ofString (Reduce.sourceName p.artifact)
        let directory ← Action.orFail (Program.temporaryDirectory "pareduce-creduce" "") (.files root)
        (Reduce.reduceCopy c p.artifact root copy directory).cleaningUp fun _ => do
          let _ ← Program.removeTree directory
        return copy)
      (fun _ t => Collecting b c p v t.tree.node?)
      fun e t => ReduceError.isInterrupt e ∧ Collecting b c p v t.tree.node? := by
  have framed : Frames "pareduce-creduce" "" := frames (by decide) (by decide) (by decide)
  dsimp only
  by_cases temporary : View.directory s.tree.node? (b.place b.temporary)
  · obtain ⟨directory, name, u, made, -, -, place, drawn, view⟩ :=
      run_temporaryDirectory framed temporary
    have within (q : Place) (below : b.place directory <+: q) : name ∈ q :=
      below.subset (by rw [place]; simp)
    have outside : ¬ b.place directory <+: b.place (Path.absolute c.startDirectory c.outputRoot /
        Path.ofString (Reduce.sourceName p.artifact)) := by
      intro below
      obtain ⟨content, executable, there⟩ := copied
      exact drawn.fresh _ (by simp [there]) (within _ below)
    have start : Scripting b c p v (b.place directory) u.node? := by
      refine ⟨?_, by rw [view, View.directory, View.put_self]; rfl⟩
      have same : without u.node? (b.place directory) = s.tree.node? := by
        rw [view, without_put_below (List.prefix_refl _)]
        funext q
        unfold without
        split
        · rename_i below
          exact (drawn.fresh.free (within q below)).symm
        · rfl
      rwa [same]
    have removed (t : State) (scripting : Scripting b c p v (b.place directory) t.tree.node?) :
        Collecting b c p v ((do let _ ← Program.removeTree directory : Program Unit).run
          b.host t).2.tree.node? := by
      obtain ⟨node, there, isDirectory⟩ := Option.any_eq_true _ _ |>.mp scripting.there
      have gone : Trees.removeTree t.tree (b.place directory) =
          .ok (t.tree.prune (b.place directory)) := by
        simp [Trees.removeTree, there, isDirectory]
      rw [run_bind, run_removeTree, gone]
      have view : (t.tree.prune (b.place directory)).node? = without t.tree.node? (b.place directory) :=
        funext fun q => node?_prune (by rw [place]; simp)
      show Collecting b c p v (t.tree.prune (b.place directory)).node?
      rw [view]
      exact scripting.beside
    refine .step (.orFail (asks_request trivial)) (fun e t failed => ?_) fun chosen t opened => ?_
    · rw [exec_orFail, made] at failed
      cases congrArg Prod.fst failed
    · rw [exec_orFail, made] at opened
      obtain rfl : directory = chosen := Except.ok.inj (congrArg Prod.fst opened)
      obtain rfl : { s with tree := u } = t := congrArg Prod.snd opened
      have cleaned : Heeds i { s with tree := u } ((Reduce.reduceCopy c p.artifact
          (Path.absolute c.startDirectory c.outputRoot) (Path.absolute c.startDirectory c.outputRoot /
            Path.ofString (Reduce.sourceName p.artifact)) directory).cleaningUp fun _ => do
              let _ ← Program.removeTree directory)
          (fun _ t => Collecting b c p v t.tree.node?)
          fun e t => ReduceError.isInterrupt e ∧ Collecting b c p v t.tree.node? :=
        (reduceCopy_lasts sited level free outside { s with tree := u } start).cleaningUp
          (fun _ => .bind (asks_request trivial) fun _ => trivial) (fun _ t _ holds => removed t holds)
          fun _ t left => ⟨left.1, removed t left.2⟩
      exact cleaned.bind (fun _ _ left => left) (fun _ _ holds => holds)
        fun _ t _ holds => .toolless (.pure _) holds
  · obtain ⟨cause, failed⟩ := run_temporaryDirectory_error framed (by simpa using temporary)
    refine .step (.orFail (asks_request trivial)) (fun e t ran => ?_) fun chosen t opened => ?_
    · rw [exec_orFail, failed] at ran
      obtain rfl : s = t := congrArg Prod.snd ran
      exact holds
    · rw [exec_orFail, failed] at opened
      cases congrArg Prod.fst opened

theorem reduceSource_lasts (sited : Sited b c) (level : Backend.of p.artifact = .sourceLevel) :
    Lasts i (Collecting b c p v) ReduceError.isInterrupt (Reduce.reduceSource c p.artifact) := by
  have isReduced : reducedPath c p.artifact p.variant =
      Path.absolute c.startDirectory c.outputRoot / Path.ofString (Reduce.sourceName p.artifact) := by
    rw [reducedPath, level]
  have product : Product b c p (b.place (Path.absolute c.startDirectory c.outputRoot /
      Path.ofString (Reduce.sourceName p.artifact))) := isReduced ▸ .reduced
  intro s holds
  unfold Reduce.reduceSource
  refine .step (.monadLift (asks_request trivial)) (fun e t ran => ?_) fun found t looked => ?_
  · rw [exec_monadLift] at ran
    cases congrArg Prod.fst ran
  · rw [exec_monadLift, run_exists] at looked
    obtain rfl : s = t := congrArg Prod.snd looked
    split
    · exact .toolless (.bind (.monadLift (asks_request trivial)) fun _ => .pure _) holds
    · rename_i unreduced
      have free : v (b.place (reducedPath c p.artifact p.variant)) = none := by
        refine Decidable.byContradiction fun there => unreduced ?_
        obtain rfl := Except.ok.inj (congrArg Prod.fst looked)
        rw [← isReduced]
        exact Option.isSome_iff_ne_none.mpr (holds.stays there)
      exact .change (run_copy _ _) (asks_request trivial) (fun _ _ => holds) fun u copied =>
        scripted_heeds sited level free (holds.next product (copy_rewritten copied))
          (copy_filed copied)

/-! ### The assembled form -/

/-- Whether the minimizer makes nothing of a program, and the assembler something of nothing. -/
def Conjures (b : Bench) (c : Config) (program : Option Bytes) : Prop :=
  (b.tools.minimizeIr c.tools.llvmReduce program).2 = none ∧
    (b.tools.convert c.tools.llvmAs none).written.isSome

/-- What becomes of the assembled form beside a reduced form that was not there before: it changes
only when the reduced form is there, or comes of nothing. -/
def Assembled (b : Bench) (c : Config) (p : Pair c) (program : Option Bytes) (v t : View) : Prop :=
  t (b.place (reducedPath c p.artifact p.variant)) ≠ none ∨
    t (assembledPlace b c p.variant) = v (assembledPlace b c p.variant) ∨ Conjures b c program

theorem reducedPath_ne_assembled (sited : Sited b c) (level : Backend.of p.artifact = .irLevel) :
    b.place (reducedPath c p.artifact p.variant) ≠ assembledPlace b c p.variant := by
  rw [place_reducedPath sited, assembledPlace_eq sited, reducedName_ir level]
  refine entry_ne ?_
  have name : utf8 (Reduce.irName p.variant.irPath) =
      utf8 ("reduced-" ++ Plan.stemOf p.variant.irPath) ++ utf8 ".ll" := by
    simp [Reduce.irName]
  rw [name, utf8_append _ ".bc"]
  exact text_ne_binary _ _

theorem assemble_assembled (sited : Sited b c) (level : Backend.of p.artifact = .irLevel)
    {program : Option Bytes} {t : State}
    (made : t.tree.node? (b.place (reducedPath c p.artifact p.variant)) ≠ none ∨
      (b.tools.minimizeIr c.tools.llvmReduce program).2 = none ∧
      t.tree.node? (b.place (reducedPath c p.artifact p.variant)) = none ∧
      t.tree.node? (assembledPlace b c p.variant) = v (assembledPlace b c p.variant)) :
    Heeds i t (Compile.assemble c (reducedPath c p.artifact p.variant)
        (Path.absolute c.startDirectory c.outputRoot))
      (fun _ u => Assembled b c p program v u.tree.node?)
      fun e u => CompileError.isInterrupt e ∧ Assembled b c p program v u.tree.node? := by
  have isPath : reducedPath c p.artifact p.variant =
      Path.absolute c.startDirectory c.outputRoot / Path.ofString (Reduce.irName p.variant.irPath) := by
    rw [reducedPath, level]
  have isAssembled : b.place (Path.absolute c.startDirectory c.outputRoot / Path.ofString
      (Plan.stemOf (reducedPath c p.artifact p.variant) ++ ".bc")) = assembledPlace b c p.variant := by
    rw [isPath]
    rfl
  have spared (place : Place) (product : Product b c p place) (t u : FileTree)
      (made : createDirectories t (b.place (Path.absolute c.startDirectory c.outputRoot)) = .ok u) :
      u.node? place = t.node? place := by
    rw [place_root sited] at made
    refine (createDirectories_spec made).1.change.elsewhere place fun inside => ?_
    exact product.apart sited inside.1
  rcases made with made | ⟨nothing, missing, same⟩
  · -- The reduced form stays, whatever the assembler makes of it.
    have lasts : Lasts i (fun u => u (b.place (reducedPath c p.artifact p.variant)) ≠ none)
        CompileError.isInterrupt (Compile.assemble c (reducedPath c p.artifact p.variant)
          (Path.absolute c.startDirectory c.outputRoot)) := by
      refine assemble_lasts (fun t u there made => ?_) fun _ t _ there => ?_
      · rwa [spared _ .reduced t u made]
      · rwa [isAssembled, put_other _ (reducedPath_ne_assembled sited level)]
    exact (lasts t made).mono (fun _ _ _ there => .inl there) fun _ _ left => ⟨left.1, .inl left.2⟩
  · by_cases conjures : (b.tools.convert c.tools.llvmAs none).written.isSome
    · have lasts : Lasts i (fun _ => True) CompileError.isInterrupt (Compile.assemble c
          (reducedPath c p.artifact p.variant) (Path.absolute c.startDirectory c.outputRoot)) :=
        assemble_lasts (fun _ _ _ _ => trivial) fun _ _ _ _ => trivial
      exact (lasts t trivial).mono (fun _ _ _ _ => .inr (.inr ⟨nothing, conjures⟩))
        fun _ _ left => ⟨left.1, .inr (.inr ⟨nothing, conjures⟩)⟩
    · have lasts : Lasts i (fun u => u (b.place (reducedPath c p.artifact p.variant)) = none ∧
          u (assembledPlace b c p.variant) = v (assembledPlace b c p.variant))
          CompileError.isInterrupt (Compile.assemble c (reducedPath c p.artifact p.variant)
            (Path.absolute c.startDirectory c.outputRoot)) := by
        refine assemble_lasts (fun t u holds made => ?_) fun tools t unfinished holds => ?_
        · rwa [spared _ .reduced t u made, spared _ (.assembled level) t u made]
        · have empty : content t (b.place (reducedPath c p.artifact p.variant)) = none := by
            rw [content_of_node?, holds.1]
          have unwritten : (tools.convert c.tools.llvmAs none).written = none :=
            unfinished _ (by simpa using conjures)
          rw [empty, unwritten]
          exact holds
      exact (lasts t ⟨missing, same⟩).mono (fun _ _ _ holds => .inr (.inl holds.2))
        fun _ _ left => ⟨left.1, .inr (.inl left.2.2)⟩

theorem not_exited {streams : Bytes × Bytes} {finish : Finish} {result : Outcome}
    (ended : outcome streams finish = result) (other : ∀ output, result ≠ .completed output) :
    finish ≠ .ended (.exited 0) := by
  intro success
  rw [success, outcome_exited] at ended
  exact other _ ended.symm

/-- A minimizer that starts does its work, and the run goes well if the minimizer does. -/
theorem exec_minimize {command : Command} (input : Path) (starts : b.canStart command) :
    ∃ r, exec b.host s (Reduce.minimize c command input) = (r, after b s command) ∧
      if (b.carryOut command s.tree).2 = .ended (.exited 0) then r = .ok ()
      else ∃ tool detail, r = .error (.minimizerFailed tool input detail) := by
  unfold Reduce.minimize
  dsimp only
  rw [exec_bind, exec_adapt, exec_command, if_pos starts]
  cases ended : outcome (b.tools.streams command) (b.carryOut command s.tree).2 with
  | completed output =>
    refine ⟨_, rfl, ?_⟩
    rw [if_pos (outcome_completed ended)]
  | failed output =>
    refine ⟨_, rfl, ?_⟩
    rw [if_neg (not_exited ended (by simp))]
    exact ⟨_, _, rfl⟩
  | timedOut =>
    refine ⟨_, rfl, ?_⟩
    rw [if_neg (not_exited ended (by simp))]
    exact ⟨_, _, rfl⟩

theorem exec_minimize_unstarted {command : Command} (input : Path)
    (starts : b.canStart command = false) : ∃ e,
      exec b.host s (Reduce.minimize c command input) = (.error (.run e), s) := by
  unfold Reduce.minimize
  dsimp only
  rw [exec_bind, exec_adapt, exec_command, if_neg (by simp [starts])]
  exact ⟨_, rfl⟩

theorem irPath_ne_nil (p : Pair c) : p.variant.irPath.bytes ≠ [] := by
  obtain ⟨name, named⟩ := p.named
  intro empty
  rw [show p.variant.irPath = ⟨[]⟩ from congrArg Path.mk empty] at named
  cases named

theorem reduceIr_assembled (sited : Sited b c) (level : Backend.of p.artifact = .irLevel)
    (directory : View.directory s.tree.node? (b.place c.outputRoot))
    (missing : s.tree.node? (b.place (reducedPath c p.artifact p.variant)) = none) :
    Heeds i s (Reduce.reduceIr c p.variant.irPath)
      (fun _ t => Assembled b c p (content s.tree (b.place p.variant.irPath)) s.tree.node? t.tree.node?)
      fun e t => ReduceError.isInterrupt e ∧
        Assembled b c p (content s.tree (b.place p.variant.irPath)) s.tree.node? t.tree.node? := by
  have isPath : reducedPath c p.artifact p.variant =
      Path.absolute c.startDirectory c.outputRoot / Path.ofString (Reduce.irName p.variant.irPath) := by
    rw [reducedPath, level]
  have other := (reducedPath_ne_assembled sited level).symm
  have minimized : Lasts i (fun u => u (assembledPlace b c p.variant) =
      s.tree.node? (assembledPlace b c p.variant)) ReduceError.isInterrupt
      (Reduce.minimize c (irCommand c p.variant.irPath) p.variant.irPath) := by
    refine minimize_lasts _ fun tools t same => ?_
    obtain ⟨written, carried, -⟩ :=
      @carryOut_irCommand (refit b tools) c ⟨sited.home, sited.absolute⟩ p.variant.irPath t
    rw [carried]
    exact (put_other _ (isPath ▸ other)).trans same
  unfold Reduce.reduceIr
  refine .step (.monadLift (asks_request trivial)) (fun e t ran => ?_) fun found t looked => ?_
  · rw [exec_monadLift] at ran
    cases congrArg Prod.fst ran
  rw [exec_monadLift, run_exists] at looked
  obtain rfl : s = t := congrArg Prod.snd looked
  obtain rfl : false = found := by
    rw [← isPath, Trees.exists, missing] at looked
    exact Except.ok.inj (congrArg Prod.fst looked)
  refine .step (.monadLift (asks_request trivial)) (fun e t ran => ?_) fun _ t said => ?_
  · cases congrArg Prod.fst ran
  obtain rfl : s = t := congrArg Prod.snd said
  refine (minimized s rfl).bind (fun _ _ left => ⟨left.1, .inr (.inl left.2)⟩) (fun _ _ same => .inr (.inl same))
    fun _ t ran same => ?_
  have made : t.tree.node? (b.place (reducedPath c p.artifact p.variant)) ≠ none ∨
      (b.tools.minimizeIr c.tools.llvmReduce (content s.tree (b.place p.variant.irPath))).2 = none ∧
      t.tree.node? (b.place (reducedPath c p.artifact p.variant)) = none ∧
      t.tree.node? (assembledPlace b c p.variant) = s.tree.node? (assembledPlace b c p.variant) := by
    by_cases starts : b.canStart (irCommand c p.variant.irPath)
    · obtain ⟨r, executed, -⟩ := @exec_minimize b c s _ p.variant.irPath starts
      obtain rfl : after b s _ = t := congrArg Prod.snd (executed.symm.trans ran)
      obtain ⟨written, carried, isWritten⟩ := @carryOut_irCommand b c sited p.variant.irPath s.tree
      rw [← isPath] at carried
      have view : (after b s (irCommand c p.variant.irPath)).tree = _ := carried
      cases written with
      | none => exact .inr ⟨(isWritten (irPath_ne_nil p)).symm, by rw [view]; exact missing, same⟩
      | some bytes =>
        rw [place_reducedPath sited] at missing view ⊢
        rw [view, put_written (View.writable_entry missing directory)]
        exact .inl (Option.some_ne_none _)
    · obtain ⟨e, executed⟩ := @exec_minimize_unstarted b c s _ p.variant.irPath (by simpa using starts)
      cases congrArg Prod.fst (executed.symm.trans ran)
  have assembled := assemble_assembled (i := i) sited level made
  rw [isPath] at assembled
  have adapted : Heeds i t ((Compile.assemble c (Path.absolute c.startDirectory c.outputRoot /
        Path.ofString (Reduce.irName p.variant.irPath)) (Path.absolute c.startDirectory c.outputRoot)).adapt
        ReduceError.compile)
      (fun _ u => Assembled b c p (content s.tree (b.place p.variant.irPath)) s.tree.node? u.tree.node?)
      fun e u => ReduceError.isInterrupt e ∧
        Assembled b c p (content s.tree (b.place p.variant.irPath)) s.tree.node? u.tree.node? :=
    .adapt assembled
  exact adapted.bind (fun _ _ left => left) (fun _ _ holds => holds)
    fun _ _ _ holds => .toolless (.pure _) holds

end Collecting

end BugHunt.Proofs.Leftovers
