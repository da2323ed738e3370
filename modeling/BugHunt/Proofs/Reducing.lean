import BugHunt.Proofs.Judging
/-!
What keeping and reducing an interesting program changes: entries of the output directory, and the
directories that lead there.
-/

namespace BugHunt.Proofs.Reducing
open Trees Texts Names Places Runs Bench Outcomes Building Judging

variable {b : Bench} {c : Config} {s : State}

/-- Whether a configuration is one of a run that starts where the bench has its runs start. -/
structure Sited (b : Bench) (c : Config) : Prop where
  home : b.place c.startDirectory = b.here
  absolute : c.startDirectory.isAbsolute

/-- The places on the way to the output directory and its entries, but for those that are
spared. -/
def Area (b : Bench) (c : Config) (spared : Place → Prop) (q : Place) : Prop :=
  (q <+: b.place c.outputRoot ∨ ∃ name, q = b.place c.outputRoot ++ [name]) ∧ ¬ spared q

/-- The places that no reduction may touch: files, and none that ends as what is kept does. -/
structure Spared (b : Bench) (c : Config) (v : View) (spared : Place → Prop) : Prop where
  there : ∀ q, spared q → v q ≠ none
  notBinary : ∀ stem, ¬ spared (b.place c.outputRoot ++ [stem ++ utf8 ".bc"])
  notText : ∀ stem, ¬ spared (b.place c.outputRoot ++ [stem ++ utf8 ".ll"])

section Keeping

variable {v : View} {spared : Place → Prop}

/-- What has happened so far: changes in the output directory. -/
abbrev Kept (b : Bench) (c : Config) (spared : Place → Prop) (v : View) : View → Prop :=
  Change (Area b c spared) v

theorem place_root (sited : Sited b c) :
    b.place (Path.absolute c.startDirectory c.outputRoot) = b.place c.outputRoot :=
  placeOf_absoluteForm sited.home c.outputRoot

theorem createDirectories_kept (safe : Spared b c v spared) {t u : FileTree}
    (holds : Kept b c spared v t.node?)
    (made : createDirectories t (b.place c.outputRoot) = .ok u) : Kept b c spared v u.node? := by
  refine holds.trans ((createDirectories_spec made).1.change.mono ?_)
  rintro q ⟨below, free⟩
  refine ⟨.inl below, fun isSpared => safe.there q isSpared ?_⟩
  rw [← holds.elsewhere q fun inside => inside.2 isSpared]
  exact free

/-- A change of an entry that is not spared. -/
theorem entry_kept {name : Bytes} (other : ¬ spared (b.place c.outputRoot ++ [name])) {t u : View}
    (holds : Kept b c spared v t) (changed : Change (· = b.place c.outputRoot ++ [name]) t u) :
    Kept b c spared v u :=
  holds.trans (changed.mono fun _ same => same ▸ ⟨.inr ⟨name, rfl⟩, other⟩)

/-- A tool that turns IR into another form writes no other file. -/
theorem convert_kept {tool input output : Path} {name : Bytes}
    (place : b.place output = b.place c.outputRoot ++ [name])
    (other : ¬ spared (b.place c.outputRoot ++ [name])) :
    Preserves b (Kept b c spared v) (Compile.convert c tool input output) := by
  intro s holds
  obtain ⟨r, t, written, ran, tree, -⟩ := @exec_convert b c s tool input output
  rw [ran]
  show Kept b c spared v t.tree.node?
  rw [tree, place]
  exact entry_kept other holds (put_change _ _ written)

theorem looksLikeBitcode_still (p : Path) (s : State) :
    ((Compile.looksLikeBitcode p).run b.host s).2 = s := by
  unfold Compile.looksLikeBitcode
  rw [run_bind, run_read]
  cases b.readAt s p <;> rfl

/-- What an entry of the output directory is disassembled to lies beside it. -/
theorem disassembly_place {name : String} {kind : Kind} {stem extension : Bytes}
    (proper : Proper (utf8 name)) (notDot : (utf8 name).head? ≠ some Path.dot)
    (programmed : Programmed (c.outputRoot / Path.ofString name) kind stem extension) :
    stem ++ Path.dot :: extension = utf8 name ∧
      b.place ((c.outputRoot / Path.ofString name).withExtension "ll") =
        b.place c.outputRoot ++ [stem ++ utf8 ".ll"] := by
  obtain ⟨parent, place, beside⟩ := placeOf_withExtension b.here programmed
    (endsIdle_entry c.outputRoot proper) (show Path.slash ∉ utf8 "ll" by decide)
  rw [show placeOf b.here (c.outputRoot / Path.ofString name) =
    b.place c.outputRoot ++ [utf8 name] from place_entry b c.outputRoot proper] at place
  obtain ⟨rfl, same⟩ := List.append_inj' place rfl
  have notDots : stem ≠ [Path.dot] := by
    rintro rfl
    rw [List.singleton_inj.mp same] at notDot
    exact notDot rfl
  refine ⟨(List.singleton_inj.mp same).symm, ?_⟩
  rw [Bench.place, beside, if_neg notDots]
  rfl

/-- Disassembling an entry of the output directory writes beside it. -/
theorem disassemble_kept (safe : Spared b c v spared) {name : String} (proper : Proper (utf8 name))
    (notDot : (utf8 name).head? ≠ some Path.dot) :
    Preserves b (Kept b c spared v) (Compile.disassemble c (c.outputRoot / Path.ofString name)) := by
  unfold Compile.disassemble
  split
  · exact .pure _
  · rename_i isKind
    obtain ⟨stem, extension, programmed⟩ := programmed_of_kind isKind
    obtain ⟨-, output⟩ := @disassembly_place b c _ _ _ _ proper notDot programmed
    refine .bind (convert_kept output (safe.notText stem)) fun _ => .bind (.look fun _ => rfl)
      fun found => ?_
    dsimp only
    split
    · exact .bind (.throw _) fun _ => .pure _
    · exact .pure _
  · exact .throw _

/-- The bitcode of a program is an entry of the output directory. -/
theorem assembly_place (sited : Sited b c) (p : Path) :
    b.place (Path.absolute c.startDirectory c.outputRoot /
      Path.ofString (Plan.stemOf p ++ ".bc")) =
      b.place c.outputRoot ++ [utf8 (Plan.stemOf p) ++ utf8 ".bc"] := by
  rw [place_entry b _ (ended_proper (slash_notMem_stemOf p)), place_root sited, utf8_append]

/-- Assembling into the output directory makes an entry of it. -/
theorem assemble_kept (sited : Sited b c) (safe : Spared b c v spared) (p : Path) :
    Preserves b (Kept b c spared v)
      (Compile.assemble c p (Path.absolute c.startDirectory c.outputRoot)) := by
  have tail (output : Path) : Preserves b (Kept b c spared v) (do
      if !(← Compile.looksLikeBitcode output) then
        throw (.notBitcode c.tools.llvmAs.display output)
      return output : Compiling Path) := by
    refine .bind (.look (looksLikeBitcode_still output)) fun magic => ?_
    dsimp only
    split
    · exact .bind (.throw _) fun _ => .pure _
    · exact .pure _
  unfold Compile.assemble
  dsimp only
  split
  · exact .bind (.pure _) fun _ => tail _
  · refine .bind (.createDirectories ?_) fun _ =>
      .bind (convert_kept (assembly_place sited p) (safe.notBinary _)) fun _ => .bind (.pure _) fun _ => tail _
    rw [place_root sited]
    exact fun _ _ holds made => createDirectories_kept safe holds made
  · exact .bind (.throw _) fun _ => tail _

theorem minimize_preserves {P : View → Prop} {command : Command} (input : Path)
    (carried : ∀ t : FileTree, P t.node? → P (b.carryOut command t).1.node?) :
    Preserves b P (Reduce.minimize c command input) := by
  unfold Reduce.minimize
  refine .bind (.adapt (.command carried)) fun outcome => ?_
  cases outcome with
  | completed _ => exact .pure _
  | failed _ => exact .throw _
  | timedOut => exact .throw _

/-! ## Keeping -/

theorem keptName_eq (variant : Variant) :
    Reduce.keptName variant = "interesting-" ++ variant.name := by
  simp [Reduce.keptName]

theorem keptName_proper {variant : Variant} (clean : '/' ∉ variant.name.toList) :
    Proper (utf8 (Reduce.keptName variant)) := by
  rw [keptName_eq]
  apply proper_of_length
  · simp [clean]
  · have : (utf8 "interesting-").length = 12 := by decide
    rw [utf8_append, List.length_append]
    omega

theorem preserve_kept (safe : Spared b c v spared) {variant : Variant}
    (clean : '/' ∉ variant.name.toList)
    (other : ¬ spared (b.place c.outputRoot ++ [utf8 (Reduce.keptName variant)])) :
    Preserves b (Kept b c spared v) (Reduce.preserve c variant) := by
  have proper := keptName_proper clean
  have place := place_entry b c.outputRoot proper
  have notDot : (utf8 (Reduce.keptName variant)).head? ≠ some Path.dot := by
    have first : (utf8 "interesting-").head? = some 0x69 := by decide
    rw [keptName_eq, utf8_append, List.head?_append, first, Option.some_or]
    decide
  unfold Reduce.preserve
  refine .bind (.createDirectories fun _ _ => createDirectories_kept safe) fun _ => .bind (.copy ?_)
    fun _ => .bind (.attempt (disassemble_kept safe proper notDot)) fun result => ?_
  · rw [place]
    exact fun t u holds copied => entry_kept other holds (copy_change copied)
  · split
    · exact .pure _
    · exact .throw _
    · exact .bind (.look fun _ => rfl) fun _ => .pure _

/-! ## Reducing IR -/

theorem minimizeIr_call (reduced input directory : Path) :
    Call.ofArguments? (Command.ofProgram c.tools.llvmReduce
      |>.texts (Recursion.testOptions c)
      |>.text "-o"
      |>.path reduced
      |>.path input
      |>.within directory).arguments = some (.minimizeIr reduced input) := by
  have test : utf8 "--test=" = [45, 45, 116, 101, 115, 116, 61] := by decide
  have rtti : utf8 "--test=" ++ utf8 c.selfExe.display ≠ utf8 "-fno-rtti" := by
    rw [test, show utf8 "-fno-rtti" = [45, 102, 110, 111, 45, 114, 116, 116, 105] by decide]
    simp
  have jobs : utf8 "--test=" ++ utf8 c.selfExe.display ≠ utf8 "-j" := by
    rw [test, show utf8 "-j" = [45, 106] by decide]
    simp
  simp [Command.texts, Command.text, Command.path, Command.arg, Command.within,
    Command.ofProgram, Recursion.testOptions, Config.passthroughArgs, Call.ofArguments?, rtti, jobs]

theorem irName_proper (ir : Path) : Proper (utf8 (Reduce.irName ir)) := by
  apply proper_of_length
  · simp [Reduce.irName, slash_notMem_stemOf]
  · have : (utf8 "reduced-").length = 8 := by decide
    simp only [Reduce.irName, toString_text, utf8_append, List.length_append]
    omega

/-- The call of the minimizer for IR. -/
def irCommand (c : Config) (ir : Path) : Command :=
  let root := Path.absolute c.startDirectory c.outputRoot
  Command.ofProgram c.tools.llvmReduce
    |>.texts (Recursion.testOptions c)
    |>.text "-o"
    |>.path (root / Path.ofString (Reduce.irName ir))
    |>.path (Path.absolute c.startDirectory ir)
    |>.within root

theorem place_reducedIr (sited : Sited b c) (ir : Path) :
    b.place (Path.absolute c.startDirectory c.outputRoot / Path.ofString (Reduce.irName ir)) =
      b.place c.outputRoot ++ [utf8 ("reduced-" ++ Plan.stemOf ir) ++ utf8 ".ll"] := by
  have name : utf8 (Reduce.irName ir) = utf8 ("reduced-" ++ Plan.stemOf ir) ++ utf8 ".ll" := by
    simp [Reduce.irName]
  rw [place_entry b _ (irName_proper ir), place_root sited, name]

/-- The minimizer for IR writes the reduced form and nothing else. -/
theorem carryOut_irCommand (sited : Sited b c) (ir : Path) (t : FileTree) :
    ∃ written, (b.carryOut (irCommand c ir) t).1 = put t
        (b.place (Path.absolute c.startDirectory c.outputRoot / Path.ofString (Reduce.irName ir)))
        written ∧
      (ir.bytes ≠ [] →
        written = (b.tools.minimizeIr c.tools.llvmReduce (content t (b.place ir))).2) := by
  let root := Path.absolute c.startDirectory c.outputRoot
  have output : placeOf (b.place root) (root / Path.ofString (Reduce.irName ir)) =
      b.place (root / Path.ofString (Reduce.irName ir)) :=
    placeOf_from_absoluteForm sited.absolute _ _
  refine ⟨(b.tools.minimizeIr c.tools.llvmReduce
    (content t (placeOf (b.place root) (Path.absolute c.startDirectory ir)))).2, ?_, fun some => ?_⟩
  · rw [← output, carryOut, irCommand, minimizeIr_call]
    rfl
  · rw [@placeOf_absolute _ b.here _ (isAbsolute_absoluteForm sited.absolute some),
      placeOf_absoluteForm sited.home]
    rfl

theorem reduceIr_kept (sited : Sited b c) (safe : Spared b c v spared) (ir : Path) :
    Preserves b (Kept b c spared v) (Reduce.reduceIr c ir) := by
  unfold Reduce.reduceIr
  refine .bind (.look fun _ => rfl) fun found => ?_
  dsimp only
  split
  · exact .bind (.look fun _ => rfl) fun _ => .pure _
  · refine .bind (.look fun _ => rfl) fun _ => .bind (minimize_preserves ir fun t holds => ?_) fun _ =>
      .bind (.adapt (assemble_kept sited safe _)) fun _ => .pure _
    obtain ⟨written, carried, -⟩ := @carryOut_irCommand b c sited ir t
    rw [place_reducedIr sited] at carried
    refine entry_kept (safe.notText (utf8 ("reduced-" ++ Plan.stemOf ir))) holds ?_
    exact carried ▸ put_change _ _ _

/-! ## Reducing sources -/

theorem sourceName_eq (a : Artifact) : Reduce.sourceName a = "source-reduced-" ++ a.name := by
  simp [Reduce.sourceName]

/-- The name of a program can stand in a file name. -/
theorem slash_notMem_name {p : Path} {name : Bytes} (named : p.fileName? = some name) :
    '/' ∉ p.name.toList := by
  rw [Path.name, named]
  exact slash_notMem_lossy (proper_of_fileName? named).clean

theorem sourceName_proper (a : Artifact) : Proper (utf8 (Reduce.sourceName a)) := by
  obtain ⟨stem, extension, programmed⟩ := programmed_of_kind a.kind_of_path
  rw [sourceName_eq]
  apply proper_of_length
  · simp [Artifact.name, slash_notMem_name programmed.named]
  · have : (utf8 "source-reduced-").length = 15 := by decide
    rw [utf8_append, List.length_append]
    omega

theorem minimizeSource_call (test directory : Path) (a : Artifact) :
    Call.ofArguments? (Command.ofProgram c.tools.creduce
      |>.path test
      |>.text (Reduce.sourceName a)
      |>.within directory).arguments = some (.minimizeSource (Path.ofString (Reduce.sourceName a))) :=
  rfl

/-- The call of the minimizer for sources. -/
def sourceCommand (c : Config) (a : Artifact) (test : Path) : Command :=
  Command.ofProgram c.tools.creduce
    |>.path test
    |>.text (Reduce.sourceName a)
    |>.within (Path.absolute c.startDirectory c.outputRoot)

theorem place_reducedSource (sited : Sited b c) (a : Artifact) :
    b.place (Path.absolute c.startDirectory c.outputRoot / Path.ofString (Reduce.sourceName a)) =
      b.place c.outputRoot ++ [utf8 (Reduce.sourceName a)] := by
  rw [place_entry b _ (sourceName_proper a), place_root sited]

/-- The minimizer for sources writes what it makes of the copy to the copy, and nothing else. -/
theorem carryOut_sourceCommand (sited : Sited b c) (a : Artifact) (test : Path) (t : FileTree) :
    (b.carryOut (sourceCommand c a test) t).1 = put t
      (b.place (Path.absolute c.startDirectory c.outputRoot / Path.ofString (Reduce.sourceName a)))
      (b.tools.minimizeSource c.tools.creduce (content t
        (b.place (Path.absolute c.startDirectory c.outputRoot /
          Path.ofString (Reduce.sourceName a))))).2 := by
  have output : placeOf (b.place (Path.absolute c.startDirectory c.outputRoot))
      (Path.ofString (Reduce.sourceName a)) =
      b.place c.outputRoot ++ [utf8 (Reduce.sourceName a)] := by
    rw [place_root sited]
    exact placeOf_name _ (sourceName_proper a)
  rw [place_reducedSource sited, ← output, carryOut, sourceCommand, minimizeSource_call]
  rfl

/-- What has happened so far, while a minimizer's script stands in a directory of its own. -/
structure Scripted (b : Bench) (c : Config) (spared : Place → Prop) (v : View) (directory : Place)
    (t : View) : Prop where
  change : Change (fun q => Area b c spared q ∨ directory <+: q) v t
  there : t.directory directory

theorem Scripted.next {directory : Place} {t u : View} {within : Place → Prop}
    (h : Scripted b c spared v directory t) (changed : Change within t u)
    (inside : ∀ q, within q → Area b c spared q ∨ directory <+: q) :
    Scripted b c spared v directory u :=
  ⟨h.change.trans (changed.mono inside), changed.directories _ h.there⟩

theorem reduceCopy_scripted (sited : Sited b c) (a : Artifact) (directory : Path)
    (other : ¬ spared (b.place c.outputRoot ++ [utf8 (Reduce.sourceName a)])) :
    Preserves b (Scripted b c spared v (b.place directory))
      (Reduce.reduceCopy c a (Path.absolute c.startDirectory c.outputRoot)
        (Path.absolute c.startDirectory c.outputRoot / Path.ofString (Reduce.sourceName a))
        directory) := by
  have copyInside : ∀ q, q = b.place c.outputRoot ++ [utf8 (Reduce.sourceName a)] →
      Area b c spared q ∨ b.place directory <+: q := by
    rintro q rfl
    exact .inl ⟨.inr ⟨_, rfl⟩, other⟩
  have scriptPlace : b.place (directory / Path.ofString "interesting.sh") =
      b.place directory ++ [utf8 "interesting.sh"] :=
    place_entry b directory ⟨by decide, by decide, by decide, by decide⟩
  unfold Reduce.reduceCopy
  refine .bind (.write fun t u holds written => ?_) fun _ => .bind .makeExecutable fun _ =>
    .bind (.look fun _ => rfl) fun _ => .cleaningUp ?_ fun result s holds => ?_
  · refine holds.next (write_change written) ?_
    rintro q rfl
    exact .inr (scriptPlace ▸ List.prefix_append ..)
  · refine minimize_preserves _ fun t holds => ?_
    have carried :=
      @carryOut_sourceCommand b c sited a (directory / Path.ofString "interesting.sh") t
    rw [place_reducedSource sited] at carried
    refine holds.next ?_ copyInside
    exact carried ▸ put_change _ _ _
  · cases result with
    | ok _ => exact holds
    | error e =>
      simp only
      rw [run_bind, run_remove, place_reducedSource sited]
      cases removed : Trees.remove s.tree (b.place c.outputRoot ++ [utf8 (Reduce.sourceName a)]) with
      | error cause => exact holds
      | ok u => exact holds.next (remove_change removed).1 copyInside

/-- Nothing is left of the directory of a script. -/
theorem Scripted.removed {before after : String} {name : Bytes} {directory : Place}
    {t u : FileTree} {w : View} (holds : Scripted b c spared v directory t.node?)
    (earlier : Kept b c spared v w) (drawn : Drawn w before after name) (within : name ∈ directory)
    (removed : removeTree t directory = .ok u) : Kept b c spared v u.node? := by
  have new : ∀ q, directory <+: q → w q = none :=
    fun q below => drawn.fresh.free (below.subset within)
  obtain rfl := removeTree_prune removed
  have named : directory ≠ [] := List.ne_nil_of_mem within
  constructor
  · intro q outside
    rw [node?_prune named]
    split
    · rename_i below
      rw [← earlier.elsewhere q outside, new q below]
    · rename_i apart
      exact holds.change.elsewhere q (by simp [outside, apart])
  · intro q there
    have apart : ¬ directory <+: q := by
      intro below
      have := earlier.directories q there
      simp [View.directory, new q below] at this
    rw [View.directory, node?_prune named, if_neg apart]
    exact holds.change.directories q there

/-- The script of a minimizer comes and goes with its directory. -/
theorem scripted_kept (sited : Sited b c) (a : Artifact)
    (other : ¬ spared (b.place c.outputRoot ++ [utf8 (Reduce.sourceName a)])) :
    Preserves b (Kept b c spared v) (do
      let root := Path.absolute c.startDirectory c.outputRoot
      let copy := root / Path.ofString (Reduce.sourceName a)
      let directory ← Action.orFail (Program.temporaryDirectory "pareduce-creduce" "") (.files root)
      (Reduce.reduceCopy c a root copy directory).cleaningUp fun _ => do
        let _ ← Program.removeTree directory
      return copy) := by
  intro s holds
  have framed : Frames "pareduce-creduce" "" := frames (by decide) (by decide) (by decide)
  dsimp only
  rw [exec_bind, exec_orFail]
  by_cases temporary : View.directory s.tree.node? (b.place b.temporary)
  · obtain ⟨directory, name, u, made, -, -, place, drawn, view⟩ :=
      run_temporaryDirectory framed temporary
    have within : name ∈ b.place directory := by
      rw [place]
      simp
    have free : s.tree.node? (b.place directory) = none := drawn.fresh.free within
    have start : Scripted b c spared v (b.place directory) u.node? := by
      constructor
      · refine (holds.mono fun q inside => .inl inside).trans ⟨fun q outside => ?_, fun q there => ?_⟩
        · rw [view, View.put_other]
          rintro rfl
          exact outside (.inr (List.prefix_refl _))
        · rw [view]
          by_cases same : q = b.place directory
          · rw [same, View.directory, View.put_self]
            rfl
          · rwa [View.directory, View.put_other same]
      · rw [view, View.directory, View.put_self]
        rfl
    have done := reduceCopy_scripted sited a directory other { s with tree := u } start
    rw [made]
    simp only [mapError_ok]
    rw [exec_bind, exec_cleaningUp]
    generalize exec b.host { s with tree := u } (Reduce.reduceCopy c a _ _ directory) = result at done ⊢
    obtain ⟨result, t⟩ := result
    dsimp only
    rw [run_bind, run_removeTree]
    cases removed : Trees.removeTree t.tree (b.place directory) with
    | ok w =>
      have kept : Kept b c spared v w.node? := done.removed holds drawn within removed
      cases result with
      | ok _ => exact kept
      | error _ => exact kept
    | error cause =>
      obtain ⟨node, there, isDirectory⟩ := Option.any_eq_true _ _ |>.mp done.there
      simp [Trees.removeTree, there, isDirectory] at removed
  · obtain ⟨cause, failed⟩ := run_temporaryDirectory_error framed (by simpa using temporary)
    rw [failed]
    exact holds

theorem reduceSource_kept (sited : Sited b c) (safe : Spared b c v spared) (a : Artifact) :
    Preserves b (Kept b c spared v) (Reduce.reduceSource c a) := by
  intro s holds
  unfold Reduce.reduceSource
  rw [exec_bind, exec_monadLift, run_exists]
  dsimp only
  split
  · exact holds
  · rename_i missing
    have other : ¬ spared (b.place c.outputRoot ++ [utf8 (Reduce.sourceName a)]) := by
      intro isSpared
      refine safe.there _ isSpared ?_
      rw [← holds.elsewhere _ fun inside => inside.2 isSpared]
      rw [place_reducedSource sited] at missing
      simpa [Trees.exists] using missing
    refine Keeps.bind (.copy ?_) (fun _ => ?_) s holds
    · rw [place_reducedSource sited]
      exact fun _ _ holds copied => entry_kept other holds (copy_change copied)
    · exact scripted_kept sited a other

/-- Keeping and reducing an interesting variant changes nothing but the output directory. -/
theorem dispatch_kept (sited : Sited b c) (safe : Spared b c v spared) (a : Artifact)
    {variant : Variant} (clean : '/' ∉ variant.name.toList)
    (other : ¬ spared (b.place c.outputRoot ++ [utf8 (Reduce.keptName variant)])) :
    Preserves b (Kept b c spared v) (Reduce.dispatch c a variant) := by
  unfold Reduce.dispatch
  refine .bind (preserve_kept safe clean other) fun _ => ?_
  split
  · exact reduceIr_kept sited safe variant.irPath
  · exact reduceSource_kept sited safe a

end Keeping

end BugHunt.Proofs.Reducing
