import BugHunt.Proofs.Building
/-!
Judging IR on a bench: the verdict follows from the bytes, and nothing but the sentinel of a crash
is left of it, unless the workspace is kept for debugging.
-/

namespace BugHunt.Proofs.Judging
open Trees Texts Names Places Runs Bench Outcomes Building

variable {b : Bench} {c : Config} {s : State}

/-! ## The workspace -/

/-- A workspace with its two directories, beside what was there before. -/
structure Laid (b : Bench) (v : View) (w : Workspace) (t : View) : Prop where
  absolute : w.root.isAbsolute
  outside : ∀ q, ¬ b.place w.root <+: q → t q = v q
  root : t.directory (b.place w.root)
  facts : t.directory (b.place w.facts)
  results : t.directory (b.place w.results)

theorem place_facts (w : Workspace) : b.place w.facts = b.place w.root ++ [utf8 "facts"] :=
  place_entry b w.root ⟨by decide, by decide, by decide, by decide⟩

theorem place_results (w : Workspace) : b.place w.results = b.place w.root ++ [utf8 "results"] :=
  place_entry b w.root ⟨by decide, by decide, by decide, by decide⟩

/-- Whether a directory holds no entries. -/
def Bare (v : View) (directory : Place) : Prop := ∀ name, v (directory ++ [name]) = none

/-- Whether there is nothing in a workspace but its two directories. -/
def Vacant (b : Bench) (w : Workspace) (t : View) : Prop :=
  ∀ q, b.place w.root <+: q → q ≠ b.place w.root → q ≠ b.place w.facts → q ≠ b.place w.results →
    t q = none

theorem Vacant.facts {w : Workspace} {t : View} (h : Vacant b w t) : Bare t (b.place w.facts) := by
  intro name
  apply h <;> simp [place_facts, place_results]

theorem Vacant.results {w : Workspace} {t : View} (h : Vacant b w t) :
    Bare t (b.place w.results) := by
  intro name
  apply h <;> simp [place_facts, place_results]

/-- Writing to one place in the workspace keeps it laid out. -/
theorem Laid.put {v : View} {w : Workspace} {t : FileTree} (laid : Laid b v w t.node?) {q : Place}
    (below : b.place w.root <+: q) (written : Option Bytes) :
    Laid b v w (Bench.put t q written).node? where
  absolute := laid.absolute
  outside := by
    intro r outside
    have other : r ≠ q := by
      rintro rfl
      exact outside below
    rw [put_other written other, laid.outside r outside]
  root := put_directory written laid.root
  facts := put_directory written laid.facts
  results := put_directory written laid.results

/-- Filling a directory of the workspace keeps it laid out. -/
theorem Laid.fill {v : View} {w : Workspace} {t : FileTree} (laid : Laid b v w t.node?)
    {directory : Place} (below : b.place w.root <+: directory) (files : List (Bytes × Bytes)) :
    Laid b v w (Bench.fill t directory files).node? where
  absolute := laid.absolute
  outside := by
    intro r outside
    have other : ∀ name, r ≠ directory ++ [name] := by
      rintro name rfl
      exact outside (below.trans (List.prefix_append _ _))
    rw [fill_other other, laid.outside r outside]
  root := fill_directory files laid.root
  facts := fill_directory files laid.facts
  results := fill_directory files laid.results

theorem scratch_frames {p : Path} {name : Bytes} (named : p.fileName? = some name) :
    Frames p.name ".scratch" := by
  have clean := slash_notMem_lossy (proper_of_fileName? named).clean
  apply frames
  · simp only [Path.name, named]
    exact fun found => clean (slash_of_mem_utf8 found)
  · decide
  · have : (utf8 ".scratch").length = 8 := by decide
    omega

/-- A new workspace: empty directories in a directory with a new name. -/
theorem create_spec {before : String} (frames : Frames before ".scratch")
    (temporary : View.directory s.tree.node? (b.place b.temporary)) :
    ∃ w u name, exec b.host s (Workspace.create before) = (.ok w, { s with tree := u }) ∧
      b.place w.root = b.place b.temporary ++ [name] ∧
      Drawn s.tree.node? before ".scratch" name ∧ Laid b s.tree.node? w u.node? ∧
      Vacant b w u.node? := by
  obtain ⟨p, name, u, made, -, absolute, place, drawn, view⟩ :=
    run_temporaryDirectory frames temporary
  have within : ∀ q, b.place p <+: q → name ∈ q := by
    intro q below
    exact below.subset (by rw [place]; simp)
  have free : ∀ q, b.place p <+: q → s.tree.node? q = none :=
    fun q below => drawn.fresh.free (within q below)
  let w : Workspace := ⟨p⟩
  have placeFacts : b.place w.facts = b.place p ++ [utf8 "facts"] := place_facts w
  have placeResults : b.place w.results = b.place p ++ [utf8 "results"] := place_results w
  obtain ⟨u₁, madeFacts, view₁⟩ := @createDirectory_ok u (b.place w.facts)
    (by rw [view, View.put_other (by simp [placeFacts]), placeFacts, free _ (List.prefix_append ..)])
    (by rw [placeFacts, List.dropLast_concat, view, View.directory, View.put_self]; rfl)
  obtain ⟨u₂, madeResults, view₂⟩ := @createDirectory_ok u₁ (b.place w.results)
    (by
      rw [view₁, View.put_other (by rw [placeFacts, placeResults]; simp; decide), view,
        View.put_other (by simp [placeResults]), placeResults, free _ (List.prefix_append ..)])
    (by
      rw [placeResults, List.dropLast_concat, view₁, View.directory,
        View.put_other (by simp [placeFacts]), view, View.put_self]
      rfl)
  refine ⟨w, u₂, name, ?_, place, drawn, ?_, ?_⟩
  · unfold Workspace.create
    rw [exec_bind, exec_orFail, made]
    simp only [mapError_ok]
    rw [exec_bind, exec_cleaningUp, exec_bind, exec_orFail, run_createDirectory, madeFacts]
    simp only [Bench.change, mapError_ok]
    rw [exec_orFail, run_createDirectory, madeResults]
    rfl
  · have apart : b.place w.facts ≠ b.place w.results := by
      rw [placeFacts, placeResults]
      simp
      decide
    refine ⟨absolute, ?_, ?_, ?_, ?_⟩
    · intro q outside
      have notFacts : q ≠ b.place w.facts := by
        rintro rfl
        exact outside (placeFacts ▸ List.prefix_append ..)
      have notResults : q ≠ b.place w.results := by
        rintro rfl
        exact outside (placeResults ▸ List.prefix_append ..)
      have notRoot : q ≠ b.place p := by
        rintro rfl
        exact outside (List.prefix_refl _)
      rw [view₂, View.put_other notResults, view₁, View.put_other notFacts, view,
        View.put_other notRoot]
    · show View.directory u₂.node? (b.place p)
      rw [View.directory, view₂, View.put_other (by simp [placeResults]), view₁,
        View.put_other (by simp [placeFacts]), view, View.put_self]
      rfl
    · rw [View.directory, view₂, View.put_other apart, view₁, View.put_self]
      rfl
    · rw [View.directory, view₂, View.put_self]
      rfl
  · intro q below notRoot notFacts notResults
    rw [view₂, View.put_other notResults, view₁, View.put_other notFacts, view,
      View.put_other notRoot]
    exact free q below

/-! ## Assembling -/

theorem exec_convert (tool input output : Path) :
    ∃ r t written, exec b.host s (Compile.convert c tool input output) = (r, t) ∧
      t.tree = put s.tree (b.place output) written ∧
      ((r = .ok () ∧ converted b tool (content s.tree (b.place input)) = written) ∨
        ((∃ e, r = .error e) ∧ converted b tool (content s.tree (b.place input)) = none)) := by
  let command := Command.ofProgram tool |>.path input |>.text "-o" |>.path output
  have call : Call.ofArguments? command.arguments = some (.convert input output) :=
    convert_call tool input output
  have starts : b.canStart command = b.tools.starts tool [] := by
    rw [canStart, call]
    rfl
  have carried : b.carryOut command s.tree =
      (put s.tree (b.place output)
          (b.tools.convert tool (content s.tree (b.place input))).written,
        (b.tools.convert tool (content s.tree (b.place input))).finish) := by
    rw [carryOut, call]
    rfl
  generalize content s.tree (b.place input) = bytes at carried ⊢
  unfold Compile.convert
  rw [exec_bind, exec_runTool, starts, carried]
  unfold converted
  by_cases runs : b.tools.starts tool []
  · simp only [runs, if_true, true_and]
    have state : (after b s command).tree =
        put s.tree (b.place output) (b.tools.convert tool bytes).written :=
      congrArg Prod.fst carried
    cases ended : outcome (b.tools.streams command) (b.tools.convert tool bytes).finish with
    | completed out =>
      refine ⟨_, _, _, rfl, state, .inl ⟨rfl, ?_⟩⟩
      rw [if_pos (outcome_completed ended)]
    | failed out =>
      refine ⟨_, _, _, rfl, state, .inr ⟨⟨_, rfl⟩, if_neg ?_⟩⟩
      intro success
      rw [success, outcome_exited] at ended
      cases ended
    | timedOut =>
      refine ⟨_, _, _, rfl, state, .inr ⟨⟨_, rfl⟩, if_neg ?_⟩⟩
      intro success
      rw [success, outcome_exited] at ended
      cases ended
  · simp only [runs, Bool.false_eq_true, if_false]
    exact ⟨_, _, none, rfl, rfl, .inr ⟨⟨_, rfl⟩, by simp only [false_and, if_false]⟩⟩

theorem ended_proper {name : String} (clean : '/' ∉ name.toList) :
    Proper (utf8 (name ++ ".bc")) := by
  apply proper_of_length
  · simp [clean]
  · have : (utf8 ".bc").length = 3 := by decide
    rw [utf8_append, List.length_append]
    omega

theorem ended_ne {name : String} {other : Bytes} (unended : ¬ utf8 ".bc" <:+ other) :
    utf8 (name ++ ".bc") ≠ other := by
  intro same
  rw [utf8_append] at same
  exact unended ⟨_, same⟩

/-- Assembling finds the bitcode that is judged, and leaves it in the workspace where it has to be
made first. -/
theorem assemble_spec {v : View} {w : Workspace} {p : Path} {kind : Kind} {bytes : Bytes}
    (laid : Laid b v w s.tree.node?) (vacant : Vacant b w s.tree.node?)
    (isKind : Kind.ofPath? p = some kind) (named : endsIdle p = false)
    (there : content s.tree (b.place p) = some bytes) :
    ∃ r t, exec b.host s (Compile.assemble c p w.root) = (r, t) ∧
      Laid b v w t.tree.node? ∧ Bare t.tree.node? (b.place w.facts) ∧
      Bare t.tree.node? (b.place w.results) ∧
      match assembled b c kind bytes with
      | none => ∃ e, r = .error e
      | some bitcode => ∃ q, r = .ok q ∧ content t.tree (b.place q) = some bitcode := by
  unfold Compile.assemble
  rw [isKind]
  cases kind with
  | binaryIr =>
    simp only [pure_bind, assembled]
    rw [exec_bind, exec_monadLift, looksLikeBitcode_run named, there, Option.any_some]
    by_cases magic : isBitcode bytes
    · simp only [magic, Bool.not_true, Bool.false_eq_true, if_false, if_true]
      exact ⟨_, _, rfl, laid, vacant.facts, vacant.results, _, rfl, there⟩
    · simp only [magic, Bool.not_false, Bool.false_eq_true, if_true, if_false]
      exact ⟨_, _, rfl, laid, vacant.facts, vacant.results, _, rfl⟩
  | textIr =>
    let output := w.root / Path.ofString (Plan.stemOf p ++ ".bc")
    have proper : Proper (utf8 (Plan.stemOf p ++ ".bc")) := ended_proper (slash_notMem_stemOf p)
    have place : b.place output = b.place w.root ++ [utf8 (Plan.stemOf p ++ ".bc")] :=
      place_entry b w.root proper
    obtain ⟨r, t, written, ran, tree, result⟩ := @exec_convert b c s c.tools.llvmAs p output
    rw [there] at result
    have vacantAt : s.tree.node? (b.place output) = none := by
      apply vacant
      · simp [place]
      · simp [place]
      · rw [place, place_facts, Ne, List.append_cancel_left_eq, List.singleton_inj]
        exact ended_ne (by decide)
      · rw [place, place_results, Ne, List.append_cancel_left_eq, List.singleton_inj]
        exact ended_ne (by decide)
    have view : content t.tree (b.place output) = written := by
      rw [tree, content_of_node?]
      cases written with
      | none => rw [show put s.tree (b.place output) none = s.tree from rfl, vacantAt]
      | some bytes =>
        rw [put_written (place ▸ View.writable_entry (place ▸ vacantAt) laid.root)]
    have laidAfter : Laid b v w t.tree.node? := tree ▸ laid.put (by simp [place]) written
    have bare (directory : Place) (empty : Bare s.tree.node? directory)
        (other : ∀ name, directory ++ [name] ≠ b.place output) : Bare t.tree.node? directory := by
      intro name
      rw [tree, put_other written (other name), empty name]
    have bareFacts := bare _ vacant.facts (by simp [place, place_facts])
    have bareResults := bare _ vacant.results (by simp [place, place_results])
    simp only [assembled, pure_bind, toString_text]
    rw [exec_bind, exec_orFail, run_createDirectories, createDirectories_of_directory laid.root]
    simp only [Bench.change, mapError_ok]
    rw [exec_bind, ran]
    rcases result with ⟨rfl, result⟩ | ⟨⟨e, rfl⟩, result⟩
    · simp only
      rw [exec_bind, exec_monadLift, looksLikeBitcode_run (endsIdle_entry _ proper), view, result]
      cases written with
      | none => exact ⟨_, _, rfl, laidAfter, bareFacts, bareResults, _, rfl⟩
      | some bitcode =>
        by_cases magic : isBitcode bitcode
        · simp only [Option.any_some, magic, Bool.not_true, Bool.false_eq_true, if_false,
            Option.filter_some, if_true]
          exact ⟨_, _, rfl, laidAfter, bareFacts, bareResults, _, rfl, view⟩
        · simp only [Option.any_some, magic, Bool.not_false, Bool.false_eq_true, if_false,
            Option.filter_some, if_true]
          exact ⟨_, _, rfl, laidAfter, bareFacts, bareResults, _, rfl⟩
    · rw [result]
      exact ⟨_, _, rfl, laidAfter, bareFacts, bareResults, _, rfl⟩
  | cSource => exact ⟨_, _, rfl, laid, vacant.facts, vacant.results, _, rfl⟩
  | cxxSource => exact ⟨_, _, rfl, laid, vacant.facts, vacant.results, _, rfl⟩

/-! ## The stages -/

theorem exec_runStage (command : Command) :
    exec b.host s (Oracle.runStage c command) =
      if b.canStart command then
        (.ok (.ofOutcome (outcome (b.tools.streams command) (b.carryOut command s.tree).2)),
          after b s command)
      else (.error (.run (.spawn command.program.display (.system .noEntry))), s) := by
  unfold Oracle.runStage
  rw [exec_bind, exec_adapt, exec_command]
  cases b.canStart command <;> rfl

theorem canStart_facts (w : Workspace) (q : Path) :
    b.canStart (Oracle.factCommand c w q) =
      b.tools.starts c.tools.factgen [utf8 c.contextSensitivity] := by
  rw [canStart, facts_call]
  rfl

theorem carryOut_facts (w : Workspace) (q : Path) (t : FileTree) :
    b.carryOut (Oracle.factCommand c w q) t =
      let harvest := b.tools.facts c.tools.factgen (utf8 c.contextSensitivity)
        (content t (b.place q))
      (fill t (b.place w.facts) harvest.files, harvest.finish) := by
  rw [carryOut, facts_call]
  rfl

theorem canStart_analysis (w : Workspace) :
    b.canStart (Oracle.analysisCommand c w) =
      b.tools.starts c.analysisTool (analysisOptions c) := by
  obtain ⟨call, program⟩ := analysis_call c w
  rw [canStart, call, program]
  rfl

/-- The analysis reads and fills the directories of the workspace, whatever directory it runs
in. -/
theorem carryOut_analysis {w : Workspace} (absolute : w.root.isAbsolute) (t : FileTree) :
    b.carryOut (Oracle.analysisCommand c w) t =
      let harvest := b.tools.analyse c.analysisTool (analysisOptions c)
        fun name => content t (b.place w.facts ++ [name])
      (fill t (b.place w.results) harvest.files, harvest.finish) := by
  obtain ⟨call, program⟩ := analysis_call c w
  have facts : placeOf (b.base (Oracle.analysisCommand c w)) w.facts = b.place w.facts :=
    placeOf_absolute (isAbsolute_join absolute)
  have results : placeOf (b.base (Oracle.analysisCommand c w)) w.results = b.place w.results :=
    placeOf_absolute (isAbsolute_join absolute)
  rw [carryOut, call]
  simp only [act, facts, results, program]

/-! ## Reading the relations -/

section Relations

variable {results : Bytes → Option Bytes} {directory : Path}

theorem firstMissing_run {relations : List String}
    (found : ∀ relation ∈ relations, s.tree.node? (b.place (directory / Path.ofString relation)) =
      (results (utf8 relation)).map (.file · false)) :
    (Relations.firstMissing directory relations).run b.host s =
      (relations.find? fun relation => !(results (utf8 relation)).isSome, s) := by
  induction relations with
  | nil => rfl
  | cons relation rest ih =>
    rw [List.forall_mem_cons] at found
    unfold Relations.firstMissing
    rw [run_bind, run_isFile, Trees.isFile, found.1, List.find?_cons]
    cases results (utf8 relation) with
    | none => rfl
    | some content => exact ih found.2

/-- What the relations come to: read in their order, up to one that is not empty. -/
theorem firstViolated_spec {relations : List String}
    (proper : ∀ relation ∈ relations, Proper (utf8 relation))
    (found : ∀ relation ∈ relations, s.tree.node? (b.place (directory / Path.ofString relation)) =
      (results (utf8 relation)).map (.file · false)) :
    ∃ r, exec b.host s (Relations.firstViolated directory relations) = (r, s) ∧
      match violated results relations with
      | .verdict verdict => ∃ scan, r = .ok scan ∧ scan.verdict = verdict
      | .crash .. => False
      | .impossible => ∃ e, r = .error e := by
  induction relations with
  | nil => exact ⟨_, rfl, _, rfl, rfl⟩
  | cons relation rest ih =>
    rw [List.forall_mem_cons] at found proper
    unfold Relations.firstViolated violated
    rw [exec_bind, exec_orFail, run_read, readAt_of_endsIdle (endsIdle_entry _ proper.1),
      Trees.read, found.1]
    cases results (utf8 relation) with
    | none => exact ⟨_, rfl, _, rfl⟩
    | some content =>
      simp only [Option.map_some, mapError_ok]
      cases Gzip.firstRead content with
      | error cause => exact ⟨_, rfl, _, rfl⟩
      | ok first =>
        cases first with
        | some byte => exact ⟨_, rfl, _, rfl, rfl⟩
        | none => exact ih proper.2 found.2

theorem scan_spec
    (proper : ∀ relation ∈ c.assertions, Proper (utf8 relation))
    (found : ∀ relation ∈ c.assertions,
      s.tree.node? (b.place (directory / Path.ofString relation)) =
        (results (utf8 relation)).map (.file · false)) :
    ∃ r, exec b.host s (Relations.scan c.assertions directory) = (r, s) ∧
      match scanned c results with
      | .verdict verdict => ∃ scan, r = .ok scan ∧ scan.verdict = verdict
      | .crash .. => False
      | .impossible => ∃ e, r = .error e := by
  unfold Relations.scan scanned
  rw [exec_bind, exec_monadLift, firstMissing_run found]
  cases missing : c.assertions.find? fun relation => !(results (utf8 relation)).isSome with
  | none =>
    have all : c.assertions.all fun relation => (results (utf8 relation)).isSome := by
      simpa [List.find?_eq_none, Option.isSome_iff_ne_none] using missing
    simp only [all, if_true]
    exact firstViolated_spec proper found
  | some relation =>
    have notAll : (c.assertions.all fun relation => (results (utf8 relation)).isSome) = false := by
      rw [List.all_eq_false]
      exact ⟨relation, List.mem_of_find?_eq_some missing, by simpa using List.find?_some missing⟩
    simp only [notAll, Bool.false_eq_true, if_false]
    exact ⟨_, rfl, _, rfl⟩

end Relations

/-! ## Sentinels -/

/-- Where the sentinel of a crash goes. -/
def crashPlace (b : Bench) (p : Path) (stage : Stage) : Place :=
  b.place (p.withExtension stage.sentinelExtension)

/-- The sentinel lies beside the IR, or leads to the directory above where that of the IR is left
without a name. -/
theorem crashPlace_eq {p : Path} {kind : Kind} (isKind : Kind.ofPath? p = some kind)
    (named : endsIdle p = false) (stage : Stage) :
    ∃ parent name, b.place p = parent ++ [name] ∧ p.fileName? = some name ∧
      (crashPlace b p stage = parent.dropLast ∨
        ∃ stem, crashPlace b p stage = parent ++ [stem ++ Path.dot :: utf8 stage.sentinelExtension] ∧
          name ≠ stem ++ Path.dot :: utf8 stage.sentinelExtension) := by
  obtain ⟨stem, extension, programmed⟩ := programmed_of_kind isKind
  have clean : Path.slash ∉ utf8 stage.sentinelExtension := by cases stage <;> decide
  have plain : Path.dot ∉ utf8 stage.sentinelExtension := by cases stage <;> decide
  have unlike : (Text.decode? (utf8 stage.sentinelExtension)).bind Kind.ofExtension? ≠
      some kind := by
    have none : (Text.decode? (utf8 stage.sentinelExtension)).bind Kind.ofExtension? = none := by
      cases stage <;> decide +kernel
    simp [none]
  obtain ⟨parent, place, crash⟩ := placeOf_withExtension b.here programmed named clean
  refine ⟨parent, _, place, programmed.named, ?_⟩
  rw [crashPlace, Bench.place, crash]
  split
  · exact .inl rfl
  · exact .inr ⟨stem, rfl, programmed.ne_ended plain unlike⟩

/-- No name that ends like that of a workspace stands in the place of a sentinel. -/
theorem notMem_crashPlace {v : View} {p : Path} {kind : Kind} {before : String} {name : Bytes}
    (isKind : Kind.ofPath? p = some kind) (named : endsIdle p = false)
    (there : v (b.place p) ≠ none) (drawn : Drawn v before ".scratch" name) (stage : Stage) :
    name ∉ crashPlace b p stage := by
  obtain ⟨parent, last, place, -, crash⟩ := @crashPlace_eq b p kind isKind named stage
  have apart := drawn.fresh _ there
  rw [place, List.mem_append, not_or] at apart
  rcases crash with crash | ⟨stem, crash, -⟩
  · rw [crash]
    exact fun found => apart.1 (List.dropLast_subset _ found)
  · rw [crash, List.mem_append, not_or]
    refine ⟨apart.1, ?_⟩
    rw [List.mem_singleton]
    obtain ⟨middle, -, rfl⟩ := drawn.form
    intro same
    have scratch : utf8 ".scratch" <:+ stem ++ Path.dot :: utf8 stage.sentinelExtension := by
      rw [← same, utf8_append]
      exact List.suffix_append ..
    have extension : utf8 stage.sentinelExtension <:+
        stem ++ Path.dot :: utf8 stage.sentinelExtension :=
      ⟨stem ++ [Path.dot], by simp⟩
    have := List.suffix_or_suffix_of_suffix scratch extension
    revert this
    cases stage <;> decide

/-- What comes of judging at a place: the result, and the view that the files are close to
afterwards. -/
def Concluded (b : Bench) (p : Path) (v : View) (close : View → Prop)
    (r : Except OracleError Classification) : Judged → Prop
  | .verdict verdict => r = .ok verdict ∧ close v
  | .crash stage verdict =>
    if v.writable (crashPlace b p stage) then
      r = .ok verdict ∧ ∃ report, close (v.put (crashPlace b p stage) (some (.file report false)))
    else (∃ e, r = .error e) ∧ close v
  | .impossible => (∃ e, r = .error e) ∧ close v

/-- A view that is close in one way is close in another way, if it holds what was there but for
sentinels. -/
theorem Concluded.imp {p : Path} {v : View} {close near : View → Prop}
    {r : Except OracleError Classification} {judged : Judged} (h : Concluded b p v close r judged)
    (weaker : ∀ u, (∀ q, (∀ stage, q ≠ crashPlace b p stage) → u q = v q) → close u → near u) :
    Concluded b p v near r judged := by
  cases judged with
  | verdict verdict => exact ⟨h.1, weaker _ (fun _ _ => rfl) h.2⟩
  | impossible => exact ⟨h.1, weaker _ (fun _ _ => rfl) h.2⟩
  | crash stage verdict =>
    by_cases writable : v.writable (crashPlace b p stage)
    · simp only [Concluded, writable, if_true] at h ⊢
      obtain ⟨same, report, close⟩ := h
      exact ⟨same, report, weaker _ (fun q other => View.put_other (other stage)) close⟩
    · simp only [Concluded, writable, Bool.false_eq_true, if_false] at h ⊢
      exact ⟨h.1, weaker _ (fun _ _ => rfl) h.2⟩

/-- A crash is recorded where that is possible. -/
theorem reportTrouble_crash {p : Path} {stage : Stage} (tool : Path) (crash timeout : String)
    (output : Output) :
    ∃ r t, exec b.host s (Oracle.reportTrouble p tool stage crash timeout (.crashed output)) =
        (r, t) ∧
      if View.writable s.tree.node? (crashPlace b p stage) then
        r = .ok () ∧ ∃ report, t.tree.node? =
          View.put s.tree.node? (crashPlace b p stage) (some (.file report false))
      else (∃ e, r = .error e) ∧ t = s := by
  unfold Oracle.reportTrouble
  rw [exec_bind, exec_monadLift, run_warn]
  simp only
  rw [exec_bind, exec_monadLift, run_warn]
  unfold Sentinel.write
  simp only
  rw [exec_bind, exec_bind, exec_orFail, run_write]
  let sentinel : Sentinel := ⟨stage, tool, p, output⟩
  by_cases writable : View.writable s.tree.node? (crashPlace b p stage)
  · obtain ⟨u, written, view⟩ := write_ok (utf8 sentinel.toJson.pretty) writable
    rw [show b.place sentinel.path = crashPlace b p stage from rfl, written]
    simp only [writable, if_true]
    exact ⟨_, _, rfl, rfl, _, view⟩
  · have refused := write_error (utf8 sentinel.toJson.pretty) (by simpa using writable)
    rw [show b.place sentinel.path = crashPlace b p stage from rfl, refused]
    simp only [writable, Bool.false_eq_true, if_false]
    exact ⟨_, _, rfl, ⟨_, rfl⟩, rfl⟩

/-! ## The verdict -/

/-- Whether a view is another one outside of a workspace. -/
def Beside (b : Bench) (w : Workspace) (t u : View) : Prop :=
  ∀ q, ¬ b.place w.root <+: q → t q = u q

/-- A crash in a workspace: its sentinel is not there but beside the IR. -/
theorem crash_spec {v : View} {w : Workspace} {p : Path} {stage : Stage}
    (laid : Laid b v w s.tree.node?) (apart : ¬ b.place w.root <+: crashPlace b p stage)
    (tool : Path) (crash timeout : String) (output : Output) (verdict : Classification) :
    ∃ r t, exec b.host s (do
        Oracle.reportTrouble p tool stage crash timeout (.crashed output)
        return verdict) = (r, t) ∧
      View.directory t.tree.node? (b.place w.root) ∧
      Concluded b p v (Beside b w t.tree.node?) r (.crash stage verdict) := by
  obtain ⟨r, t, ran, result⟩ := @reportTrouble_crash b s p stage tool crash timeout output
  have same : View.writable s.tree.node? (crashPlace b p stage) =
      v.writable (crashPlace b p stage) := by
    have parent : ¬ b.place w.root <+: (crashPlace b p stage).dropLast :=
      fun below => apart (below.trans (List.dropLast_prefix _))
    simp only [View.writable, View.directory, laid.outside _ apart, laid.outside _ parent]
  rw [exec_bind, ran]
  rw [same] at result
  by_cases writable : v.writable (crashPlace b p stage)
  · simp only [writable, if_true] at result
    obtain ⟨rfl, report, view⟩ := result
    refine ⟨_, _, rfl, ?_, ?_⟩
    · have other : b.place w.root ≠ crashPlace b p stage :=
        fun same => apart (same ▸ List.prefix_refl _)
      show View.directory t.tree.node? _
      rw [view, View.directory, View.put_other other]
      exact laid.root
    · unfold Concluded
      dsimp only
      rw [if_pos writable]
      refine ⟨rfl, report, fun q outside => ?_⟩
      show t.tree.node? q = _
      rw [view]
      by_cases here : q = crashPlace b p stage
      · rw [here, View.put_self, View.put_self]
      · rw [View.put_other here, View.put_other here, laid.outside q outside]
  · simp only [writable, Bool.false_eq_true, if_false] at result
    obtain ⟨⟨e, rfl⟩, rfl⟩ := result
    refine ⟨_, _, rfl, laid.root, ?_⟩
    unfold Concluded
    dsimp only
    rw [if_neg writable]
    exact ⟨⟨_, rfl⟩, laid.outside⟩

/-- The analysis of facts that lie in a workspace. -/
theorem analysed_spec {v : View} {w : Workspace} {p : Path} {facts : Bytes → Option Bytes}
    (laid : Laid b v w s.tree.node?) (bare : Bare s.tree.node? (b.place w.results))
    (there : ∀ name, content s.tree (b.place w.facts ++ [name]) = facts name)
    (apart : ∀ stage, ¬ b.place w.root <+: crashPlace b p stage)
    (proper : ∀ relation ∈ c.assertions, Proper (utf8 relation)) :
    ∃ r t, exec b.host s (do
        let analysis ← Oracle.runStage c (Oracle.analysisCommand c w)
        match analysis.afterAnalysis with
        | .halt verdict =>
          Oracle.reportTrouble p c.analysisTool .analysis "Analysis crash!!" "Analysis timeout!"
            analysis
          return verdict
        | .next => return (← Relations.scan c.assertions w.results).verdict) = (r, t) ∧
      View.directory t.tree.node? (b.place w.root) ∧
      Concluded b p v (Beside b w t.tree.node?) r (analysed b c facts) := by
  rw [exec_bind, exec_runStage, canStart_analysis, carryOut_analysis laid.absolute]
  simp only [there]
  unfold analysed
  by_cases starts : b.tools.starts c.analysisTool (analysisOptions c)
  · simp only [starts, if_true]
    generalize state : after b s (Oracle.analysisCommand c w) = t
    have tree : t.tree = fill s.tree (b.place w.results)
        (b.tools.analyse c.analysisTool (analysisOptions c) facts).files := by
      rw [← state, after, carryOut_analysis laid.absolute]
      simp only [there]
    generalize b.tools.analyse c.analysisTool (analysisOptions c) facts = harvest at tree ⊢
    have laidAfter : Laid b v w t.tree.node? := tree ▸ laid.fill (by simp [place_results]) _
    cases finish : harvest.finish with
    | hung => exact ⟨_, _, rfl, laidAfter.root, rfl, laidAfter.outside⟩
    | ended status =>
      by_cases success : status.isSuccess
      · simp only [outcome, Command.outcomeOf, success, if_true]
        obtain ⟨r, ran, result⟩ := @scan_spec b c t (harvest.files.lookup ·) w.results proper (by
          intro relation among
          rw [place_entry b _ (proper relation among), tree, fill_node? _ laid.results bare])
        simp only [StageResult.ofOutcome, StageResult.afterAnalysis]
        rw [exec_bind, ran]
        cases verdict : scanned c fun name => harvest.files.lookup name with
        | verdict reached =>
          rw [verdict] at result
          obtain ⟨scan, rfl, rfl⟩ := result
          exact ⟨_, _, rfl, laidAfter.root, rfl, laidAfter.outside⟩
        | crash stage reached =>
          rw [verdict] at result
          exact result.elim
        | impossible =>
          rw [verdict] at result
          obtain ⟨e, rfl⟩ := result
          exact ⟨_, _, rfl, laidAfter.root, ⟨_, rfl⟩, laidAfter.outside⟩
      · simp only [outcome, Command.outcomeOf, success, Bool.false_eq_true, if_false]
        exact crash_spec laidAfter (apart .analysis) ..
  · simp only [starts, Bool.false_eq_true, if_false]
    exact ⟨_, _, rfl, laid.root, ⟨_, rfl⟩, laid.outside⟩

/-- The verdict on IR, from within a workspace. -/
theorem classifyIn_spec {v : View} {w : Workspace} {p : Path} {kind : Kind} {bytes : Bytes}
    (laid : Laid b v w s.tree.node?) (vacant : Vacant b w s.tree.node?)
    (isKind : Kind.ofPath? p = some kind) (named : endsIdle p = false)
    (there : content s.tree (b.place p) = some bytes)
    (apart : ∀ stage, ¬ b.place w.root <+: crashPlace b p stage)
    (proper : ∀ relation ∈ c.assertions, Proper (utf8 relation)) :
    ∃ r t, exec b.host s (Oracle.classifyIn c w p) = (r, t) ∧
      View.directory t.tree.node? (b.place w.root) ∧
      Concluded b p v (Beside b w t.tree.node?) r (judged b c kind bytes) := by
  obtain ⟨r, t, ran, laid, bareFacts, bareResults, result⟩ :=
    @assemble_spec b c s v w p kind bytes laid vacant isKind named there
  unfold Oracle.classifyIn judged
  rw [exec_bind, exec_adapt, ran]
  cases bitcode : assembled b c kind bytes with
  | none =>
    rw [bitcode] at result
    obtain ⟨e, rfl⟩ := result
    exact ⟨_, _, rfl, laid.root, ⟨_, rfl⟩, laid.outside⟩
  | some content =>
    rw [bitcode] at result
    obtain ⟨q, rfl, found⟩ := result
    simp only [mapError_ok]
    rw [exec_bind, exec_runStage, canStart_facts, carryOut_facts, found]
    unfold examined
    by_cases starts : b.tools.starts c.tools.factgen [utf8 c.contextSensitivity]
    · simp only [starts, if_true]
      generalize state : after b t (Oracle.factCommand c w q) = t'
      have tree : t'.tree = fill t.tree (b.place w.facts)
          (b.tools.facts c.tools.factgen (utf8 c.contextSensitivity) (some content)).files := by
        rw [← state, after, carryOut_facts, found]
      generalize b.tools.facts c.tools.factgen (utf8 c.contextSensitivity) (some content) =
        harvest at tree ⊢
      have laidAfter : Laid b v w t'.tree.node? := tree ▸ laid.fill (by simp [place_facts]) _
      cases finish : harvest.finish with
      | hung => exact ⟨_, _, rfl, laidAfter.root, rfl, laidAfter.outside⟩
      | ended status =>
        by_cases success : status.isSuccess
        · simp only [outcome, Command.outcomeOf, success, if_true]
          refine analysed_spec laidAfter ?_ ?_ apart proper
          · intro name
            rw [tree, fill_other (by simp [place_facts, place_results]; decide), bareResults name]
          · intro name
            rw [tree, content_fill _ laid.facts bareFacts]
        · simp only [outcome, Command.outcomeOf, success, Bool.false_eq_true, if_false]
          exact crash_spec laidAfter (apart .factGeneration) ..
    · simp only [starts, Bool.false_eq_true, if_false]
      exact ⟨_, _, rfl, laid.root, ⟨_, rfl⟩, laid.outside⟩

/-- A workspace that is not kept is gone with all that lies in it. -/
theorem discard_node? {w : Workspace} {keep : Bool} (named : b.place w.root ≠ [])
    (root : View.directory s.tree.node? (b.place w.root)) (q : Place) :
    ((w.discard keep).run b.host s).2.tree.node? q =
      if keep = false ∧ b.place w.root <+: q then none else s.tree.node? q := by
  unfold Workspace.discard
  cases keep with
  | true => simp
  | false =>
    obtain ⟨node, there, isDirectory⟩ : ∃ node, s.tree.node? (b.place w.root) = some node ∧
        node.isDirectory := by
      simpa [View.directory, Option.any_eq_true] using root
    have removed : Trees.removeTree s.tree (b.place w.root) =
        .ok (s.tree.prune (b.place w.root)) := by
      simp [Trees.removeTree, there, isDirectory]
    simp only [Bool.false_eq_true, if_false, true_and]
    rw [run_bind, run_removeTree, removed]
    exact node?_prune named

/-- Whether a view differs from another one at most below a temporary directory with a new name, and
only where that is kept. -/
def Scratched (b : Bench) (keep : Bool) (v u t : View) : Prop :=
  ∃ before name, Drawn v before ".scratch" name ∧
    ∀ q, t q ≠ u q → keep ∧ b.place b.temporary ++ [name] <+: q

theorem mem_of_below {directory q : Place} {name : Bytes} (below : directory ++ [name] <+: q) :
    name ∈ q := below.subset (by simp)

/-- The verdict on IR follows from its bytes. But for the sentinel of a crash, judging leaves the
files as they were; when debugging, it leaves the workspace behind. -/
theorem classify_spec {p : Path} {kind : Kind} {bytes : Bytes}
    (isKind : Kind.ofPath? p = some kind) (named : endsIdle p = false)
    (there : content s.tree (b.place p) = some bytes)
    (temporary : View.directory s.tree.node? (b.place b.temporary))
    (proper : ∀ relation ∈ c.assertions, Proper (utf8 relation)) :
    ∃ r t, exec b.host s (Oracle.classify c p) = (r, t) ∧
      Concluded b p s.tree.node? (fun u => Scratched b c.debug s.tree.node? u t.tree.node?) r
        (judged b c kind bytes) := by
  obtain ⟨parent, last, -, hasName, -⟩ := @crashPlace_eq b p kind isKind named .analysis
  obtain ⟨w, u, name, made, place, drawn, laid, vacant⟩ :=
    @create_spec b s p.name (scratch_frames hasName) temporary
  have thereNode : s.tree.node? (b.place p) ≠ none := by
    intro none
    rw [content_of_node?, none] at there
    cases there
  have within : ∀ q, b.place w.root <+: q → name ∈ q := fun q below => mem_of_below (place ▸ below)
  have apart : ∀ stage, ¬ b.place w.root <+: crashPlace b p stage :=
    fun stage below => notMem_crashPlace isKind named thereNode drawn stage (within _ below)
  have thereAfter : content u (b.place p) = some bytes := by
    rw [content_of_node?, laid.outside _ fun below => drawn.fresh _ thereNode (within _ below),
      ← content_of_node?]
    exact there
  obtain ⟨r, t, ran, root, concluded⟩ :=
    @classifyIn_spec b c { s with tree := u } s.tree.node? w p kind bytes laid vacant isKind named
      thereAfter apart proper
  unfold Oracle.classify
  rw [exec_bind, exec_adapt, made]
  simp only [mapError_ok]
  rw [exec_cleaningUp, ran]
  refine ⟨_, _, rfl, concluded.imp fun u like close => ⟨p.name, name, drawn, fun q differs => ?_⟩⟩
  simp only [discard_node? (show b.place w.root ≠ [] by simp [place]) root] at differs
  by_cases below : b.place w.root <+: q
  · refine ⟨?_, place ▸ below⟩
    -- Without debugging all below the workspace is gone again, as nothing was there before.
    cases keep : c.debug with
    | true => rfl
    | false =>
      refine absurd ?_ differs
      rw [keep, if_pos ⟨rfl, below⟩, like q fun stage same => apart stage (same ▸ below)]
      exact (drawn.fresh.free (within q below)).symm
  · rw [if_neg fun h => below h.2] at differs
    exact absurd (close q below) differs

/-- Without a place for workspaces there is no verdict, and nothing changes. -/
theorem classify_without_temporary {p : Path} {name : Bytes} (hasName : p.fileName? = some name)
    (missing : View.directory s.tree.node? (b.place b.temporary) = false) :
    ∃ e, exec b.host s (Oracle.classify c p) = (.error e, s) := by
  obtain ⟨cause, failed⟩ := run_temporaryDirectory_error (scratch_frames hasName) missing
  refine ⟨.workspace cause, ?_⟩
  unfold Oracle.classify Workspace.create
  rw [exec_bind, exec_adapt, exec_bind, exec_orFail, failed]
  rfl

end BugHunt.Proofs.Judging
