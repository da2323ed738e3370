import BugHunt.Proofs.Tallying
import BugHunt.Proofs.TwinTools
/-!
The stages of a check in twin programs: compiling, assembling and judging come to the same, and what
is only of passing use is gone again in both states.
-/

namespace BugHunt.Proofs.TwinStages
open Trees Texts Names Places Runs Bench Outcomes Building Judging Caching Tallying Mirroring Twins
open TwinTools

variable {b : Bench} {c : Config} {k : Claims} {f g : Notes} {a : Artifact}

/-- Errors of compiling that are no interrupts. -/
def Unbroken (e e' : CompileError) : Prop := e.isInterrupt = false ∧ e'.isInterrupt = false

/-! ## Compiling -/

theorem twin_looksLikeBitcode {p q : Path} (shown : Shown b k g p q) :
    Twin b k (At g Eq) (Compile.looksLikeBitcode p) (Compile.looksLikeBitcode q) g := by
  unfold Compile.looksLikeBitcode
  refine (twin_read shown).bind ?_
  rintro _ result _ ⟨rfl, rfl⟩
  cases result with
  | ok content => exact .done ⟨rfl, rfl⟩
  | error cause => exact .done ⟨rfl, rfl⟩

theorem paired_runTool {m n : Command} (acts : Acts b k g m n) (idle : g.waiting = none) :
    Paired b k (At g Kin) (At g Unbroken) (Compile.runTool c m) (Compile.runTool c n) g :=
  (paired_command acts idle _ _).adapt fun _ _ _ ⟨same, calm⟩ => ⟨same, calm⟩

/-- The plan is made from the bytes that the program had from the start. -/
theorem paired_plan (source : b.place a.path = k.source) (outDir : Path) (flags : List String) :
    Paired b k (At g fun p q => q = p ∧ ∃ bytes executable, k.origin = some (.file bytes executable) ∧
        p = Plan.ofContent c.extraArgs outDir a flags bytes)
      (At g Any) (Compile.plan c outDir a flags) (Compile.plan c outDir a flags) g := by
  have shown : Shown b k g a.path a.path := ⟨by rw [source]; exact .source, rfl⟩
  have read : Twin b k (At g fun x y => y = x ∧ ∀ bytes, x = .ok bytes →
      ∃ executable, k.origin = some (.file bytes executable)) (Program.read a.path)
      (Program.read a.path) g := by
    refine .look ⟨.file (.read a.path), id, rfl⟩ ⟨.file (.read a.path), id, rfl⟩ (fun _ => rfl)
      (fun _ => rfl) fun s t mirror => ⟨mirror.readAt shown, fun bytes isRead => ?_⟩
    obtain ⟨-, there⟩ := readAt_ok isRead
    obtain ⟨executable, isFile⟩ := content_eq_some.mp there
    rw [source, mirror.alike.origin] at isFile
    exact ⟨executable, isFile⟩
  have text : Paired b k
      (At g fun x y => y = x ∧ ∃ executable, k.origin = some (.file x executable)) (At g Any)
      (Action.orFail (Program.read a.path) (CompileError.files a.path))
      (Action.orFail (Program.read a.path) (CompileError.files a.path)) g := by
    refine .orFail (F := At g Any) (read.imp ?_) fun _ _ _ any => any
    rintro _ _ result ⟨rfl, rfl, text⟩
    cases result with
    | ok bytes => exact ⟨rfl, rfl, text bytes rfl⟩
    | error cause => exact ⟨rfl, trivial⟩
  unfold Compile.plan
  refine text.then ?_ fun _ _ any => ⟨rfl, any⟩
  rintro bytes _ ⟨rfl, executable, origin⟩
  exact .pure ⟨rfl, rfl, _, executable, origin, rfl⟩

/-- Compiling gives the IR its name, or leaves the temporary file to be removed. -/
theorem paired_intoStaging (orderly : Orderly b k) (idle : g.waiting = none)
    (source : b.place a.path = k.source) {p : Plan} (claimed : b.place p.irPath ∈ k.files)
    {x : Scratch} (known : g.scratch = some x) {staging staging' : Path}
    (mine : b.place staging = x.root) (twin : b.place staging' = x.other)
    (named : endsIdle staging = endsIdle staging') :
    Paired b k (fun f done done' => done' = done ∧
        f = if done then { g with scratch := none } else g) (At g Unbroken)
      (Compile.intoStaging c a p staging) (Compile.intoStaging c a p staging') g := by
  have spot : Spot k g (b.place staging) (b.place staging') := by
    rw [mine, twin, ← List.append_nil x.root, ← List.append_nil x.other]
    exact .scratch known []
  unfold Compile.intoStaging
  refine .then (paired_runTool (acts_compile orderly source p.flags spot) idle)
    (fun outcome outcome' kin => ?_) fun _ _ unbroken => ⟨rfl, unbroken⟩
  cases kin with
  | completed _ _ =>
    refine .then (E := Unbroken) (.lift (twin_looksLikeBitcode ⟨spot.seen, named⟩)) ?_
      fun _ _ unbroken => ⟨rfl, unbroken⟩
    rintro magic _ rfl
    dsimp only
    split
    · exact .throw ⟨rfl, rfl, rfl⟩
    · refine .bind (E := At g Unbroken) (.orFail (twin_rename orderly known mine twin claimed) ?_) ?_
        fun _ _ _ same => same
      · rintro f cause cause' ⟨rfl, -⟩
        exact ⟨rfl, rfl, rfl⟩
      · rintro _ _ _ ⟨rfl, -⟩
        exact .pure ⟨rfl, rfl⟩
  | failed _ _ => exact .pure ⟨rfl, rfl⟩
  | timedOut => exact .pure ⟨rfl, rfl⟩

theorem forget_scratch (free : g.scratch = none) (x : Scratch) :
    { { g with scratch := some x } with scratch := none } = g := by
  cases g
  simp_all

/-- IR is made in both states or in neither. -/
theorem paired_build (orderly : Orderly b k) (idle : g.waiting = none) (free : g.scratch = none)
    (source : b.place a.path = k.source) {outDir : Path} (level : b.place outDir ∈ k.floors)
    {flags : List String} {bytes : Bytes} {p : Plan}
    (isPlan : p = Plan.ofContent c.extraArgs outDir a flags bytes)
    (claimed : a.isSource → b.place p.irPath ∈ k.files) :
    Paired b k (At g fun v v' => v' = v ∧ v.toPlan = p) (At g Any) (Compile.build c outDir a p)
      (Compile.build c outDir a p) g := by
  unfold Compile.build
  by_cases isSource : a.isSource
  · simp only [isSource, Bool.not_true, Bool.false_eq_true, if_false]
    refine .then (E := Any) (.lift (twin_exists (.file (claimed isSource)))) ?_ fun _ _ any => ⟨rfl, any⟩
    rintro there _ rfl
    split
    · exact .pure ⟨rfl, rfl, rfl⟩
    · refine .then (A := Any) (E := Any) (.orFail (F := At g Any)
        (twin_createDirectories fun v w alike => alike.floors _ level) fun _ _ _ any => any) ?_
        fun _ _ any => ⟨rfl, any⟩
      intro _ _ _
      refine .bind (E := At g Any) (.orFail (F := At g Any) (twin_temporaryFile orderly
        (isPlan ▸ staging_frames c.extraArgs outDir a flags bytes) (.staging p.key) level) fun _ _ _ any => any) ?_
        fun _ _ _ any => any
      rintro _ staging staging' ⟨x, rfl, mine, twin, named, namedToo⟩
      have discard (result result' : Except CompileError Bool)
          (both : result ≠ .ok true ∧ result' ≠ .ok true) :
          Twin b k (At g Any) (Compile.discardStaging staging result)
            (Compile.discardStaging staging' result') { g with scratch := some x } := by
        have gone := twin_discard orderly (g := { g with scratch := some x }) rfl mine twin
        rw [forget_scratch free] at gone
        unfold Compile.discardStaging
        split
        · exact absurd rfl both.1
        · split
          · exact absurd rfl both.2
          · exact gone.bind fun _ _ _ same => .done same
      refine .bind (A := At g Eq) (E := At g Any) (.cleaningUp (paired_intoStaging orderly idle source
        (claimed isSource) (g := { g with scratch := some x }) rfl mine twin (named.trans namedToo.symm))
        ?_) ?_ fun _ _ _ any => any
      · rintro f result result' related
        match result, result' with
        | .ok true, .ok done =>
          obtain ⟨rfl, rfl⟩ := related
          exact .done ⟨forget_scratch free x, rfl⟩
        | .ok false, .ok done =>
          obtain ⟨rfl, rfl⟩ := related
          exact (discard _ _ ⟨by simp, by simp⟩).imp fun f _ _ same => ⟨same.1, rfl⟩
        | .error e, .error e' =>
          obtain ⟨rfl, -⟩ := related
          exact (discard _ _ ⟨by simp, by simp⟩).imp fun f _ _ same => ⟨same.1, trivial⟩
        | .ok done, .error e => exact related.elim
        | .error e, .ok done => exact related.elim
      · rintro _ done _ ⟨rfl, rfl⟩
        exact .pure ⟨rfl, rfl, rfl⟩
  · simp only [isSource, Bool.not_false, if_true]
    exact .pure ⟨rfl, rfl, rfl⟩

/-! ## Assembling -/

theorem paired_convert (orderly : Orderly b k) (idle : g.waiting = none) (tool : Path)
    {input input' output output' : Path} (seen : Seen k g (b.place input) (b.place input'))
    (spot : Spot k g (b.place output) (b.place output')) :
    Paired b k (At g Any) (At g Unbroken) (Compile.convert c tool input output)
      (Compile.convert c tool input' output') g := by
  unfold Compile.convert
  refine .then (paired_runTool (acts_convert orderly tool seen spot) idle)
    (fun outcome outcome' kin => ?_) fun _ _ unbroken => ⟨rfl, unbroken⟩
  cases kin with
  | completed _ _ => exact .pure ⟨rfl, trivial⟩
  | failed _ _ => exact .throw ⟨rfl, rfl, rfl⟩
  | timedOut => exact .throw ⟨rfl, rfl, rfl⟩

/-- The bitcode of a program is found in both states or in neither. -/
theorem paired_assemble (orderly : Orderly b k) (idle : g.waiting = none) {p : Path}
    (shown : Shown b k g p p) {outDir outDir' : Path}
    (there : ∀ v w, Alike b k g v w → v.directory (b.place outDir) ∧ w.directory (b.place outDir'))
    (spot : Spot k g (b.place (outDir / Path.ofString (Plan.stemOf p ++ ".bc")))
      (b.place (outDir' / Path.ofString (Plan.stemOf p ++ ".bc")))) :
    Paired b k (At g (Shown b k g)) (At g Unbroken) (Compile.assemble c p outDir)
      (Compile.assemble c p outDir') g := by
  have tail {output output' : Path} (shown : Shown b k g output output') :
      Paired b k (At g (Shown b k g)) (At g Unbroken)
        (do
          if !(← Compile.looksLikeBitcode output) then
            throw (.notBitcode c.tools.llvmAs.display output)
          return output : Compiling Path)
        (do
          if !(← Compile.looksLikeBitcode output') then
            throw (.notBitcode c.tools.llvmAs.display output')
          return output' : Compiling Path) g := by
    refine .then (E := Unbroken) (.lift (twin_looksLikeBitcode shown)) ?_ fun _ _ unbroken => ⟨rfl, unbroken⟩
    rintro magic _ rfl
    split
    · exact .throw ⟨rfl, rfl, rfl⟩
    · exact .pure ⟨rfl, shown⟩
  have proper := ended_proper (slash_notMem_stemOf p)
  unfold Compile.assemble
  dsimp only
  split
  · exact tail shown
  · refine .then (A := Any) (E := Unbroken) (.orFail (F := At g Any) (twin_createDirectories there)
      fun _ _ _ same => ⟨same.1, rfl, rfl⟩) ?_ fun _ _ unbroken => ⟨rfl, unbroken⟩
    intro _ _ _
    refine .then (paired_convert orderly idle _ shown.seen spot) (fun _ _ _ => ?_)
      fun _ _ unbroken => ⟨rfl, unbroken⟩
    exact tail ⟨spot.seen, (endsIdle_entry outDir proper).trans (endsIdle_entry outDir' proper).symm⟩
  · exact .throw ⟨rfl, rfl, rfl⟩

/-! ## Judging -/

/-- Two ends of a stage of the same kind. -/
inductive Akin : StageResult → StageResult → Prop
  | succeeded : Akin .succeeded .succeeded
  | crashed (out out' : Output) : Akin (.crashed out) (.crashed out')
  | timedOut : Akin .timedOut .timedOut

theorem paired_runStage {m n : Command} (acts : Acts b k g m n) (idle : g.waiting = none) :
    Paired b k (At g Akin) (At g Any) (Oracle.runStage c m) (Oracle.runStage c n) g := by
  unfold Oracle.runStage
  refine .then (E := Any) ((paired_command acts idle _ _).adapt fun _ _ _ same => ⟨same.1, trivial⟩)
    (fun outcome outcome' kin => .pure ⟨rfl, ?_⟩) fun _ _ any => ⟨rfl, any⟩
  cases kin with
  | completed _ _ => exact .succeeded
  | failed _ _ => exact .crashed ..
  | timedOut => exact .timedOut

/-- What is only written may differ. -/
theorem twin_mark (orderly : Orderly b k) {p : Path} (mark : b.place p ∈ k.marks) (x y : Bytes) :
    Twin b k (Match (At g Any) (At g Any)) (Program.write p x) (Program.write p y) g := by
  refine .once ⟨.file (.write p x), id, rfl⟩ ⟨.file (.write p y), id, rfl⟩ fun s t _ _ mirror => ?_
  have same := mirror.alike.writable_mark orderly mark
  rw [run_write, run_write]
  by_cases free : View.writable s.tree.node? (b.place p)
  · obtain ⟨m, written, view⟩ := write_ok x free
    obtain ⟨n, writtenToo, viewToo⟩ := write_ok y (same.trans free)
    rw [written, writtenToo]
    have directories (q : Place) : View.directory n.node? q = View.directory t.tree.node? q := by
      rw [viewToo, View.directory_put (View.writable_iff.mp (same.trans free)).1 rfl]
    refine ⟨g, Mirror.of_alike mirror ?_, ⟨fun q differs => ?_, fun q there => .inl ?_,
      List.prefix_refl _, fun x known => .inl known⟩, rfl, trivial⟩
    · rw [view, viewToo]
      exact mirror.alike.mark orderly mark (View.writable_iff.mp free).1 rfl rfl
    · by_cases here : q = b.place p
      · exact .mark (here ▸ mark) (directories q)
      · exact absurd ((write_change writtenToo).elsewhere q here) differs
    · exact (directories q).trans there
  · rw [write_error x (by simpa using free), write_error y (by simpa [same] using free)]
    exact ⟨g, mirror, .still rfl (List.prefix_refl _) rfl, rfl, trivial⟩

theorem paired_reportTrouble (orderly : Orderly b k) {p : Path} {stage : Stage}
    (mark : crashPlace b p stage ∈ k.marks) (tool : Path) (crash timeout : String)
    {result result' : StageResult} (akin : Akin result result') :
    Paired b k (At g Any) (At g Any) (Oracle.reportTrouble p tool stage crash timeout result)
      (Oracle.reportTrouble p tool stage crash timeout result') g := by
  have warn (message message' : String) : Paired b k (At g Any) (At g Any)
      (monadLift (Program.warn message) : Judging Unit) (monadLift (Program.warn message') : Judging Unit) g :=
    .lift (twin_log _ _ _ _)
  cases akin with
  | crashed _ _ =>
    refine .then (warn _ _) (fun _ _ _ => ?_) fun _ _ any => ⟨rfl, any⟩
    refine .then (warn _ _) (fun _ _ _ => ?_) fun _ _ any => ⟨rfl, any⟩
    refine .then (A := Any) (E := Any) ?_ (fun _ _ _ => .pure ⟨rfl, trivial⟩) fun _ _ any => ⟨rfl, any⟩
    refine .then (A := Any) (E := Any) (.orFail (F := At g Any) (twin_mark orderly mark _ _)
      fun _ _ _ any => any) (fun _ _ _ => .pure ⟨rfl, trivial⟩) fun _ _ any => ⟨rfl, any⟩
  | succeeded => exact warn _ _
  | timedOut => exact warn _ _

/-- A workspace of a check and its mirror image. -/
structure Worked (b : Bench) (g : Notes) (x : Scratch) (w w' : Workspace) : Prop where
  known : g.scratch = some x
  folder : x.folder = true
  mine : b.place w.root = x.root
  twin : b.place w'.root = x.other
  absolute : w.root.isAbsolute
  absoluteToo : w'.root.isAbsolute

variable {x : Scratch} {w w' : Workspace}

theorem Worked.relation (worked : Worked b g x w w') {relation : String} (proper : Proper (utf8 relation)) :
    Shown b k g (w.results / Path.ofString relation) (w'.results / Path.ofString relation) where
  seen := by
    rw [place_entry b _ proper, place_entry b _ proper, place_results, place_results, worked.mine,
      worked.twin, List.append_assoc, List.append_assoc]
    exact .scratch worked.known _
  idle := (endsIdle_entry _ proper).trans (endsIdle_entry _ proper).symm

theorem twin_firstMissing (worked : Worked b g x w w') {relations : List String}
    (proper : ∀ relation ∈ relations, Proper (utf8 relation)) :
    Twin b k (At g Eq) (Relations.firstMissing w.results relations)
      (Relations.firstMissing w'.results relations) g := by
  induction relations with
  | nil => exact .done ⟨rfl, rfl⟩
  | cons relation rest ih =>
    unfold Relations.firstMissing
    refine Twin.bind (twin_isFile (worked.relation (proper relation (by simp))).seen) ?_
    rintro _ isFile _ ⟨rfl, rfl⟩
    split
    · exact ih fun relation among => proper relation (List.mem_cons_of_mem _ among)
    · exact .done ⟨rfl, rfl⟩

theorem paired_firstViolated (worked : Worked b g x w w') {relations : List String}
    (proper : ∀ relation ∈ relations, Proper (utf8 relation)) :
    Paired b k (At g Eq) (At g Any) (Relations.firstViolated w.results relations)
      (Relations.firstViolated w'.results relations) g := by
  induction relations with
  | nil => exact .pure ⟨rfl, rfl⟩
  | cons relation rest ih =>
    unfold Relations.firstViolated
    refine .then (E := Any) (.ask (twin_read (worked.relation (proper relation (by simp)))) fun _ => trivial)
      ?_ fun _ _ any => ⟨rfl, any⟩
    rintro content _ rfl
    split
    · exact .throw ⟨rfl, trivial⟩
    · exact .pure ⟨rfl, rfl⟩
    · exact ih fun relation among => proper relation (List.mem_cons_of_mem _ among)

theorem paired_scan (worked : Worked b g x w w') {relations : List String}
    (proper : ∀ relation ∈ relations, Proper (utf8 relation)) :
    Paired b k (At g Eq) (At g Any) (Relations.scan relations w.results)
      (Relations.scan relations w'.results) g := by
  unfold Relations.scan
  refine .then (E := Any) (.lift (twin_firstMissing worked proper)) ?_ fun _ _ any => ⟨rfl, any⟩
  rintro missing _ rfl
  split
  · exact .throw ⟨rfl, trivial⟩
  · exact paired_firstViolated worked proper

/-- A judgement within a workspace. -/
theorem paired_classifyIn (orderly : Orderly b k) (idle : g.waiting = none)
    (worked : Worked b g x w w') {p : Path} (shown : Shown b k g p p)
    (marks : ∀ stage, crashPlace b p stage ∈ k.marks)
    (proper : ∀ relation ∈ c.assertions, Proper (utf8 relation)) :
    Paired b k (At g Eq) (At g Any) (Oracle.classifyIn c w p) (Oracle.classifyIn c w' p) g := by
  have there (v v' : View) (alike : Alike b k g v v') :
      v.directory (b.place w.root) ∧ v'.directory (b.place w'.root) := by
    have reflected := alike.scratch x worked.known
    have mine := reflected.folder worked.folder
    rw [worked.mine, worked.twin]
    refine ⟨mine, ?_⟩
    simpa [alike.directory (Seen.scratch worked.known [])] using
      (alike.directory (Seen.scratch worked.known [])).trans (by simpa using mine)
  have entry := ended_proper (slash_notMem_stemOf p)
  have spot : Spot k g (b.place (w.root / Path.ofString (Plan.stemOf p ++ ".bc")))
      (b.place (w'.root / Path.ofString (Plan.stemOf p ++ ".bc"))) := by
    rw [place_entry b _ entry, place_entry b _ entry, worked.mine, worked.twin]
    exact .scratch worked.known _
  unfold Oracle.classifyIn
  refine .then (E := Any) ((paired_assemble orderly idle shown there spot).adapt
    fun _ _ _ same => ⟨same.1, trivial⟩) (fun bitcode bitcode' found => ?_) fun _ _ any => ⟨rfl, any⟩
  refine .then (paired_runStage (acts_facts orderly worked.known worked.mine worked.twin found.seen) idle)
    (fun facts facts' akin => ?_) fun _ _ any => ⟨rfl, any⟩
  have report (stage : Stage) (tool : Path) (crash timeout : String) (verdict : Classification)
      {result result' : StageResult} (akin : Akin result result') :
      Paired b k (At g Eq) (At g Any)
        (do
          Oracle.reportTrouble p tool stage crash timeout result
          return verdict)
        (do
          Oracle.reportTrouble p tool stage crash timeout result'
          return verdict) g :=
    .then (paired_reportTrouble orderly (marks stage) tool crash timeout akin)
      (fun _ _ _ => .pure ⟨rfl, rfl⟩) fun _ _ any => ⟨rfl, any⟩
  cases akin with
  | crashed _ _ => exact report .factGeneration _ _ _ _ (.crashed ..)
  | timedOut => exact report .factGeneration _ _ _ _ .timedOut
  | succeeded =>
    refine .then (paired_runStage (acts_analysis orderly worked.known worked.mine worked.twin
      worked.absolute worked.absoluteToo) idle) (fun analysis analysis' akin => ?_) fun _ _ any => ⟨rfl, any⟩
    cases akin with
    | crashed _ _ => exact report .analysis _ _ _ _ (.crashed ..)
    | timedOut => exact report .analysis _ _ _ _ .timedOut
    | succeeded =>
      refine .then (paired_scan worked proper) ?_ fun _ _ any => ⟨rfl, any⟩
      rintro scan _ rfl
      exact .pure ⟨rfl, rfl⟩

theorem twin_discardWorkspace (orderly : Orderly b k) (worked : Worked b g x w w') (keep : Bool) :
    Twin b k (At { g with scratch := none } Any) (w.discard keep) (w'.discard keep) g := by
  unfold Workspace.discard
  cases keep with
  | true =>
    exact (Twin.done (g := { g with scratch := none }) ⟨rfl, trivial⟩).knowing
      ⟨fun _ known => (by cases known), fun known => known, fun _ known => known⟩
  | false =>
    exact (twin_removeTree orderly worked.known worked.mine worked.twin).bind
      fun _ _ _ same => .done same

/-- A workspace is made in both states or in neither. -/
theorem paired_create (orderly : Orderly b k) (free : g.scratch = none)
    (level : b.place b.temporary ∈ k.floors) {name : String} (frames : Frames name ".scratch") :
    Paired b k (fun f w w' => ∃ x, f = { g with scratch := some x } ∧ Worked b f x w w') (At g Any)
      (Workspace.create name) (Workspace.create name) g := by
  unfold Workspace.create
  refine .bind (E := At g Any) (.orFail (F := At g Any)
    (twin_temporaryDirectory orderly frames (.workspace name) level)
    fun _ _ _ any => any) ?_ fun _ _ _ any => any
  rintro _ root root' ⟨x, folder, ⟨rfl, mine, twin, -, -⟩, absolute, absoluteToo⟩
  have worked : Worked b { g with scratch := some x } x ⟨root⟩ ⟨root'⟩ :=
    ⟨rfl, folder, mine, twin, absolute, absoluteToo⟩
  have make (entry : String) (proper : Proper (utf8 entry)) :
      Paired b k (At { g with scratch := some x } Eq) (At { g with scratch := some x } Any)
        (Action.orFail (Program.createDirectory (root / Path.ofString entry)) id : Action Failure Unit)
        (Action.orFail (Program.createDirectory (root' / Path.ofString entry)) id : Action Failure Unit)
        { g with scratch := some x } :=
    .ask (twin_createDirectory orderly rfl (by rw [place_entry b root proper, mine])
      (by rw [place_entry b root' proper, twin])) fun _ => trivial
  refine .bind (A := At { g with scratch := some x } Any) (E := At g Any) (.cleaningUp
    (A := At { g with scratch := some x } Eq) (E := At { g with scratch := some x } Any)
    (.then (make "facts" ⟨by decide, by decide, by decide, by decide⟩)
      (fun _ _ _ => make "results" ⟨by decide, by decide, by decide, by decide⟩)
      fun _ _ any => ⟨rfl, any⟩) ?_) ?_ fun _ _ _ any => any
  · rintro f result result' related
    match result, result' with
    | .ok (), .ok () => exact .done ⟨related.1, trivial⟩
    | .error e, .error e' =>
      obtain ⟨rfl, -⟩ := related
      have gone := twin_discardWorkspace (k := k) orderly worked false
      rw [forget_scratch free] at gone
      exact gone.imp fun _ _ _ same => same
    | .ok (), .error e => exact related.elim
    | .error e, .ok () => exact related.elim
  · rintro _ _ _ ⟨rfl, -⟩
    exact .pure ⟨x, rfl, worked⟩

/-- The verdict on IR is the same in both states, or is reached in neither. -/
theorem paired_classify (orderly : Orderly b k) (idle : g.waiting = none) (free : g.scratch = none)
    (level : b.place b.temporary ∈ k.floors) {p : Path} {name : Bytes} (hasName : p.fileName? = some name)
    (shown : ∀ f, Shown b k f p p) (marks : ∀ stage, crashPlace b p stage ∈ k.marks)
    (proper : ∀ relation ∈ c.assertions, Proper (utf8 relation)) :
    Paired b k (At g Eq) (At g Any) (Oracle.classify c p) (Oracle.classify c p) g := by
  unfold Oracle.classify
  refine .bind (E := At g Any) ((paired_create orderly free level (scratch_frames hasName)).adapt
    fun _ _ _ any => any) ?_ fun _ _ _ any => any
  rintro _ w w' ⟨x, rfl, worked⟩
  refine .cleaningUp (paired_classifyIn (g := { g with scratch := some x }) orderly idle worked
    (shown _) marks proper) ?_
  rintro f result result' related
  have gone (keep : Bool) := twin_discardWorkspace (k := k) orderly worked keep
  rw [forget_scratch free] at gone
  match result, result' with
  | .ok verdict, .ok verdict' =>
    obtain ⟨rfl, same⟩ := related
    exact (gone c.debug).imp fun _ _ _ after => ⟨after.1, same⟩
  | .error e, .error e' =>
    obtain ⟨rfl, -⟩ := related
    exact (gone c.debug).imp fun _ _ _ after => ⟨after.1, trivial⟩
  | .ok verdict, .error e => exact related.elim
  | .error e, .ok verdict => exact related.elim

end BugHunt.Proofs.TwinStages
