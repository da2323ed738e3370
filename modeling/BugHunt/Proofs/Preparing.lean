import BugHunt.Pipeline.Classify
import BugHunt.Proofs.Tallying
/-!
Test-only runs on a bench: every variant is compiled into a directory of its own kind first, then
they are judged one after another.
-/

namespace BugHunt.Proofs.Preparing
open Trees Texts Names Places Runs Bench Growth Outcomes Building Judging Caching Keeping Tallying

variable {b : Bench} {c : Config} {s : State} {told : String → Option Classification}
  {a : Artifact}

/-! ## Variants that can be judged -/

/-- Whether the sentinel can be written, should judging crash. -/
def Reportable (b : Bench) (v : View) (p : Path) (outcome : Judged) : Prop :=
  ∀ stage verdict, outcome = .crash stage verdict → v.writable (crashPlace b p stage)

/-- Whether IR lies at a path that comes to a verdict. -/
def Judgeable (b : Bench) (c : Config) (v : View) (p : Path) (verdict : Classification) : Prop :=
  ∃ kind bytes executable, Kind.ofPath? p = some kind ∧ endsIdle p = false ∧
    v (b.place p) = some (.file bytes executable) ∧
    verdict? (judged b c kind bytes) = some verdict ∧ Reportable b v p (judged b c kind bytes)

/-- What judging changes: sentinels that can be written, and places below a new directory. -/
structure Judges (b : Bench) (p : Path) (v t : View) (name : Bytes) : Prop where
  drawn : ∃ before, Drawn v before ".scratch" name
  elsewhere : ∀ q, name ∉ q → t q = v q ∨ ∃ stage report, q = crashPlace b p stage ∧
    v.writable q ∧ t q = some (.file report false)

theorem Judges.fresh {p : Path} {v t : View} {name : Bytes} (h : Judges b p v t name) {q : Place}
    (there : v q ≠ none) : name ∉ q := by
  obtain ⟨before, drawn⟩ := h.drawn
  exact drawn.fresh q there

/-- Directories stay directories, and what is none becomes none. -/
theorem Judges.directory {p : Path} {v t : View} {name : Bytes} (h : Judges b p v t name)
    {q : Place} (outside : name ∉ q) : t.directory q = v.directory q := by
  rcases h.elsewhere q outside with same | ⟨stage, report, -, writable, now⟩
  · exact directory_congr same
  · rw [(View.writable_iff.mp writable).1, View.directory, now]
    rfl

theorem Judges.steady {p : Path} {v t : View} {name : Bytes} (h : Judges b p v t name) {q : Place}
    (there : v.directory q) : t.directory q := by
  rw [h.directory]
  · exact there
  · apply h.fresh
    intro none
    simp [View.directory, none] at there

/-- Programs are no sentinels. -/
theorem place_ne_crashPlace {v : View} (grown : Grown v) {p other : Path} {kind another : Kind}
    (isKind : Kind.ofPath? p = some kind) (named : endsIdle p = false)
    (there : v (b.place p) ≠ none) (isOther : Kind.ofPath? other = some another)
    {stage : Stage} (writable : v.writable (crashPlace b p stage)) :
    b.place other ≠ crashPlace b p stage := by
  obtain ⟨parent, name, place, -, crash⟩ := @crashPlace_eq b p kind isKind named stage
  rcases crash with crash | ⟨stem, crash, -⟩
  · have inside := grown _ there
    rw [place, List.dropLast_concat] at inside
    simp [View.writable, crash, grown.parent inside] at writable
  · obtain ⟨ownStem, extension, programmed⟩ := programmed_of_kind isOther
    obtain ⟨above, ownPlace⟩ := placeOf_fileName b.here programmed.named
    rw [crash, show b.place other = _ from ownPlace]
    intro same
    refine programmed.ne_ended ?_ ?_ (List.singleton_inj.mp (List.append_inj' same rfl).2)
    · cases stage <;> decide
    · have unknown : (Text.decode? (utf8 stage.sentinelExtension)).bind Kind.ofExtension? = none := by
        cases stage <;> decide +kernel
      simp [unknown]

/-- Judging one program leaves the others as they are. -/
theorem Judgeable.kept {v t : View} {p other : Path} {kind : Kind} {name : Bytes}
    {verdict : Classification} (grown : Grown v) (isKind : Kind.ofPath? p = some kind)
    (named : endsIdle p = false) (there : v (b.place p) ≠ none) (judges : Judges b p v t name)
    (ready : Judgeable b c v other verdict) : Judgeable b c t other verdict := by
  obtain ⟨another, bytes, executable, isOther, namedOther, isFile, judgedAs, reportable⟩ := ready
  have otherThere : v (b.place other) ≠ none := by simp [isFile]
  refine ⟨another, bytes, executable, isOther, namedOther, ?_, judgedAs, ?_⟩
  · rcases judges.elsewhere _ (judges.fresh otherThere) with same | ⟨stage, report, isCrash, writable, -⟩
    · rw [same, isFile]
    · exact absurd isCrash (place_ne_crashPlace grown isKind named there isOther (isCrash ▸ writable))
  · intro stage reported isCrash
    have writable := reportable stage reported isCrash
    obtain ⟨before, drawn⟩ := judges.drawn
    have outside := @notMem_crashPlace b v other another before name isOther namedOther otherThere
      drawn stage
    have parentOutside : name ∉ (crashPlace b other stage).dropLast :=
      fun found => outside (List.dropLast_subset _ found)
    rw [View.writable, judges.directory outside, judges.directory parentOutside]
    exact writable

/-- Judging IR that can be judged comes to its verdict. -/
theorem classify_judgeable {p : Path} {verdict : Classification}
    (temporary : View.directory s.tree.node? (b.place b.temporary))
    (proper : ∀ relation ∈ c.assertions, Proper (utf8 relation))
    (ready : Judgeable b c s.tree.node? p verdict) :
    ∃ t name, exec b.host s (Oracle.classify c p) = (.ok verdict, t) ∧
      Judges b p s.tree.node? t.tree.node? name := by
  obtain ⟨kind, bytes, executable, isKind, named, isFile, judgedAs, reportable⟩ := ready
  obtain ⟨r, t, ran, concluded⟩ := @classify_spec b c s p kind bytes isKind named
    (content_eq_some.mpr ⟨executable, isFile⟩) temporary proper
  cases outcome : judged b c kind bytes with
  | verdict found =>
    rw [outcome] at concluded judgedAs
    obtain ⟨rfl, before, name, drawn, differs⟩ := concluded
    obtain rfl := Option.some.inj judgedAs
    refine ⟨t, name, ran, ⟨before, drawn⟩, fun q outside => .inl ?_⟩
    by_cases same : t.tree.node? q = s.tree.node? q
    · exact same
    · exact absurd (mem_of_below (differs q same).2) outside
  | crash stage found =>
    have writable := reportable stage found outcome
    rw [outcome] at concluded judgedAs
    simp only [Concluded, writable, if_true] at concluded
    obtain ⟨rfl, report, before, name, drawn, differs⟩ := concluded
    obtain rfl := Option.some.inj judgedAs
    refine ⟨t, name, ran, ⟨before, drawn⟩, fun q outside => ?_⟩
    have same : t.tree.node? q = View.put s.tree.node? (crashPlace b p stage)
        (some (.file report false)) q := by
      by_cases same : t.tree.node? q = View.put s.tree.node? (crashPlace b p stage)
          (some (.file report false)) q
      · exact same
      · exact absurd (mem_of_below (differs q same).2) outside
    by_cases here : q = crashPlace b p stage
    · subst here
      exact .inr ⟨stage, report, rfl, writable, by rw [same, View.put_self]⟩
    · exact .inl (by rw [same, View.put_other here])
  | impossible =>
    rw [outcome] at judgedAs
    cases judgedAs

/-! ## No judgement is that a program does not compile -/

theorem violated_compiles (results : Bytes → Option Bytes) (relations : List String) :
    verdict? (violated results relations) ≠ some .uncompilable := by
  induction relations with
  | nil => simp [violated, verdict?]
  | cons relation rest ih =>
    unfold violated
    split
    · simp [verdict?]
    · split
      · simp [verdict?]
      · simp [verdict?]
      · exact ih

theorem analysed_compiles (facts : Bytes → Option Bytes) :
    verdict? (analysed b c facts) ≠ some .uncompilable := by
  unfold analysed
  split
  · dsimp only
    split
    · simp [verdict?]
    · split
      · unfold scanned
        split
        · exact violated_compiles _ _
        · simp [verdict?]
      · simp [verdict?]
  · simp [verdict?]

theorem judged_compiles (kind : Kind) (bytes : Bytes) :
    verdict? (judged b c kind bytes) ≠ some .uncompilable := by
  unfold judged
  split
  · simp [verdict?]
  · unfold examined
    dsimp only
    split
    · split
      · simp [verdict?]
      · split
        · exact analysed_compiles _
        · simp [verdict?]
    · simp [verdict?]

/-! ## Judging variants up to the first interesting one -/

/-- Whether a variant comes to a verdict: its IR is judged that way, or there is none. -/
def Ready (b : Bench) (c : Config) (v : View) (job : Variant × Classification) : Prop :=
  if job.1.success then Judgeable b c v job.1.irPath job.2 else job.2 = .uncompilable

/-- The verdict on a program from those on its variants. -/
def overall (compiled : Bool) : List Classification → Classification
  | [] => if compiled then .uninteresting else .uncompilable
  | .interesting :: _ => .interesting
  | .uninteresting :: rest => overall true rest
  | .uncompilable :: rest => overall compiled rest

theorem Ready.kept {v t : View} {p : Path} {kind : Kind} {name : Bytes}
    {job : Variant × Classification} (grown : Grown v) (isKind : Kind.ofPath? p = some kind)
    (named : endsIdle p = false) (there : v (b.place p) ≠ none) (judges : Judges b p v t name)
    (ready : Ready b c v job) : Ready b c t job := by
  unfold Ready at ready ⊢
  split at ready
  · rename_i success
    rw [if_pos success]
    exact ready.kept grown isKind named there judges
  · rename_i failed
    rw [if_neg failed]
    exact ready

theorem judge_spec {jobs : List (Variant × Classification)}
    (temporary : View.directory s.tree.node? (b.place b.temporary))
    (proper : ∀ relation ∈ c.assertions, Proper (utf8 relation)) (grown : Grown s.tree.node?)
    (ready : ∀ job ∈ jobs, Ready b c s.tree.node? job) (compiled : Bool) :
    ∃ t, exec b.host s (Classify.judge c compiled (jobs.map Prod.fst)) =
      (.ok (overall compiled (jobs.map Prod.snd)), t) := by
  induction jobs generalizing s compiled with
  | nil => exact ⟨s, rfl⟩
  | cons job rest ih =>
    obtain ⟨variant, verdict⟩ := job
    have first := ready _ List.mem_cons_self
    simp only [List.map_cons]
    unfold Classify.judge
    by_cases success : variant.success
    · simp only [Ready, success, if_true] at first
      simp only [success, Bool.not_true, Bool.false_eq_true, if_false]
      obtain ⟨t, name, ran, judges⟩ := classify_judgeable temporary proper first
      obtain ⟨kind, bytes, executable, isKind, named, isFile, judgedAs, -⟩ := first
      have readyRest : ∀ job ∈ rest, Ready b c t.tree.node? job := fun job among =>
        (ready job (List.mem_cons_of_mem _ among)).kept grown isKind named (by simp [isFile]) judges
      have restJudged := fun compiled => ih (judges.steady temporary) (exec_grown grown ran)
        readyRest compiled
      rw [exec_bind, exec_adapt, ran]
      simp only [mapError_ok]
      rw [exec_bind, exec_monadLift, run_log]
      cases verdict with
      | interesting => exact ⟨_, rfl⟩
      | uninteresting => exact restJudged true
      | uncompilable => exact absurd judgedAs (judged_compiles kind bytes)
    · simp only [Ready, success, Bool.false_eq_true, if_false] at first
      subst first
      simp only [success, Bool.not_false, if_true]
      rw [exec_bind, exec_monadLift, run_log]
      exact ih temporary grown (fun job among => ready job (List.mem_cons_of_mem _ among)) compiled

/-! ## Compiling into a directory -/

/-- A directory that variants are compiled into: it holds no directories, and its IR is judged as
is told. -/
structure Stocked (b : Bench) (c : Config) (told : String → Option Classification)
    (directory : Path) (v : View) : Prop where
  there : v.directory (b.place directory)
  flat : ∀ name, v.directory (b.place directory ++ [name]) = false
  ir : ∀ {key : String}, Stem (utf8 key) →
    v (b.place directory ++ [utf8 (key ++ "." ++ "bc")]) ≠ none →
    ∃ bytes executable,
      v (b.place directory ++ [utf8 (key ++ "." ++ "bc")]) = some (.file bytes executable) ∧
      verdict? (judged b c .binaryIr bytes) = told key

/-- Whether a variant is compiled from a source into a directory, or does not compile. -/
def Built (b : Bench) (c : Config) (told : String → Option Classification) (a : Artifact)
    (directory : Path) (v : View) (job : Variant × Classification) : Prop :=
  told job.1.key = some job.2 ∧
    (∃ flags source, job.1.toPlan = Plan.ofContent c.extraArgs directory a flags source) ∧
    if job.1.success then v (b.place job.1.irPath) ≠ none else job.2 = .uncompilable

theorem Built.ready {directory : Path} {v : View} {job : Variant × Classification}
    (isSource : a.isSource) (stocked : Stocked b c told directory v)
    (built : Built b c told a directory v job) : Ready b c v job := by
  obtain ⟨tells, ⟨flags, source, isPlan⟩, made⟩ := built
  unfold Ready
  split at made
  · rename_i success
    rw [if_pos success]
    obtain ⟨place, isKind, named⟩ := @irPath_spec b c a _ flags source _ isSource isPlan
    have stem : Stem (utf8 job.1.key) := isPlan ▸ key_stem ..
    obtain ⟨bytes, executable, isFile, judgedAs⟩ := stocked.ir stem (place ▸ made)
    refine ⟨.binaryIr, bytes, executable, isKind, named, place ▸ isFile, judgedAs.trans tells, ?_⟩
    intro stage verdict _
    rw [@crashPlace_irPath b c a _ flags source _ isSource isPlan, View.writable,
      List.dropLast_concat, stocked.there, stocked.flat]
    rfl
  · rename_i failed
    rw [if_neg failed]
    exact made

theorem Stocked.built {directory : Path} {v : View} {key : String} {bytes : Bytes}
    (stocked : Stocked b c told directory v)
    (free : v (b.place directory ++ [utf8 (key ++ "." ++ "bc")]) = none)
    (tells : verdict? (judged b c .binaryIr bytes) = told key) :
    Stocked b c told directory
      (v.put (b.place directory ++ [utf8 (key ++ "." ++ "bc")]) (some (.file bytes false))) := by
  have noDirectory : v.directory (b.place directory ++ [utf8 (key ++ "." ++ "bc")]) = false :=
    stocked.flat _
  refine ⟨?_, fun name => ?_, fun {other} stem there => ?_⟩
  · rw [View.directory_put noDirectory rfl]
    exact stocked.there
  · rw [View.directory_put noDirectory rfl]
    exact stocked.flat name
  · by_cases same : b.place directory ++ [utf8 (other ++ "." ++ "bc")] =
        b.place directory ++ [utf8 (key ++ "." ++ "bc")]
    · obtain rfl := entry_key_inj same
      exact ⟨bytes, false, View.put_self .., tells⟩
    · rw [View.put_other same] at there ⊢
      exact stocked.ir stem there

theorem compile_stocked {directory : Path} {flags : List String} {source : Bytes}
    {verdict : Classification} (isSource : a.isSource) (isRead : b.readAt s a.path = .ok source)
    (stocked : Stocked b c told directory s.tree.node?)
    (tells : told (planOf c a source flags).key = some verdict)
    (reaches : reached b c a flags source = some verdict) :
    ∃ variant t, exec b.host s (Compile.compile c directory a flags) = (.ok variant, t) ∧
      Stocked b c told directory t.tree.node? ∧
      (∀ q, s.tree.node? q ≠ none → t.tree.node? q = s.tree.node? q) ∧
      Built b c told a directory t.tree.node? (variant, verdict) := by
  generalize isPlan : Plan.ofContent c.extraArgs directory a flags source = p
  have isPlan := isPlan.symm
  have ownKey : (planOf c a source flags).key = p.key := by
    rw [isPlan, planOf, VariantKeys.key_eq, VariantKeys.key_eq]
  rw [ownKey] at tells
  obtain ⟨place, -, -⟩ := @irPath_spec b c a _ flags source p isSource isPlan
  unfold Compile.compile
  rw [exec_bind, exec_plan, isRead]
  simp only [mapError_ok, Except.map, ← isPlan]
  by_cases missing : s.tree.node? (b.place p.irPath) = none
  · obtain ⟨r, t, ran, result⟩ := build_spec isPlan isSource (readAt_ok isRead).2 stocked.there
      missing
    rw [reached, if_pos isSource] at reaches
    cases outcome : compiled b c a.kind flags source with
    | bitcode bytes =>
      rw [outcome] at result reaches
      obtain ⟨rfl, view⟩ := result
      refine ⟨_, _, ran, ?_, ?_, tells, ⟨flags, source, isPlan⟩, ?_⟩
      · rw [view, place]
        exact stocked.built (place ▸ missing) (reaches.trans tells.symm)
      · intro q there
        rw [view, View.put_other]
        rintro rfl
        exact there missing
      · rw [view, if_pos rfl, View.put_self]
        simp
    | failed =>
      rw [outcome] at result reaches
      obtain ⟨rfl, view⟩ := result
      refine ⟨_, _, ran, view ▸ stocked, fun q _ => by rw [view], tells, ⟨flags, source, isPlan⟩, ?_⟩
      rw [if_neg (by simp)]
      exact (Option.some.inj reaches).symm
    | impossible =>
      rw [outcome] at reaches
      cases reaches
  · refine ⟨_, _, build_of_there missing, stocked, fun _ _ => rfl, tells,
      ⟨flags, source, isPlan⟩, ?_⟩
    rw [if_pos rfl]
    exact missing

theorem Built.kept {directory : Path} {v t : View} {job : Variant × Classification}
    (kept : ∀ q, v q ≠ none → t q = v q) (built : Built b c told a directory v job) :
    Built b c told a directory t job := by
  obtain ⟨tells, isPlan, made⟩ := built
  refine ⟨tells, isPlan, ?_⟩
  split at made
  · rename_i success
    rw [if_pos success, kept _ made]
    exact made
  · rename_i failed
    rw [if_neg failed]
    exact made

/-- Compiling a source with one set of flags after another makes a variant of each. -/
theorem compileEach_stocked {directory : Path} {source : Bytes} {sets : List (List String)}
    (isSource : a.isSource) (isRead : b.readAt s a.path = .ok source)
    (stocked : Stocked b c told directory s.tree.node?)
    (tells : ∀ flags ∈ sets, ∃ verdict, told (planOf c a source flags).key = some verdict ∧
      reached b c a flags source = some verdict) :
    ∃ (jobs : List (Variant × Classification)) (t : State),
      exec b.host s (Compile.compileEach c directory a sets) = (.ok (jobs.map Prod.fst), t) ∧
      sets.map (fun flags => told (planOf c a source flags).key) =
        jobs.map (fun job => some job.2) ∧
      Stocked b c told directory t.tree.node? ∧
      (∀ q, s.tree.node? q ≠ none → t.tree.node? q = s.tree.node? q) ∧
      ∀ job ∈ jobs, Built b c told a directory t.tree.node? job := by
  induction sets generalizing s with
  | nil => exact ⟨[], s, rfl, rfl, stocked, fun _ _ => rfl, by simp⟩
  | cons flags rest ih =>
    obtain ⟨verdict, told, reaches⟩ := tells flags List.mem_cons_self
    obtain ⟨variant, t, ran, stockedThen, kept, built⟩ :=
      compile_stocked isSource isRead stocked told reaches
    have sourceThere : s.tree.node? (b.place a.path) ≠ none := by
      obtain ⟨executable, isFile⟩ := content_eq_some.mp (readAt_ok isRead).2
      simp [isFile]
    obtain ⟨jobs, u, ranRest, verdicts, stockedLast, keptRest, builtRest⟩ := ih
      ((readAt_of_node? (kept _ sourceThere)).trans isRead) stockedThen
      fun other among => tells other (List.mem_cons_of_mem _ among)
    have keptAfter (q : Place) (there : t.tree.node? q ≠ none) :
        u.tree.node? q = t.tree.node? q := keptRest q there
    refine ⟨(variant, verdict) :: jobs, u, ?_, ?_, stockedLast, ?_, ?_⟩
    · unfold Compile.compileEach
      rw [exec_bind, ran]
      simp only
      rw [exec_bind, ranRest]
      rfl
    · simp only [List.map_cons, told, verdicts]
    · intro q there
      rw [keptAfter q (kept q there ▸ there), kept q there]
    · intro job among
      rcases List.mem_cons.mp among with rfl | later
      · exact built.kept keptAfter
      · exact builtRest job later

end BugHunt.Proofs.Preparing
