import BugHunt.Proofs.Preparing
import BugHunt.Session
/-!
A test-only run and a full run on one program: where the full run on an empty cache succeeds, the
test-only run comes to the verdict that its counts stand for.
-/

namespace BugHunt.Proofs.TestOnly
open Trees Texts Names Places Runs Bench Growth Outcomes Building Judging Caching Keeping Tallying
  Preparing

variable {b : Bench} {c : Config} {s : State} {told : String → Option Classification}
  {a : Artifact}

/-! ## The verdict on a program and the counts of its variants -/

theorem overall_interesting (compiled : Bool) (verdicts : List Classification) :
    overall compiled verdicts = .interesting ↔ .interesting ∈ verdicts := by
  induction verdicts generalizing compiled with
  | nil => cases compiled <;> simp [overall]
  | cons verdict rest ih => cases verdict <;> simp [overall, ih]

theorem overall_uncompilable (compiled : Bool) (verdicts : List Classification) :
    overall compiled verdicts = .uncompilable ↔
      compiled = false ∧ ∀ verdict ∈ verdicts, verdict = .uncompilable := by
  induction verdicts generalizing compiled with
  | nil => cases compiled <;> simp [overall]
  | cons verdict rest ih => cases verdict <;> simp [overall, ih]

theorem counts_foldl_record (verdicts : List Classification) (sum : Summary) :
    counts (verdicts.foldl Summary.record sum) =
      (sum.interesting + verdicts.count .interesting,
        sum.uninteresting + verdicts.count .uninteresting,
        sum.uncompilable + verdicts.count .uncompilable) := by
  induction verdicts generalizing sum with
  | nil => rfl
  | cons verdict rest ih =>
    rw [List.foldl_cons, ih]
    cases verdict <;> simp [Summary.record] <;> omega

/-- Whether a verdict on a program is the one that counts of its variants stand for. -/
def Agrees (verdict : Classification) (sum : Summary) : Prop :=
  (verdict = .interesting ↔ 0 < sum.interesting) ∧
  (verdict = .uncompilable ↔ sum.uncompilable = sum.total) ∧
  (verdict = .uninteresting ↔ sum.interesting = 0 ∧ sum.uncompilable ≠ sum.total)

theorem overall_agrees {verdicts : List Classification} {sum : Summary}
    (counted : counts sum = counts (verdicts.foldl Summary.record .zero)) :
    Agrees (overall false verdicts) sum := by
  rw [counts_foldl_record] at counted
  simp only [counts, Summary.zero, Nat.zero_add, Prod.mk.injEq] at counted
  obtain ⟨interesting, uninteresting, uncompilable⟩ := counted
  have found : overall false verdicts = .interesting ↔ 0 < sum.interesting := by
    rw [overall_interesting, interesting, List.count_pos_iff]
  have broken : overall false verdicts = .uncompilable ↔ sum.uncompilable = sum.total := by
    have none : (∀ verdict ∈ verdicts, verdict = .uncompilable) ↔
        verdicts.count .interesting = 0 ∧ verdicts.count .uninteresting = 0 := by
      rw [List.count_eq_zero, List.count_eq_zero]
      constructor
      · intro all
        exact ⟨fun found => by simpa using all _ found, fun found => by simpa using all _ found⟩
      · rintro ⟨noneInteresting, noneUninteresting⟩ verdict among
        cases verdict with
        | interesting => exact absurd among noneInteresting
        | uninteresting => exact absurd among noneUninteresting
        | uncompilable => rfl
    rw [overall_uncompilable, none, ← interesting, ← uninteresting, Summary.total]
    simp only [true_and]
    omega
  refine ⟨found, broken, ?_⟩
  have some : 0 < sum.interesting → sum.uncompilable ≠ sum.total := by
    rw [Summary.total]
    omega
  cases verdict : overall false verdicts with
  | interesting =>
    have := found.mp verdict
    simp
    omega
  | uninteresting =>
    have noneFound : ¬ 0 < sum.interesting := fun h => by rw [found.mpr h] at verdict; cases verdict
    have notBroken : sum.uncompilable ≠ sum.total := fun h => by
      rw [broken.mpr h] at verdict
      cases verdict
    simp only [true_iff]
    exact ⟨by omega, notBroken⟩
  | uncompilable =>
    have := broken.mp verdict
    simp [this]

/-! ## The test-only run -/

/-- The directory that variants are compiled into is no sentinel. -/
theorem ne_crashPlace_of_drawn {v : View} {above : Place} {name : Bytes} {p : Path} {kind : Kind}
    (drawn : Drawn v "pareduce-test" "" name) (grown : Grown v) (isKind : Kind.ofPath? p = some kind)
    (named : endsIdle p = false) (there : v (b.place p) ≠ none) {stage : Stage}
    (writable : v.writable (crashPlace b p stage)) : crashPlace b p stage ≠ above ++ [name] := by
  obtain ⟨parent, last, place, -, crash⟩ := @crashPlace_eq b p kind isKind named stage
  rcases crash with crash | ⟨stem, crash, -⟩
  · have inside := grown _ there
    rw [place, List.dropLast_concat] at inside
    simp [View.writable, crash, grown.parent inside] at writable
  · rw [crash]
    intro same
    have names := List.singleton_inj.mp (List.append_inj' same rfl).2
    obtain ⟨middle, signs, form⟩ := drawn.form
    have dotted : Path.dot ∈ utf8 ("pareduce-test" ++ middle ++ "") := by
      rw [← form, ← names]
      simp
    have found := @ascii_of_mem_utf8 Path.dot (by decide) _ dotted
    simp only [String.toList_append, List.mem_append] at found
    rcases found with (inFront | inMiddle) | inEnd
    · exact absurd inFront (by decide)
    · exact absurd (signs _ inMiddle) (by decide)
    · exact absurd inEnd (by decide)

theorem stocked_of_fresh {v : View} {directory : Path} {above : Place} {name : Bytes}
    (place : b.place directory = above ++ [name]) (fresh : Fresh v name) :
    Stocked b c told directory (v.put (b.place directory) (some .directory)) := by
  have free (entry : Bytes) :
      View.put v (b.place directory) (some .directory) (b.place directory ++ [entry]) = none := by
    rw [View.put_other (by simp)]
    exact fresh.free (by simp [place])
  refine ⟨?_, fun entry => ?_, fun stem there => absurd (free _) there⟩
  · rw [View.directory, View.put_self]
    rfl
  · exact View.directory_of_none (free _)

theorem within_source {directory : Path} {source : Bytes} {verdicts : List Classification}
    (isSource : a.isSource) (temporary : View.directory s.tree.node? (b.place b.temporary))
    (proper : ∀ relation ∈ c.assertions, Proper (utf8 relation)) (grown : Grown s.tree.node?)
    (stocked : Stocked b c told directory s.tree.node?) (isRead : b.readAt s a.path = .ok source)
    (tells : Tells b c told a source)
    (comesTo : (flagSets c a).map (fun flags => told (planOf c a source flags).key) =
      verdicts.map some) :
    ∃ t, exec b.host s (Classify.within c a directory) = (.ok (overall false verdicts), t) := by
  have each (flags : List String) (among : flags ∈ flagSets c a) :
      ∃ verdict, told (planOf c a source flags).key = some verdict ∧
        reached b c a flags source = some verdict := by
    have found := comesTo ▸ List.mem_map_of_mem (f := fun flags =>
      told (planOf c a source flags).key) among
    obtain ⟨verdict, -, isVerdict⟩ := List.mem_map.mp found
    exact ⟨verdict, isVerdict.symm, (tells flags among).symm.trans isVerdict.symm⟩
  obtain ⟨jobs, t, ran, named, stockedThen, kept, built⟩ :=
    compileEach_stocked isSource isRead stocked each
  have same : jobs.map Prod.snd = verdicts := by
    apply List.map_inj_right (fun _ _ => Option.some.inj) |>.mp
    rw [List.map_map, ← comesTo, named]
    rfl
  have temporaryThen : View.directory t.tree.node? (b.place b.temporary) := by
    have old : s.tree.node? (b.place b.temporary) ≠ none := by
      intro none
      simp [View.directory, none] at temporary
    rwa [View.directory, kept _ old]
  obtain ⟨u, judged⟩ := judge_spec temporaryThen proper (exec_grown grown ran)
    (fun job among => (built job among).ready isSource stockedThen) false
  refine ⟨u, ?_⟩
  unfold Classify.within Compile.variants
  rw [exec_bind, exec_adapt, ran]
  exact same ▸ judged

theorem within_ir {directory : Path} {source : Bytes} {verdict : Classification}
    (ir : a.isSource = false) (temporary : View.directory s.tree.node? (b.place b.temporary))
    (proper : ∀ relation ∈ c.assertions, Proper (utf8 relation)) (grown : Grown s.tree.node?)
    (isRead : b.readAt s a.path = .ok source)
    (judgedAs : verdict? (judged b c a.kind source) = some verdict)
    (reportable : Reportable b s.tree.node? a.path (judged b c a.kind source)) :
    ∃ t, exec b.host s (Classify.within c a directory) = (.ok (overall false [verdict]), t) := by
  obtain ⟨named, there⟩ := readAt_ok isRead
  obtain ⟨executable, isFile⟩ := content_eq_some.mp there
  have path := @irPath_of_ir c.extraArgs directory a [] source ir
  obtain ⟨t, judges⟩ := @judge_spec b c s
    [(⟨Plan.ofContent c.extraArgs directory a [] source, true⟩, verdict)] temporary proper grown
    (by
      intro job among
      obtain rfl := List.mem_singleton.mp among
      simp only [Ready, if_true]
      rw [path]
      exact ⟨a.kind, source, executable, a.kind_of_path, named, isFile, judgedAs, reportable⟩) false
  refine ⟨t, ?_⟩
  unfold Classify.within Compile.variants flagSets
  simp only [ir, Bool.false_eq_true, if_false]
  unfold Compile.compileEach Compile.compile
  rw [exec_bind, exec_adapt, exec_bind, exec_bind, exec_plan, isRead]
  simp only [mapError_ok, Except.map]
  rw [build_of_ir ir]
  exact judges

/-- A test-only run comes to the verdict that the verdicts on its variants make up. -/
theorem classify_program_spec {source : Bytes} {verdicts : List Classification}
    (temporary : View.directory s.tree.node? (b.place b.temporary))
    (proper : ∀ relation ∈ c.assertions, Proper (utf8 relation)) (grown : Grown s.tree.node?)
    (isRead : b.readAt s a.path = .ok source)
    (tells : Tells b c told a source)
    (comesTo : (flagSets c a).map (fun flags => told (planOf c a source flags).key) =
      verdicts.map some)
    (reportable : a.isSource = false →
      Reportable b s.tree.node? a.path (judged b c a.kind source)) :
    ∃ t, exec b.host s (Classify.program c a.path) = (.ok (overall false verdicts), t) := by
  obtain ⟨named, there⟩ := readAt_ok isRead
  obtain ⟨executable, isFile⟩ := content_eq_some.mp there
  have sourceThere : s.tree.node? (b.place a.path) ≠ none := by simp [isFile]
  have frames : Frames "pareduce-test" "" := frames (by decide) (by decide) (by decide)
  obtain ⟨directory, name, u, made, -, -, place, drawn, view⟩ :=
    @run_temporaryDirectory b s _ _ frames temporary
  have kept (q : Place) (there : s.tree.node? q ≠ none) : u.node? q = s.tree.node? q := by
    rw [view, View.put_other]
    rintro rfl
    exact there (drawn.fresh.free (by simp [place]))
  have grownThen : Grown u.node? := by
    have := @run_grown b s _ (Program.temporaryDirectory "pareduce-test" "") grown
    rwa [made] at this
  have steady (q : Place) (there : View.directory s.tree.node? q) : View.directory u.node? q := by
    have old : s.tree.node? q ≠ none := by
      intro none
      simp [View.directory, none] at there
    rwa [View.directory, kept q old]
  have temporaryThen := steady _ temporary
  have readThen : b.readAt { s with tree := u } a.path = .ok source :=
    (readAt_of_node? (kept _ sourceThere)).trans isRead
  have within : ∃ t, exec b.host { s with tree := u } (Classify.within c a directory) =
      (.ok (overall false verdicts), t) := by
    by_cases isSource : a.isSource
    · exact within_source isSource temporaryThen proper grownThen
        (view ▸ stocked_of_fresh place drawn.fresh) readThen tells comesTo
    · have ir : a.isSource = false := by simpa using isSource
      have sets : flagSets c a = [[]] := by simp [flagSets, ir]
      have own := tells [] (by simp [sets])
      rw [sets] at comesTo
      obtain ⟨verdict, rfl⟩ : ∃ verdict, verdicts = [verdict] := by
        apply List.length_eq_one_iff.mp
        simpa using (congrArg List.length comesTo).symm
      have isVerdict : told (planOf c a source []).key = some verdict := by simpa using comesTo
      rw [reached, if_neg isSource, isVerdict] at own
      refine within_ir ir temporaryThen proper grownThen readThen own.symm ?_
      intro stage found crashed
      have writable := reportable ir stage found crashed
      have apart : crashPlace b a.path stage ≠ b.place b.temporary ++ [name] :=
        ne_crashPlace_of_drawn drawn grown a.kind_of_path named sourceThere writable
      rw [View.writable_iff] at writable ⊢
      constructor
      · rw [view, View.directory, View.put_other (place ▸ apart)]
        exact writable.1
      · exact steady _ writable.2
  obtain ⟨t, ran⟩ := within
  unfold Classify.program
  rw [ofPath?_path]
  simp only
  rw [exec_bind, exec_orFail, made]
  simp only [mapError_ok]
  rw [exec_cleaningUp, Checking.normalized, exec_adapt, ran]
  exact ⟨_, rfl⟩

/-! ## The full run -/

/-- A check that succeeds has opened the cache and checked the variants. -/
theorem program_ok {path : Path} {sum : Summary} (grown : Grown s.tree.node?)
    (isOk : (exec b.host s (Check.program c path)).1 = .ok sum) :
    ∃ a u, Artifact.ofPath? path = some a ∧ Opened b c s.tree.node? u.tree.node? ∧
      Grown u.tree.node? ∧ Rooted b c u.tree.node? ∧
      (exec b.host u (Check.variants c (cacheOf c) a)).1 = .ok sum := by
  cases isProgram : Artifact.ofPath? path with
  | none =>
    rw [program_of_none isProgram] at isOk
    cases isOk
  | some a =>
    obtain ⟨r, u, ran, opened, opens⟩ := @open_spec b c s
    rw [program_of_some isProgram, exec_bind, exec_adapt, ran] at isOk
    cases r with
    | error e => cases isOk
    | ok cache =>
      obtain ⟨rfl, there, -⟩ := opens cache rfl
      have grownThen := exec_grown grown ran
      exact ⟨a, u, rfl, opened, grownThen, rooted_of_irDir grownThen there, normalized_ok.mp isOk⟩

theorem fresh_of_ir_error {p : Plan} {e : OracleError} {t : State} (ir : a.isSource = false)
    (failed : exec b.host s (Oracle.classify c p.irPath) = (.error e, t)) (sum : Summary) :
    exec b.host s (Check.fresh c (cacheOf c) a p sum) = (.error (.oracle e), t) := by
  unfold Check.fresh
  rw [exec_bind, exec_adapt, build_of_ir ir]
  simp only [mapError_ok, Bool.not_true, Bool.false_eq_true, if_false]
  apply exec_bind_error
  rw [exec_adapt, failed]
  rfl

/-- Where a check of IR on an empty cache succeeds, the sentinel of a crash can be written. -/
theorem reportable_of_ok {source : Bytes} {sum : Summary} (ir : a.isSource = false)
    (blank : Blank b c s.tree.node?)
    (temporary : View.directory s.tree.node? (b.place b.temporary))
    (proper : ∀ relation ∈ c.assertions, Proper (utf8 relation))
    (isRead : b.readAt s a.path = .ok source)
    (isOk : (exec b.host s (Check.variants c (cacheOf c) a)).1 = .ok sum) :
    Reportable b s.tree.node? a.path (judged b c a.kind source) := by
  intro stage verdict crashed
  obtain ⟨named, there⟩ := readAt_ok isRead
  obtain ⟨found, lookedUp, finds⟩ := @lookup_spec b c s (planOf c a source []).key (key_stem ..)
  obtain ⟨r, t, ran, concluded⟩ := @classify_spec b c s a.path a.kind source a.kind_of_path named
    there temporary proper
  have path := @irPath_of_ir c.extraArgs (cacheOf c).irDir a [] source ir
  cases found with
  | some answer =>
    obtain ⟨ending, ends, marker⟩ := finds
    exact absurd (blank _ (.marker (key_stem ..) ends)) marker
  | none =>
    by_cases writable : View.writable s.tree.node? (crashPlace b a.path stage)
    · exact writable
    · simp only [crashed, Concluded, writable, Bool.false_eq_true, if_false] at concluded
      obtain ⟨⟨e, rfl⟩, -⟩ := concluded
      unfold Check.variants flagSets at isOk
      simp only [ir, Bool.false_eq_true, if_false] at isOk
      unfold Check.each Check.variant at isOk
      simp only [planOf] at lookedUp
      rw [exec_bind, exec_bind, exec_monadLift, run_isCancelled] at isOk
      simp only [Bool.false_eq_true, if_false] at isOk
      rw [exec_bind, exec_adapt, exec_plan, isRead] at isOk
      simp only [mapError_ok, Except.map] at isOk
      generalize Plan.ofContent c.extraArgs (cacheOf c).irDir a [] source = p at path lookedUp isOk
      rw [exec_bind, exec_lift, lookedUp] at isOk
      simp only at isOk
      rw [fresh_of_ir_error ir (path ▸ ran)] at isOk
      cases isOk

/-- What can be recorded once the cache is open could be recorded before. -/
theorem Opened.reportable {p : Path} {kind : Kind} {v w : View} {outcome : Judged}
    (opened : Opened b c v w) (grown : Grown v) (isKind : Kind.ofPath? p = some kind)
    (named : endsIdle p = false) (there : v (b.place p) ≠ none)
    (reportable : Reportable b w p outcome) : Reportable b v p outcome := by
  intro stage verdict crashed
  have writable := reportable stage verdict crashed
  rw [View.writable_iff] at writable ⊢
  obtain ⟨parent, name, place, -, crash⟩ := @crashPlace_eq b p kind isKind named stage
  have inside := grown _ there
  rw [place, List.dropLast_concat] at inside
  rcases crash with crash | ⟨stem, crash, -⟩
  · have above := opened.steady _ (grown.parent inside)
    rw [← crash, writable.1] at above
    cases above
  · constructor
    · by_cases isDirectory : v.directory (crashPlace b p stage)
      · have := opened.steady _ isDirectory
        rw [writable.1] at this
        cases this
      · simpa using isDirectory
    · rw [crash, List.dropLast_concat]
      exact inside

/-! ## Both runs -/

theorem classify_without_sets (none : flagSets c a = [])
    (temporary : View.directory s.tree.node? (b.place b.temporary)) :
    ∃ t, exec b.host s (Classify.program c a.path) = (.ok .uncompilable, t) := by
  have frames : Frames "pareduce-test" "" := frames (by decide) (by decide) (by decide)
  obtain ⟨directory, name, u, made, -⟩ := @run_temporaryDirectory b s _ _ frames temporary
  unfold Classify.program
  rw [ofPath?_path]
  simp only
  rw [exec_bind, exec_orFail, made]
  simp only [mapError_ok]
  rw [exec_cleaningUp]
  unfold Classify.within Compile.variants
  rw [none]
  exact ⟨_, rfl⟩

/-- Whether flag sets that share a key come to one verdict. -/
def Faithful (b : Bench) (c : Config) (a : Artifact) (source : Bytes) : Prop :=
  ∀ f ∈ flagSets c a, ∀ g ∈ flagSets c a,
    (planOf c a source f).key = (planOf c a source g).key →
    reached b c a f source = reached b c a g source

/-- The verdicts on the variants of a program, by their keys. -/
def toldOf (b : Bench) (c : Config) (a : Artifact) (source : Bytes) (key : String) :
    Option Classification :=
  ((flagSets c a).find? fun flags => (planOf c a source flags).key = key).bind fun flags =>
    reached b c a flags source

theorem toldOf_tells {source : Bytes} (faithful : Faithful b c a source) :
    Tells b c (toldOf b c a source) a source := by
  intro flags among
  unfold toldOf
  cases found : (flagSets c a).find? fun other =>
      (planOf c a source other).key = (planOf c a source flags).key with
  | none => exact absurd (List.find?_eq_none.mp found flags among) (by simp)
  | some other =>
    have sameKey := List.find?_some found
    exact faithful other (List.mem_of_find?_eq_some found) flags among (by simpa using sameKey)

/-- Where a check on an empty cache succeeds, judging alone succeeds too, with the verdict that the
counts of the check stand for. -/
theorem classify_agrees (grounds : Grounds b c) {path : Path} {sum : Summary}
    (blank : Blank b c s.tree.node?) (grown : Grown s.tree.node?)
    (temporary : View.directory s.tree.node? (b.place b.temporary))
    (faithful : ∀ a source, Artifact.ofPath? path = some a → b.readAt s a.path = .ok source →
      Faithful b c a source)
    (isOk : (exec b.host s (Check.program c path)).1 = .ok sum) (mode : Bool) :
    ∃ verdict, (exec b.host s (Classify.program { c with testOnly := mode } path)).1 = .ok verdict ∧
      Agrees verdict sum := by
  obtain ⟨a, u, isProgram, opened, grownThen, rooted, isOkThen⟩ := program_ok grown isOk
  obtain rfl := path_of_ofPath? isProgram
  have blankThen : Blank b c u.tree.node? := fun q slot => (opened.slots q slot).trans (blank q slot)
  by_cases sets : flagSets c a = []
  · obtain ⟨t, ran⟩ := @classify_without_sets b { c with testOnly := mode } s a sets temporary
    have isZero : sum = .zero := by
      unfold Check.variants at isOkThen
      rw [sets] at isOkThen
      exact (Except.ok.inj isOkThen).symm
    refine ⟨.uncompilable, by rw [ran], ?_⟩
    subst isZero
    exact @overall_agrees [] .zero rfl
  · obtain ⟨source, isReadThen⟩ := read_of_ok sets isOkThen
    have isRead := (opened.readAt_iff _ _).mp isReadThen
    obtain ⟨named, there⟩ := readAt_ok isRead
    obtain ⟨executable, isFile⟩ := content_eq_some.mp there
    have tells := toldOf_tells (faithful a source isProgram isRead)
    obtain ⟨r, t, ran, -, tallied⟩ := @variants_held b c u (toldOf b c a source) a grounds
      blankThen.sound rooted grownThen (by
        intro other isReadOther
        obtain rfl := Except.ok.inj (isReadThen.symm.trans isReadOther)
        exact tells)
    obtain ⟨verdicts, comesTo, counted⟩ := tallied sum (by rw [ran] at isOkThen; exact isOkThen)
    simp only [keysOf, isReadThen, List.map_map] at comesTo
    have reportable (ir : a.isSource = false) :
        Reportable b s.tree.node? a.path (judged b c a.kind source) :=
      Opened.reportable opened grown a.kind_of_path named (by simp [isFile])
        (reportable_of_ok ir blankThen (opened.steady _ temporary) grounds.assertions isReadThen
          isOkThen)
    obtain ⟨t, ran⟩ := @classify_program_spec b { c with testOnly := mode } s
      (toldOf b c a source) a source verdicts temporary grounds.assertions grown isRead tells
      comesTo reportable
    exact ⟨overall false verdicts, by rw [ran], overall_agrees counted⟩

/-! ## Sessions -/

theorem bootstrap_testOnly (around : Surroundings) (o : Overrides) (settings : Settings)
    (mode : Bool) : Config.bootstrap around { o with testOnly := mode } settings =
      (Config.bootstrap around o settings).map fun c => { c with testOnly := mode } := by
  unfold Config.bootstrap
  simp only [bind, Except.bind]
  split
  · rfl
  · split
    · rfl
    · split <;> rfl

/-- The option for a test-only run changes nothing else in the configuration. -/
theorem configure_testOnly {around : Surroundings} {o : Options} {t : State}
    (configured : exec b.host s (Session.configure around o) = (.ok c, t)) (mode : Bool) :
    exec b.host s (Session.configure around { o with testOnly := mode }) =
      (.ok { c with testOnly := mode }, t) := by
  unfold Session.configure at configured ⊢
  rw [exec_bind] at configured ⊢
  generalize exec b.host s (Settings.choose o.configFile) = chosen at configured ⊢
  obtain ⟨chosen, u⟩ := chosen
  cases chosen with
  | error e => cases configured
  | ok chosen =>
    obtain ⟨settings, file⟩ := chosen
    have made : (Config.bootstrap around { o.toOverrides with configFile := file } settings, u) =
        (.ok c, t) := configured
    obtain ⟨isConfig, rfl⟩ := Prod.mk.inj made
    have changed := bootstrap_testOnly around { o.toOverrides with configFile := file } settings mode
    rw [isConfig] at changed
    exact congrArg (·, u) changed

theorem run_of_work {around : Surroundings} {o : Options} {t : State} {status : Nat}
    (configured : exec b.host s (Session.configure around o) = (.ok c, t))
    (worked : (exec b.host t (Session.work c o)).1 = .ok status) :
    ((Session.run around o).run b.host s).1 = status := by
  unfold Session.run
  rw [run_bind, show (Session.configure around o).run.run b.host s = (.ok c, t) from configured]
  simp only
  rw [run_bind, show ((Session.work c o).run.run b.host t).1 = .ok status from worked]
  rfl

/-- The exit status of a full run that succeeds. -/
theorem work_of_check {o : Options} {path : Path} {sum : Summary} (isProgram : o.program = some path)
    (keeps : o.reset = false) (full : c.testOnly = false)
    (isOk : (exec b.host s (Check.program c path)).1 = .ok sum) :
    (exec b.host s (Session.work c o)).1 = .ok (if 0 < sum.interesting then 0 else 1) := by
  have checked : ∃ t, exec b.host s (Session.check c o) = (.ok sum, t) := by
    unfold Session.check
    rw [isProgram]
    simp only
    rw [exec_adapt, isOk]
    exact ⟨_, rfl⟩
  obtain ⟨t, ran⟩ := checked
  unfold Session.work
  simp only [keeps, full, Bool.false_eq_true, if_false]
  rw [exec_bind, ran]
  simp only [Summary.foundInteresting, decide_eq_true_eq]
  by_cases warns : 0 < sum.reduceFailures
  · rw [if_pos warns, exec_bind, exec_monadLift, run_warn]
    rfl
  · rw [if_neg warns]
    rfl

/-- The exit status of a test-only run that comes to a verdict. -/
theorem work_of_classify {o : Options} {path : Path} {verdict : Classification}
    (isProgram : o.program = some path) (keeps : o.reset = false) (testOnly : c.testOnly = true)
    (isOk : (exec b.host s (Classify.program c path)).1 = .ok verdict) :
    (exec b.host s (Session.work c o)).1 = .ok verdict.exitCode := by
  have ran : ∃ t, exec b.host s ((Classify.program c path).adapt SessionError.pipeline) =
      (.ok verdict, t) := by
    rw [exec_adapt, isOk]
    exact ⟨_, rfl⟩
  obtain ⟨t, ran⟩ := ran
  unfold Session.work
  simp only [keeps, testOnly, isProgram, Bool.false_eq_true, if_false]
  rw [exec_bind, ran]
  rfl

theorem exitCode_of_agrees {verdict : Classification} {sum : Summary} (agrees : Agrees verdict sum) :
    verdict.exitCode = if 0 < sum.interesting then 0 else 1 := by
  by_cases found : 0 < sum.interesting
  · rw [if_pos found]
    exact Classification.exitCode_eq_zero_iff.mpr (agrees.1.mpr found)
  · rw [if_neg found]
    cases verdict with
    | interesting => exact absurd (agrees.1.mp rfl) found
    | uninteresting => rfl
    | uncompilable => rfl

/-- Where a check on an empty cache succeeds, judging alone succeeds too, with the verdict that the
counts of the check stand for. So a session ends with the same exit status with and without the
option for a test-only run. -/
theorem full_run_agrees_with_test_only (grounds : Grounds b c) {path : Path} {sum : Summary}
    (blank : Blank b c s.tree.node?) (grown : Grown s.tree.node?)
    (temporary : View.directory s.tree.node? (b.place b.temporary))
    (faithful : ∀ a source, Artifact.ofPath? path = some a → b.readAt s a.path = .ok source →
      Faithful b c a source)
    (isOk : (exec b.host s (Check.program c path)).1 = .ok sum) :
    (∃ verdict, (exec b.host s (Classify.program c path)).1 = .ok verdict ∧ Agrees verdict sum) ∧
    ∀ around o, exec b.host s (Session.configure around o) = (.ok c, s) → o.program = some path →
      o.reset = false → o.testOnly = false →
      ((Session.run around { o with testOnly := true }).run b.host s).1 =
        ((Session.run around o).run b.host s).1 := by
  refine ⟨classify_agrees grounds blank grown temporary faithful isOk c.testOnly, ?_⟩
  intro around o configured isProgram keeps full
  obtain ⟨verdict, judged, agrees⟩ := classify_agrees grounds blank grown temporary faithful isOk true
  have isFull : c.testOnly = false := by
    have again := configure_testOnly configured false
    rw [show ({ o with testOnly := false } : Options) = o by rw [← full], configured] at again
    have same := Except.ok.inj (Prod.mk.inj again).1
    rw [same]
  rw [run_of_work configured (work_of_check isProgram keeps isFull isOk),
    run_of_work (configure_testOnly configured true)
      (@work_of_classify b _ s { o with testOnly := true } path verdict isProgram keeps rfl judged)]
  exact exitCode_of_agrees agrees

/-! ## On a bench of its own -/

/-- Tools of which the C compiler makes bitcode that the analysis crashes on, unless it is given
one certain flag. -/
def pickyTools : Toolbox where
  starts _ _ := true
  streams _ := ([], [])
  compile program options _ :=
    if program = ⟨utf8 "clang"⟩ ∧ utf8 "-DX=!&%@#:%>;?,<;:!&" ∉ options then
      ⟨.ended (.exited 0), some bitcodeMagic⟩
    else ⟨.ended (.exited 1), none⟩
  convert _ _ := ⟨.ended (.exited 1), none⟩
  facts _ _ _ := ⟨.ended (.exited 0), []⟩
  analyse _ _ _ := ⟨.ended (.exited 1), []⟩
  minimizeIr _ _ := (.exited 1, none)
  minimizeSource _ _ := (.exited 1, none)

def oneProgram : State where
  tree := ⟨[([utf8 "w"], .directory), ([utf8 "tmp"], .directory),
    ([utf8 "w", utf8 "prog.c"], .file (utf8 "int x;") false)]⟩
  started := []
  turns := 0

def around : Surroundings := ⟨"/w", "/tmp", "/usr/bin/pareduce", 2⟩

def options : Options where
  program := some "/w/prog.c"
  outputRoot := some "/w/out"

/-- The configuration that the options make up. -/
def configured : Config :=
  ((Config.bootstrap around options.toOverrides {}).toOption).getD VariantKeys.plain

theorem configured_grounds : Grounds (desk pickyTools) configured where
  home := by decide
  absolute := by decide
  assertions := by
    intro relation among
    have proper : ∀ relation ∈ configured.assertions, utf8 relation ≠ [] ∧
        utf8 relation ≠ [Path.dot] ∧ utf8 relation ≠ [Path.dot, Path.dot] ∧
        Path.slash ∉ utf8 relation := by decide
    obtain ⟨some, noDot, noDots, clean⟩ := proper relation among
    exact ⟨some, noDot, noDots, clean⟩
  output := by decide

theorem oneProgram_grown : Grown oneProgram.tree.node? := grown_of_nodes (by decide)

theorem oneProgram_blank (c : Config) (isRoot : c.cacheRoot = configured.cacheRoot) :
    Blank (desk pickyTools) c oneProgram.tree.node? :=
  blank_of_nodes (by rw [isRoot]; decide)

theorem oneProgram_configured :
    exec (desk pickyTools).host oneProgram (Session.configure around options) =
      (.ok configured, oneProgram) :=
  Prod.ext (ok_of_toOption (by decide)) rfl

theorem program_read {source : Bytes} (isRead : (desk pickyTools).readAt oneProgram "/w/prog.c" =
    .ok source) : source = utf8 "int x;" := by
  have there : (desk pickyTools).readAt oneProgram "/w/prog.c" = .ok (utf8 "int x;") :=
    readAt_of_content (by decide) (by decide)
  exact Except.ok.inj (isRead.symm.trans there)

theorem program_kind : Kind.ofPath? "/w/prog.c" = some .cSource := by decide +kernel

def program : Artifact := ⟨"/w/prog.c", .cSource, program_kind⟩

/-- With the default flags both runs find the program interesting. -/
theorem interesting_in_both :
    (∃ verdict, (exec (desk pickyTools).host oneProgram
        (Classify.program configured "/w/prog.c")).1 = .ok verdict ∧
      Agrees verdict ⟨2, 0, 0, 0, 2⟩) ∧
    ((Session.run around { options with testOnly := true }).run (desk pickyTools).host oneProgram).1 =
      ((Session.run around options).run (desk pickyTools).host oneProgram).1 := by
  have both := @full_run_agrees_with_test_only (desk pickyTools) configured oneProgram
    configured_grounds "/w/prog.c" ⟨2, 0, 0, 0, 2⟩ (oneProgram_blank _ rfl) oneProgram_grown
    (by decide) (by
      intro a source isProgram isRead
      obtain rfl := Option.some.inj ((ofPath?_path program).symm.trans isProgram)
      obtain rfl := program_read isRead
      unfold Faithful
      decide +kernel)
    (ok_of_toOption (by decide +kernel))
  exact ⟨both.1, both.2 around options oneProgram_configured rfl rfl rfl⟩

/-- Two sets of flags whose keys have the same digest, though the flags differ. -/
def colliding : Config :=
  { configured with optLevels := [["-DX=!&%@#:%>;?,<;:!&"], ["-DX=;;!**)*@,#?!&^~:"]] }

/-- Flag sets that share a key share a verdict in a check, but not where they are judged alone: the
check takes the second set for uncompilable, as the first one is, and judging alone finds the
program interesting. -/
theorem shared_key_misleads :
    ¬ ∀ (b : Bench) (c : Config) (s : State) (path : Path) (sum : Summary), Grounds b c →
        Blank b c s.tree.node? → Grown s.tree.node? →
        View.directory s.tree.node? (b.place b.temporary) →
        (exec b.host s (Check.program c path)).1 = .ok sum →
        ∃ verdict, (exec b.host s (Classify.program c path)).1 = .ok verdict ∧
          Agrees verdict sum := by
  intro agree
  obtain ⟨verdict, judged, agrees⟩ := agree (desk pickyTools) colliding oneProgram "/w/prog.c"
    ⟨0, 0, 2, 1, 0⟩
    { configured_grounds with }
    (oneProgram_blank _ rfl) oneProgram_grown (by decide) (ok_of_toOption (by decide +kernel))
  have alone : (exec (desk pickyTools).host oneProgram
      (Classify.program colliding "/w/prog.c")).1 = .ok .interesting :=
    ok_of_toOption (by decide +kernel)
  obtain rfl := Except.ok.inj (alone.symm.trans judged)
  exact absurd (agrees.1.mp rfl) (by decide)

end BugHunt.Proofs.TestOnly
