import BugHunt.Proofs.Keeping
/-!
Checks of whole programs on a bench: a key with a marker is answered at once, and a check that
succeeds tallies the verdicts that go with the keys of the program.
-/

namespace BugHunt.Proofs.Tallying
open Trees Texts Names Places Runs Bench Growth Outcomes Building Judging Caching Keeping

variable {b : Bench} {c : Config} {s : State} {told : String → Option Classification}
  {a : Artifact}

theorem ofPath?_path (a : Artifact) : Artifact.ofPath? a.path = some a := by
  unfold Artifact.ofPath?
  split
  · rename_i none
    simp [a.kind_of_path] at none
  · rename_i kind isKind
    obtain rfl := Option.some.inj (a.kind_of_path.symm.trans isKind)
    rfl

theorem path_of_ofPath? {path : Path} (isProgram : Artifact.ofPath? path = some a) : path = a.path := by
  unfold Artifact.ofPath? at isProgram
  split at isProgram
  · cases isProgram
  · exact congrArg Artifact.path (Option.some.inj isProgram)

theorem ok_of_toOption {r : Except ε α} {value : α} (isOk : r.toOption = some value) :
    r = .ok value := by
  cases r with
  | error e => cases isOk
  | ok other => exact congrArg _ (Option.some.inj isOk)

/-- The plan for a variant in the cache. -/
def planOf (c : Config) (a : Artifact) (source : Bytes) (flags : List String) : Plan :=
  Plan.ofContent c.extraArgs (cacheOf c).irDir a flags source

/-- The keys of a program, as its bytes are now. -/
def keysOf (b : Bench) (c : Config) (s : State) (a : Artifact) : List String :=
  match b.readAt s a.path with
  | .ok source => (flagSets c a).map fun flags => (planOf c a source flags).key
  | .error _ => []

/-- Whether the verdicts on a program, as its bytes are now, are those that are told. -/
def Tells (b : Bench) (c : Config) (told : String → Option Classification) (a : Artifact)
    (source : Bytes) : Prop :=
  ∀ flags ∈ flagSets c a, told (planOf c a source flags).key = reached b c a flags source

theorem readAt_ok {p : Path} {source : Bytes} (isRead : b.readAt s p = .ok source) :
    endsIdle p = false ∧ content s.tree (b.place p) = some source := by
  unfold readAt at isRead
  split at isRead
  · cases isRead
  · rename_i named
    exact ⟨by simpa using named, by rw [content, isRead]; rfl⟩

theorem readAt_of_content {p : Path} {source : Bytes} (named : endsIdle p = false)
    (there : content s.tree (b.place p) = some source) : b.readAt s p = .ok source := by
  obtain ⟨executable, isFile⟩ := content_eq_some.mp there
  rw [readAt_of_endsIdle named, read_ok isFile]

theorem readAt_of_node? {t : State} {p : Path}
    (same : t.tree.node? (b.place p) = s.tree.node? (b.place p)) :
    b.readAt t p = b.readAt s p := by
  simp only [readAt, Trees.read, same]

theorem exec_plan (outDir : Path) (flags : List String) :
    exec b.host s (Compile.plan c outDir a flags) =
      (((b.readAt s a.path).mapError (.files a.path)).map
        (Plan.ofContent c.extraArgs outDir a flags), s) := by
  unfold Compile.plan
  rw [exec_bind, exec_orFail, run_read]
  cases b.readAt s a.path <;> rfl

/-! ## One variant -/

/-- A variant whose key has a marker is answered from it: nothing is started and no file
changes. -/
theorem variant_hit {flags : List String} {source : Bytes} {ending : String}
    {verdict : Classification} (isRead : b.readAt s a.path = .ok source)
    (ends : Cache.markerEnding? verdict = some ending)
    (there : s.tree.node? (markerPlace b c (planOf c a source flags).key ending) ≠ none)
    (sum : Summary) :
    ∃ answer another, Cache.markerEnding? answer = some another ∧
      s.tree.node? (markerPlace b c (planOf c a source flags).key another) ≠ none ∧
      exec b.host s (Check.variant c (cacheOf c) a flags sum) =
        (.ok (sum.withCacheHit.record answer), s) := by
  obtain ⟨found, ran, finds⟩ := @lookup_spec b c s (planOf c a source flags).key (key_stem ..)
  cases found with
  | none => exact absurd (finds ending verdict ends) there
  | some answer =>
    obtain ⟨another, answerEnds, marker⟩ := finds
    refine ⟨answer, another, answerEnds, marker, ?_⟩
    unfold Check.variant
    rw [exec_bind, exec_monadLift, run_isCancelled]
    simp only [Bool.false_eq_true, if_false]
    rw [exec_bind, exec_adapt, exec_plan, isRead]
    simp only [mapError_ok, Except.map]
    rw [exec_bind, exec_lift]
    simp only [planOf] at ran
    rw [ran]
    exact exec_report ..

theorem variant_unread {flags : List String} {cause : Failure} {sum : Summary}
    (unread : b.readAt s a.path = .error cause) :
    exec b.host s (Check.variant c (cacheOf c) a flags sum) =
      (.error (.compile (.files a.path cause)), s) := by
  unfold Check.variant
  rw [exec_bind, exec_monadLift, run_isCancelled]
  simp only [Bool.false_eq_true, if_false]
  rw [exec_bind, exec_adapt, exec_plan, unread]
  rfl

theorem variant_held (grounds : Grounds b c) {flags : List String} {source : Bytes}
    (sound : Sound b c told s.tree.node?) (rooted : Rooted b c s.tree.node?)
    (grown : Grown s.tree.node?) (isRead : b.readAt s a.path = .ok source)
    (tells : told (planOf c a source flags).key = reached b c a flags source) (sum : Summary) :
    ∃ r t, exec b.host s (Check.variant c (cacheOf c) a flags sum) = (r, t) ∧
      Held b c told a s.tree.node? t.tree.node? ∧
      Counted told (planOf c a source flags).key sum r := by
  by_cases hit : ∃ verdict ending, Cache.markerEnding? verdict = some ending ∧
      s.tree.node? (markerPlace b c (planOf c a source flags).key ending) ≠ none
  · obtain ⟨verdict, ending, ends, there⟩ := hit
    obtain ⟨answer, another, answerEnds, marker, ran⟩ := variant_hit isRead ends there sum
    refine ⟨_, _, ran, .refl sound, fun sum' same => ⟨answer, ?_, ?_⟩⟩
    · exact sound.marker (key_stem ..) answerEnds marker
    · obtain rfl := Except.ok.inj same
      exact @counts_record sum.withCacheHit sum rfl answer
  · obtain ⟨named, there⟩ := readAt_ok isRead
    obtain ⟨found, ran, finds⟩ := @lookup_spec b c s (planOf c a source flags).key (key_stem ..)
    cases found with
    | some answer =>
      obtain ⟨another, answerEnds, marker⟩ := finds
      exact absurd ⟨answer, another, answerEnds, marker⟩ hit
    | none =>
      obtain ⟨r, t, ranFresh, held, counted⟩ := @fresh_held b c s told a grounds flags source _
        sound rooted grown rfl named there tells sum
      refine ⟨r, t, ?_, held, counted⟩
      unfold Check.variant
      rw [exec_bind, exec_monadLift, run_isCancelled]
      simp only [Bool.false_eq_true, if_false]
      rw [exec_bind, exec_adapt, exec_plan, isRead]
      simp only [mapError_ok, Except.map]
      rw [exec_bind, exec_lift]
      simp only [planOf] at ran
      rw [ran]
      exact ranFresh

/-! ## All variants -/

/-- A result counts the verdicts that are told of keys. -/
def Tallied (told : String → Option Classification) (keys : List String) (sum : Summary)
    (r : Except PipelineError Summary) : Prop :=
  ∀ sum', r = .ok sum' → ∃ verdicts : List Classification, keys.map told = verdicts.map some ∧
    counts sum' = counts (verdicts.foldl Summary.record sum)

theorem Tallied.error {keys : List String} {sum : Summary} (e : PipelineError) :
    Tallied told keys sum (.error e) := fun _ same => by cases same

theorem counts_foldl {x y : Summary} (same : counts x = counts y)
    (verdicts : List Classification) :
    counts (verdicts.foldl Summary.record x) = counts (verdicts.foldl Summary.record y) := by
  induction verdicts generalizing x y with
  | nil => exact same
  | cons verdict rest ih => exact ih (counts_record same verdict)

/-- Two tallies of the same keys count the same. -/
theorem Tallied.unique {keys : List String} {sum x y : Summary} {r u : Except PipelineError Summary}
    (first : Tallied told keys sum r) (second : Tallied told keys sum u) (isX : r = .ok x)
    (isY : u = .ok y) : counts x = counts y := by
  obtain ⟨verdicts, named, counted⟩ := first x isX
  obtain ⟨others, namedToo, countedToo⟩ := second y isY
  have same : verdicts = others :=
    List.map_inj_right (fun _ _ => Option.some.inj) |>.mp (named.symm.trans namedToo)
  rw [counted, countedToo, same]

/-- What checking one flag set after another keeps. A program in IR has one flag set only, since
judging it may write beside it. -/
theorem each_held (grounds : Grounds b c) {source : Bytes} {sets : List (List String)}
    (again : a.isSource ∨ sets.length ≤ 1)
    (sound : Sound b c told s.tree.node?) (rooted : Rooted b c s.tree.node?)
    (grown : Grown s.tree.node?) (isRead : sets ≠ [] → b.readAt s a.path = .ok source)
    (tells : ∀ flags ∈ sets, told (planOf c a source flags).key = reached b c a flags source)
    (sum : Summary) :
    ∃ r t, exec b.host s (Check.each c (cacheOf c) a sets sum) = (r, t) ∧
      Held b c told a s.tree.node? t.tree.node? ∧
      Tallied told (sets.map fun flags => (planOf c a source flags).key) sum r := by
  induction sets generalizing s sum with
  | nil =>
    refine ⟨.ok sum, s, rfl, .refl sound, ?_⟩
    rintro sum' same
    obtain rfl := Except.ok.inj same
    exact ⟨[], rfl, rfl⟩
  | cons flags rest ih =>
    obtain ⟨r, t, ran, held, counted⟩ := variant_held grounds sound rooted grown
      (isRead (by simp)) (tells flags (by simp)) sum
    unfold Check.each
    rw [exec_bind, ran]
    cases r with
    | error e => exact ⟨_, _, rfl, held, .error e⟩
    | ok next =>
      have stillRead : rest ≠ [] → b.readAt t a.path = .ok source := by
        intro more
        have isSource : a.isSource := by
          refine again.resolve_right fun short => more ?_
          simpa using short
        rw [readAt_of_node? (held.source isSource)]
        exact isRead (by simp)
      have againRest : a.isSource ∨ rest.length ≤ 1 := by
        refine again.imp_right fun short => ?_
        simp only [List.length_cons] at short
        omega
      obtain ⟨result, u, ranRest, heldRest, tallied⟩ := ih againRest held.sound
        (rooted.steady held.steady) (exec_grown grown ran) stillRead
        (fun flags' more => tells flags' (List.mem_cons_of_mem _ more)) next
      refine ⟨result, u, ranRest, held.trans heldRest, ?_⟩
      intro sum' same
      obtain ⟨verdict, isVerdict, one⟩ := counted next rfl
      obtain ⟨verdicts, named, others⟩ := tallied sum' same
      refine ⟨verdict :: verdicts, ?_, ?_⟩
      · simp only [List.map_cons, isVerdict, named]
      · rw [others]
        exact counts_foldl one verdicts

theorem flagSets_again (c : Config) (a : Artifact) : a.isSource ∨ (flagSets c a).length ≤ 1 := by
  unfold flagSets
  by_cases isSource : a.isSource
  · exact .inl isSource
  · right
    simp [isSource]

/-- What a check of a program's variants keeps, and what it counts. -/
theorem variants_held (grounds : Grounds b c) (sound : Sound b c told s.tree.node?)
    (rooted : Rooted b c s.tree.node?) (grown : Grown s.tree.node?)
    (tells : ∀ source, b.readAt s a.path = .ok source → Tells b c told a source) :
    ∃ r t, exec b.host s (Check.variants c (cacheOf c) a) = (r, t) ∧
      Held b c told a s.tree.node? t.tree.node? ∧ Tallied told (keysOf b c s a) .zero r := by
  have again := flagSets_again c a
  unfold Check.variants keysOf
  cases isRead : b.readAt s a.path with
  | ok source =>
    exact each_held grounds again sound rooted grown (fun _ => isRead) (tells source isRead) .zero
  | error cause =>
    cases sets : flagSets c a with
    | nil =>
      refine ⟨.ok .zero, s, rfl, .refl sound, ?_⟩
      rintro sum' same
      obtain rfl := Except.ok.inj same
      exact ⟨[], rfl, rfl⟩
    | cons flags rest =>
      unfold Check.each
      rw [exec_bind, variant_unread isRead]
      exact ⟨_, _, rfl, .refl sound, .error _⟩

/-- A check that succeeds has read the program, if there was anything to check. -/
theorem read_of_ok {sum : Summary} (some : flagSets c a ≠ [])
    (isOk : (exec b.host s (Check.variants c (cacheOf c) a)).1 = .ok sum) :
    ∃ source, b.readAt s a.path = .ok source := by
  cases isRead : b.readAt s a.path with
  | ok source => exact ⟨source, rfl⟩
  | error cause =>
    unfold Check.variants at isOk
    cases sets : flagSets c a with
    | nil => exact absurd sets some
    | cons flags rest =>
      rw [sets] at isOk
      unfold Check.each at isOk
      rw [exec_bind, variant_unread isRead] at isOk
      cases isOk

/-! ## A whole check -/

theorem blank_of_nodes
    (nodes : ∀ entry ∈ s.tree.nodes, ¬ b.place c.cacheRoot <+: entry.1) : Blank b c s.tree.node? := by
  intro q slot
  obtain ⟨directory, name, rfl, -, -⟩ := slot.form
  by_cases there : s.tree.node? (b.place c.cacheRoot ++ [directory, name]) = none
  · exact there
  · rcases mem_nodes there with root | ⟨node, found⟩
    · simp at root
    · exact absurd (List.prefix_append _ _) (nodes _ found)

/-- Whether a place is one that leads to the directories of the cache. -/
def Approach (b : Bench) (c : Config) (q : Place) : Prop :=
  q <+: b.place (cacheOf c).irDir ∨ q <+: b.place (cacheOf c).resultsDir

/-- What opening the cache keeps: directories that lead to it may be new, but none of them where a
check looks into the cache. -/
structure Opened (b : Bench) (c : Config) (v w : View) : Prop where
  kept : ∀ q, v q ≠ none → w q = v q
  new : ∀ q, w q ≠ v q → w q = some .directory
  way : ∀ q, w q ≠ v q → Approach b c q
  slots : ∀ q, Slot b c q → w q = v q

theorem Opened.refl (v : View) : Opened b c v v :=
  ⟨fun _ _ => rfl, fun _ h => absurd rfl h, fun _ h => absurd rfl h, fun _ _ => rfl⟩

theorem Opened.trans {u v w : View} (h : Opened b c u v) (k : Opened b c v w) :
    Opened b c u w := by
  refine ⟨fun q there => ?_, fun q changed => ?_, fun q changed => ?_, fun q slot => ?_⟩
  · have same := h.kept q there
    rw [k.kept q (same ▸ there), same]
  · by_cases same : w q = v q
    · rw [same] at changed ⊢
      exact h.new q changed
    · exact k.new q same
  · by_cases same : w q = v q
    · exact h.way q (same ▸ changed)
    · exact k.way q same
  · exact (k.slots q slot).trans (h.slots q slot)

theorem opened_of_extends {v w : View} {place : Place} (more : Extends v w place)
    (way : place = b.place (cacheOf c).irDir ∨ place = b.place (cacheOf c).resultsDir) :
    Opened b c v w where
  kept := more.kept
  new q changed := (more.new q changed).2
  way q changed := by
    have inside := (more.new q changed).1
    obtain rfl | rfl := way
    · exact .inl inside
    · exact .inr inside
  slots := by
    refine slot_of_extends more ?_
    obtain rfl | rfl := way
    · simp [place_irDir]
    · simp [place_resultsDir]

theorem Opened.steady {v w : View} (h : Opened b c v w) (q : Place) (there : v.directory q) :
    w.directory q := by
  have some : v q ≠ none := by
    intro none
    simp [View.directory, none] at there
  rwa [View.directory, h.kept q some]

/-- New directories are no new content. -/
theorem Opened.readAt_iff {t : State} (h : Opened b c s.tree.node? t.tree.node?) (p : Path)
    (source : Bytes) : b.readAt t p = .ok source ↔ b.readAt s p = .ok source := by
  by_cases same : t.tree.node? (b.place p) = s.tree.node? (b.place p)
  · rw [readAt_of_node? same]
  · have made := h.new _ same
    have missing : s.tree.node? (b.place p) = none := by
      by_cases there : s.tree.node? (b.place p) = none
      · exact there
      · exact absurd (h.kept _ there) same
    simp only [readAt, Trees.read, made, missing]
    split <;> simp

theorem Opened.keysOf {t : State} (h : Opened b c s.tree.node? t.tree.node?) (a : Artifact) :
    keysOf b c t a = keysOf b c s a := by
  unfold Tallying.keysOf
  cases isRead : b.readAt s a.path with
  | ok source => rw [(h.readAt_iff _ _).mpr isRead]
  | error cause =>
    cases isReadNow : b.readAt t a.path with
    | ok source =>
      rw [h.readAt_iff, isRead] at isReadNow
      cases isReadNow
    | error cause => rfl

theorem createDirectories_opened (p : Path) (toError : Failure → CacheError)
    (way : p = (cacheOf c).irDir ∨ p = (cacheOf c).resultsDir) :
    ∃ r t, exec b.host s (Action.orFail (Program.createDirectories p) toError) = (r, t) ∧
      Opened b c s.tree.node? t.tree.node? ∧
      ∀ value, r = .ok value → View.directory t.tree.node? (b.place p) := by
  rw [exec_orFail, run_createDirectories]
  cases made : Trees.createDirectories s.tree (b.place p) with
  | error cause => exact ⟨_, _, rfl, .refl _, fun _ same => by cases same⟩
  | ok u =>
    obtain ⟨more, there⟩ := createDirectories_spec made
    exact ⟨_, _, rfl, opened_of_extends more (way.imp (congrArg _) (congrArg _)), fun _ _ => there⟩

theorem open_spec :
    ∃ r t, exec b.host s (Cache.open c.cacheRoot) = (r, t) ∧
      Opened b c s.tree.node? t.tree.node? ∧
      ∀ cache, r = .ok cache → cache = cacheOf c ∧
        View.directory t.tree.node? (b.place (cacheOf c).irDir) ∧
        View.directory t.tree.node? (b.place (cacheOf c).resultsDir) := by
  obtain ⟨r, t, ran, opened, there⟩ := @createDirectories_opened b c s (cacheOf c).irDir
    (.files (cacheOf c).irDir) (.inl rfl)
  unfold Cache.open
  simp only [cacheOf] at ran
  rw [exec_bind, ran]
  cases r with
  | error e => exact ⟨_, _, rfl, opened, fun _ same => by cases same⟩
  | ok value =>
    obtain ⟨r, u, ran, more, results⟩ := @createDirectories_opened b c t (cacheOf c).resultsDir
      (.files (cacheOf c).resultsDir) (.inr rfl)
    simp only [cacheOf] at ran
    simp only
    rw [exec_bind, ran]
    cases r with
    | error e => exact ⟨_, _, rfl, opened.trans more, fun _ same => by cases same⟩
    | ok value' =>
      refine ⟨_, _, rfl, opened.trans more, fun cache same => ⟨?_, ?_, results value' rfl⟩⟩
      · exact (Except.ok.inj same).symm
      · exact more.steady _ (there value rfl)

theorem rooted_of_irDir {v : View} (grown : Grown v)
    (there : v.directory (b.place (cacheOf c).irDir)) : Rooted b c v := by
  have above := grown.parent there
  rw [place_irDir, List.dropLast_concat] at above
  exact .inl above

theorem program_of_none {path : Path} (isNone : Artifact.ofPath? path = none) :
    Check.program c path = throw (.notAProgram path) := by
  simp only [Check.program, isNone]

theorem program_of_some {path : Path} (isProgram : Artifact.ofPath? path = some a) :
    Check.program c path = (do
      let cache ← (Cache.open c.cacheRoot).adapt .cache
      (Check.variants c cache a).normalized) := by
  simp only [Check.program, isProgram]

theorem normalized_ok {σ α : Type} {host : Host σ} {s : σ} {check : Checking α} {value : α} :
    (exec host s check.normalized).1 = .ok value ↔ (exec host s check).1 = .ok value := by
  rw [Checking.normalized, exec_adapt]
  cases (exec host s check).1 with
  | ok => exact Iff.rfl
  | error => exact iff_of_false nofun nofun

/-- What a check of a program keeps, and what it counts. -/
theorem program_held (grounds : Grounds b c) {path : Path} (isProgram : Artifact.ofPath? path = some a)
    (sound : Sound b c told s.tree.node?) (grown : Grown s.tree.node?)
    (tells : ∀ source, b.readAt s a.path = .ok source → Tells b c told a source) :
    ∃ r t, exec b.host s (Check.program c path) = (r, t) ∧ Sound b c told t.tree.node? ∧
      (∀ q, View.directory s.tree.node? q → View.directory t.tree.node? q) ∧
      Tallied told (keysOf b c s a) .zero r := by
  obtain ⟨r, t, ran, opened, opens⟩ := @open_spec b c s
  have soundThen := sound.of_slots fun q slot => .inl (opened.slots q slot)
  rw [program_of_some isProgram, exec_bind, exec_adapt, ran]
  cases r with
  | error e => exact ⟨_, _, rfl, soundThen, opened.steady, .error _⟩
  | ok cache =>
    obtain ⟨rfl, there, -⟩ := opens cache rfl
    have grownThen := exec_grown grown ran
    obtain ⟨r, u, ran, held, tallied⟩ := variants_held grounds soundThen
      (rooted_of_irDir grownThen there) grownThen
      fun source isRead => tells source ((opened.readAt_iff _ _).mp isRead)
    simp only [mapError_ok]
    rw [Checking.normalized, exec_adapt, ran]
    refine ⟨_, _, rfl, held.sound, fun q h => held.steady q (opened.steady q h), ?_⟩
    rw [opened.keysOf] at tallied
    cases r with
    | error e => exact .error _
    | ok sum => exact tallied

/-- A reset leaves the cache as it is or leaves nothing of it. -/
theorem reset_spec :
    ∃ r t, exec b.host s (cacheOf c).reset = (r, t) ∧
      (t = s ∨ Blank b c t.tree.node?) := by
  unfold exec Cache.reset
  rw [ExceptT.run_mk, run_bind, run_removeTree]
  cases removed : Trees.removeTree s.tree (b.place (cacheOf c).root) with
  | error cause => exact ⟨_, _, rfl, .inl rfl⟩
  | ok u =>
    refine ⟨_, _, rfl, .inr fun q slot => ?_⟩
    obtain ⟨directory, name, rfl, -, -⟩ := slot.form
    exact removeTree_below removed (List.prefix_append _ _) (by simp)

end BugHunt.Proofs.Tallying
