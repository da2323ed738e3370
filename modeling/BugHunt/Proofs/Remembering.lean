import Mathlib.Logic.Function.Basic
import BugHunt.Proofs.Exclusion
import BugHunt.Proofs.Growth
/-!
The cache as a map from keys to verdicts. Whatever calls are made on the cache at one root, the
markers there are those of a map: a lookup finds the verdict that was last stored on its key since
the last reset. Keys are names of files, and the name of a marker is its key with an ending; no two
keys share a marker, though one of them may go on where the other ends.
-/

namespace BugHunt.Proofs.Remembering
open Trees Texts Places Runs Bench Growth Caching Exclusion

/-- The calls on a cache. -/
inductive Call where
  | opens
  | stores (key : String) (verdict : Classification)
  | looksUp (key : String)
  | resets
  deriving DecidableEq, Repr

/-- What calls come back with. -/
inductive Reply where
  | opened (r : Except CacheError Cache)
  | stored (r : Except CacheError Unit)
  | found (verdict : Option Classification)
  | cleared (r : Except CacheError Unit)

/-- A call on the cache at a root. -/
def Call.program (root : Path) : Call → Program Reply
  | opens => .opened <$> (Cache.open root).run
  | stores key verdict => .stored <$> (Cache.store ⟨root⟩ key verdict).run
  | looksUp key => .found <$> Cache.lookup ⟨root⟩ key
  | resets => .cleared <$> (Cache.reset ⟨root⟩).run

/-- Whether the key of a call is the name of a file. -/
def Call.Named : Call → Prop
  | stores key _ | looksUp key => '/' ∉ key.toList
  | opens | resets => True

/-- One more call, with its reply put before those of the earlier ones. -/
def serve (host : Host σ) (root : Path) (now : List (Call × Reply) × σ) (call : Call) :
    List (Call × Reply) × σ :=
  ((call, ((call.program root).run host now.2).1) :: now.1,
    ((call.program root).run host now.2).2)

/-- Calls one after the other, with their replies, the latest first. -/
def play (host : Host σ) (root : Path) (s : σ) (calls : List Call) : List (Call × Reply) × σ :=
  calls.foldl (serve host root) ([], s)

/-- The verdict that was last stored on a key since the last reset, the latest call first. -/
def lastStored (key : String) : List (Call × Reply) → Option Classification
  | [] => none
  | (.resets, .cleared (.ok ())) :: _ => none
  | (.stores other verdict, .stored (.ok ())) :: earlier =>
    if other = key then some verdict else lastStored key earlier
  | _ :: earlier => lastStored key earlier

variable {b : Bench} {root : Path} {s : State} {m : String → Option Classification}
  {key : String} {verdict : Classification}

/-- Whether the markers at a root are those of a map. -/
structure Recorded (b : Bench) (root : Path) (m : String → Option Classification)
    (t : FileTree) : Prop where
  marked : ∀ {key}, '/' ∉ key.toList →
    ∀ verdict, Marked b ⟨root⟩ key verdict t ↔ m key = some verdict
  plain : ∀ {key}, '/' ∉ key.toList → Plain b ⟨root⟩ key t

/-! ## What a map of markers tells -/

theorem Recorded.lookup (recorded : Recorded b root m s.tree) (clean : '/' ∉ key.toList) :
    (Cache.lookup ⟨root⟩ key).run b.host s = (m key, s) := by
  have marked := recorded.marked clean
  cases found : m key with
  | none =>
    apply lookup_of_unmarked
    intro verdict
    rw [marked, found]
    simp
  | some verdict =>
    refine lookup_of_marked ((marked verdict).mpr found) fun other differ => ?_
    rw [marked, found, Option.some.injEq]
    exact differ.symm

theorem Recorded.single (recorded : Recorded b root m s.tree) (clean : '/' ∉ key.toList) :
    ¬ Torn b ⟨root⟩ key s.tree := by
  rintro ⟨good, bad⟩
  rw [recorded.marked clean] at good bad
  rw [good] at bad
  cases bad

/-- Where there are no markers, they are those of the empty map. -/
theorem recorded_of_bare {t : FileTree}
    (bare : ∀ key verdict, '/' ∉ key.toList → ¬ Marked b ⟨root⟩ key verdict t) :
    Recorded b root (fun _ => none) t where
  marked := fun clean verdict => by simp [bare _ verdict clean]
  plain := by
    intro key clean verdict p isMarker
    have missing : t.node? (b.place p) = none := by
      simpa [Marked.iff isMarker, Trees.exists] using bare key verdict clean
    exact View.directory_of_none missing

/-- Markers are kept where nothing changes at their places. -/
theorem marked_congr {cache : Cache} {t u : FileTree}
    (same : ∀ verdict p, cache.markerPath? key verdict = some p →
      u.node? (b.place p) = t.node? (b.place p)) :
    (∀ verdict, Marked b cache key verdict u ↔ Marked b cache key verdict t) ∧
      (Plain b cache key t → Plain b cache key u) := by
  refine ⟨fun verdict => ⟨?_, ?_⟩, fun plain verdict p isMarker => ?_⟩
  · rintro ⟨p, isMarker, there⟩
    exact ⟨p, isMarker, by rwa [Trees.exists, ← same _ _ isMarker]⟩
  · rintro ⟨p, isMarker, there⟩
    exact ⟨p, isMarker, by rwa [Trees.exists, same _ _ isMarker]⟩
  · rw [View.directory, same _ _ isMarker]
    exact plain verdict p isMarker

/-! ## Storing -/

/-- A call that stores a verdict leaves its marker and takes the opposite one away, or it finds no
directory to leave its marker in and changes nothing. -/
theorem store_cases {cache : Cache} (plain : Plain b cache key s.tree)
    (storable : verdict ≠ .interesting) :
    ∃ other p q, Cache.opposite? verdict = some other ∧
      cache.markerPath? key verdict = some p ∧ cache.markerPath? key other = some q ∧
      ((∃ t, exec b.host s (cache.store key verdict) = (.ok (), t) ∧
          Change (fun place => place = b.place p ∨ place = b.place q) s.tree.node? t.tree.node? ∧
          Trees.exists t.tree (b.place p) ∧ View.directory t.tree.node? (b.place p) = false ∧
          t.tree.node? (b.place q) = none) ∨
        ∃ e, exec b.host s (cache.store key verdict) = (.error e, s) ∧
          View.writable s.tree.node? (b.place p) = false) := by
  obtain ⟨other, p, q, opposite, isMarker, isOther⟩ := @opposite_markers cache key _ storable
  refine ⟨other, p, q, opposite, isMarker, isOther, ?_⟩
  obtain ⟨next, asks, marks, fails⟩ := store_asks opposite isMarker isOther
  have first : exec b.host s (cache.store key verdict) =
      (next (Bench.change s (touch s.tree (b.place p))).1).run b.host
        (Bench.change s (touch s.tree (b.place p))).2 := by
    rw [exec, asks]
    rfl
  rcases touch_spec (plain _ _ isMarker) with
    ⟨u, touched, there, stillPlain⟩ | ⟨⟨cause, refused⟩, free⟩
  · have differ := markerPlace_ne (b := b) (opposite_ne opposite) isOther isMarker
    have left := touch_change touched
    have otherPlain : View.directory u.node? (b.place q) = false := by
      rw [View.directory, left.elsewhere _ differ]
      exact plain _ _ isOther
    obtain ⟨next, asks, clears, missing⟩ := clearing_asks q
    have second : exec b.host s (cache.store key verdict) =
        (next (Bench.change { s with tree := u } (remove u (b.place q))).1).run b.host
          (Bench.change { s with tree := u } (remove u (b.place q))).2 := by
      rw [first, touched]
      show (_ : Program _).run b.host { s with tree := u } = _
      rw [show (Bench.change s (.ok u)).1 = .ok () from rfl, marks, asks]
      rfl
    left
    rcases remove_spec otherPlain with ⟨w, removed, change, gone⟩ | ⟨cause, refused, isMissing, gone⟩
    · refine ⟨{ s with tree := w }, ?_, ?_, ?_, ?_, gone⟩
      · rw [second, removed]
        exact congrArg (Program.run b.host { s with tree := w }) clears
      · exact (left.mono fun _ => .inl).trans (change.mono fun _ => .inr)
      · rwa [Trees.exists, change.elsewhere _ differ.symm]
      · rwa [View.directory, change.elsewhere _ differ.symm]
    · refine ⟨{ s with tree := u }, ?_, left.mono fun _ => .inl, there, stillPlain, gone⟩
      rw [second, refused]
      exact congrArg (Program.run b.host { s with tree := u }) (missing cause isMissing)
  · right
    refine ⟨.files p cause, ?_, free⟩
    rw [first, refused]
    exact congrArg (Program.run b.host s) (fails cause)

theorem store_interesting (cache : Cache) (key : String) :
    exec b.host s (cache.store key .interesting) = (.error (.notCacheable .interesting), s) := rfl

/-- Storing enters the verdict in the map, or it changes nothing. -/
theorem Recorded.store (recorded : Recorded b root m s.tree) (clean : '/' ∉ key.toList)
    (verdict : Classification) :
    (∃ t, exec b.host s (Cache.store ⟨root⟩ key verdict) = (.ok (), t) ∧
        Recorded b root (Function.update m key (some verdict)) t.tree) ∨
      ∃ e, exec b.host s (Cache.store ⟨root⟩ key verdict) = (.error e, s) := by
  by_cases storable : verdict = .interesting
  · subst storable
    exact .inr ⟨_, store_interesting _ key⟩
  obtain ⟨other, p, q, opposite, isMarker, isOther, ends⟩ :=
    store_cases (recorded.plain clean) storable
  rcases ends with ⟨t, ran, change, there, stillPlain, gone⟩ | ⟨e, ran, -⟩
  · left
    refine ⟨t, ran, ?_, ?_⟩
    · intro key' clean' verdict'
      by_cases same : key' = key
      · subst same
        rw [Function.update_self, Option.some.injEq]
        by_cases own : verdict' = verdict
        · subst own
          exact ⟨fun _ => rfl, fun _ => (Marked.iff isMarker).mpr there⟩
        · refine ⟨?_, fun same => absurd same.symm own⟩
          rintro ⟨path, isPath, here⟩
          obtain rfl := eq_opposite opposite own isPath
          obtain rfl := Option.some.inj (isOther.symm.trans isPath)
          rw [Trees.exists, gone] at here
          cases here
      · rw [Function.update_of_ne same, ← recorded.marked clean' verdict']
        refine (marked_congr fun another path isPath => change.elsewhere _ ?_).1 verdict'
        rintro (atMarker | atOther)
        · exact marker_of_other clean clean' same isMarker isPath atMarker
        · exact marker_of_other clean clean' same isOther isPath atOther
    · intro key' clean'
      by_cases same : key' = key
      · subst same
        intro another path isPath
        by_cases own : another = verdict
        · subst own
          obtain rfl := Option.some.inj (isMarker.symm.trans isPath)
          exact stillPlain
        · obtain rfl := eq_opposite opposite own isPath
          obtain rfl := Option.some.inj (isOther.symm.trans isPath)
          exact View.directory_of_none gone
      · refine (marked_congr fun another path isPath => change.elsewhere _ ?_).2
          (recorded.plain clean')
        rintro (atMarker | atOther)
        · exact marker_of_other clean clean' same isMarker isPath atMarker
        · exact marker_of_other clean clean' same isOther isPath atOther
  · exact .inr ⟨e, ran⟩

/-- Where the directory of the markers is, a verdict can be stored. -/
theorem Recorded.storable (recorded : Recorded b root m s.tree) (clean : '/' ∉ key.toList)
    (housed : View.directory s.tree.node? (b.place (Cache.resultsDir ⟨root⟩)))
    (storable : verdict ≠ .interesting) :
    (exec b.host s (Cache.store ⟨root⟩ key verdict)).1 = .ok () := by
  obtain ⟨other, p, q, -, isMarker, -, ends⟩ := store_cases (recorded.plain clean) storable
  rcases ends with ⟨t, ran, -⟩ | ⟨e, -, refused⟩
  · rw [ran]
  · obtain ⟨ending, -, place⟩ := place_markerPath (b := b) clean isMarker
    rw [View.writable, recorded.plain clean _ _ isMarker, place, List.dropLast_concat, housed] at refused
    cases refused

/-! ## Opening -/

/-- Directories are made on the way to a place, and nothing lies beyond it. -/
theorem createDirectories_beyond {p : Path} {toError : Failure → CacheError} :
    ∃ r t, exec b.host s (Action.orFail (Program.createDirectories p) toError) = (r, t) ∧
      (∀ q, s.tree.node? q ≠ none ∨ (b.place p).length < q.length →
        t.tree.node? q = s.tree.node? q) ∧
      (r = .ok () → View.directory t.tree.node? (b.place p)) := by
  rw [exec_orFail, run_createDirectories]
  cases made : createDirectories s.tree (b.place p) with
  | error cause => exact ⟨_, _, rfl, fun _ _ => rfl, fun same => by cases same⟩
  | ok u =>
    obtain ⟨more, there⟩ := createDirectories_spec made
    refine ⟨_, _, rfl, ?_, fun _ => there⟩
    rintro q (taken | long)
    · exact more.kept q taken
    · by_cases same : u.node? q = s.tree.node? q
      · exact same
      · have := (more.new q same).1.length_le
        omega

/-- Opening makes directories and nothing else. -/
theorem open_cases (b : Bench) (root : Path) (s : State) :
    ∃ r t, exec b.host s (Cache.open root) = (r, t) ∧
      (∀ q, s.tree.node? q ≠ none ∨ (b.place root).length + 1 < q.length →
        t.tree.node? q = s.tree.node? q) ∧
      ∀ cache, r = .ok cache → cache = ⟨root⟩ ∧
        View.directory t.tree.node? (b.place (Cache.resultsDir ⟨root⟩)) := by
  obtain ⟨placeIr, placeResults⟩ := place_entries b ⟨root⟩
  obtain ⟨r, t, ran, kept, -⟩ := @createDirectories_beyond b s (Cache.irDir ⟨root⟩)
    (.files (Cache.irDir ⟨root⟩))
  rw [placeIr] at kept
  simp only [List.length_append, List.length_singleton] at kept
  unfold Cache.open
  simp only
  rw [exec_bind, ran]
  cases r with
  | error e => exact ⟨_, _, rfl, kept, fun _ same => by cases same⟩
  | ok value =>
    obtain ⟨r, u, ran, keptToo, there⟩ := @createDirectories_beyond b t (Cache.resultsDir ⟨root⟩)
      (.files (Cache.resultsDir ⟨root⟩))
    rw [placeResults] at keptToo
    simp only [List.length_append, List.length_singleton] at keptToo
    have all (q : Place) (free : s.tree.node? q ≠ none ∨ (b.place root).length + 1 < q.length) :
        u.tree.node? q = s.tree.node? q := by
      have same := kept q free
      rw [← same] at free ⊢
      exact keptToo q free
    simp only
    rw [exec_bind, ran]
    cases r with
    | error e => exact ⟨_, _, rfl, all, fun _ same => by cases same⟩
    | ok value =>
      refine ⟨_, _, rfl, all, fun cache same => ⟨(Except.ok.inj same).symm, there rfl⟩⟩

/-- Opening leaves the map as it is. -/
theorem Recorded.opened (recorded : Recorded b root m s.tree) :
    Recorded b root m (exec b.host s (Cache.open root)).2.tree := by
  obtain ⟨r, t, ran, kept, -⟩ := open_cases b root s
  rw [ran]
  have same {key : String} (clean : '/' ∉ key.toList) := @marked_congr b key ⟨root⟩ s.tree t.tree
    fun verdict p isMarker => by
      obtain ⟨ending, -, place⟩ := place_markerPath (b := b) clean isMarker
      apply kept
      rw [place, (place_entries b ⟨root⟩).2]
      simp
  exact ⟨fun clean verdict => ((same clean).1 verdict).trans (recorded.marked clean verdict),
    fun clean => (same clean).2 (recorded.plain clean)⟩

/-! ## Resetting -/

/-- A marker has the root of the cache above it. -/
theorem root_of_marked {t : FileTree} (grown : Grown t.node?) (clean : '/' ∉ key.toList)
    (marked : Marked b ⟨root⟩ key verdict t) : View.directory t.node? (b.place root) := by
  obtain ⟨p, isMarker, there⟩ := marked
  obtain ⟨ending, -, place⟩ := place_markerPath (b := b) clean isMarker
  have housed : View.directory t.node? (b.place (Cache.resultsDir ⟨root⟩)) := by
    have parent := grown (b.place p) (Option.isSome_iff_ne_none.mp there)
    rwa [place, List.dropLast_concat] at parent
  have parent := grown.parent housed
  rwa [(place_entries b ⟨root⟩).2, List.dropLast_concat] at parent

/-- A reset empties the map, or it changes nothing. -/
theorem reset_cases (root : Path) (grown : Grown s.tree.node?) :
    (∃ t, exec b.host s (Cache.reset ⟨root⟩) = (.ok (), t) ∧
        Recorded b root (fun _ => none) t.tree) ∨
      ∃ e, exec b.host s (Cache.reset ⟨root⟩) = (.error e, s) := by
  unfold exec Cache.reset
  rw [ExceptT.run_mk, run_bind, run_removeTree]
  cases removed : removeTree s.tree (b.place root) with
  | ok u =>
    refine .inl ⟨_, rfl, recorded_of_bare ?_⟩
    rintro key verdict clean ⟨p, isMarker, there⟩
    obtain ⟨ending, -, place⟩ := place_markerPath (b := b) clean isMarker
    have below : b.place root <+: b.place p := by
      rw [place, (place_entries b ⟨root⟩).2, List.append_assoc]
      exact List.prefix_append ..
    have gone := removeTree_below removed below (by simp [place])
    change (u.node? (b.place p)).isSome at there
    rw [gone] at there
    cases there
  | error cause =>
    by_cases missing : cause.isMissing
    · have free : View.directory s.tree.node? (b.place root) = false := by
        unfold removeTree at removed
        split at removed
        · exact View.directory_of_none ‹_›
        · split at removed
          · cases removed
          · obtain rfl := Except.error.inj removed
            cases missing
      refine .inl ⟨s, ?_, recorded_of_bare fun key verdict clean marked => ?_⟩
      · show (Program.run b.host s (.done (if cause.isMissing then _ else _)) : _) = _
        rw [if_pos missing]
        rfl
      · rw [root_of_marked grown clean marked] at free
        cases free
    · refine .inr ⟨.files root cause, ?_⟩
      show (Program.run b.host s (.done (if cause.isMissing then _ else _)) : _) = _
      rw [if_neg missing]
      rfl

/-! ## Calls one after the other -/

/-- What every call keeps: the tree is a tree, and the markers are those that the calls so far have
left. -/
def Kept (b : Bench) (root : Path) (now : List (Call × Reply) × State) : Prop :=
  Grown now.2.tree.node? ∧ Recorded b root (fun key => lastStored key now.1) now.2.tree

theorem lastStored_stored (past : List (Call × Reply)) (other : String) (verdict : Classification) :
    (fun key => lastStored key ((.stores other verdict, .stored (.ok ())) :: past)) =
      Function.update (fun key => lastStored key past) other (some verdict) := by
  funext key
  by_cases same : key = other
  · subst same
    simp [lastStored]
  · rw [Function.update_of_ne same]
    simp [lastStored, Ne.symm same]

theorem Kept.serve {now : List (Call × Reply) × State} (kept : Kept b root now) {call : Call}
    (named : call.Named) : Kept b root (serve b.host root now call) := by
  obtain ⟨grown, recorded⟩ := kept
  refine ⟨run_grown _ grown, ?_⟩
  unfold Remembering.serve Call.program
  cases call with
  | opens =>
    simp only [map_eq_pure_bind, run_bind, run_pure]
    exact recorded.opened
  | looksUp key =>
    have unchanged := recorded.lookup named
    have same : ((Cache.lookup ⟨root⟩ key).run b.host now.2).2 = now.2 := by rw [unchanged]
    simp only [map_eq_pure_bind, run_bind, run_pure, same]
    exact recorded
  | stores key verdict =>
    simp only [map_eq_pure_bind, run_bind, run_pure]
    rcases recorded.store named verdict with ⟨t, ran, entered⟩ | ⟨e, ran⟩
    · rw [exec] at ran
      rw [ran, lastStored_stored]
      exact entered
    · rw [exec] at ran
      rw [ran]
      exact recorded
  | resets =>
    simp only [map_eq_pure_bind, run_bind, run_pure]
    rcases reset_cases root grown with ⟨t, ran, emptied⟩ | ⟨e, ran⟩
    · rw [exec] at ran
      rw [ran]
      exact emptied
    · rw [exec] at ran
      rw [ran]
      exact recorded

theorem Kept.foldl {now : List (Call × Reply) × State} (kept : Kept b root now) {calls : List Call}
    (named : ∀ call ∈ calls, call.Named) : Kept b root (calls.foldl (Remembering.serve b.host root) now) := by
  induction calls generalizing now with
  | nil => exact kept
  | cons call rest ih =>
    exact ih (kept.serve (named call List.mem_cons_self))
      fun later among => named later (List.mem_cons_of_mem _ among)

theorem play_kept (grown : Grown s.tree.node?)
    (bare : ∀ key verdict, '/' ∉ key.toList → ¬ Marked b ⟨root⟩ key verdict s.tree)
    {calls : List Call} (named : ∀ call ∈ calls, call.Named) :
    Kept b root (play b.host root s calls) :=
  Kept.foldl ⟨grown, recorded_of_bare bare⟩ named

/-- After any calls on a cache that was empty at first, a lookup finds the verdict that was last
stored on its key since the last reset, or nothing. An interesting verdict is refused, and that
changes nothing; what is stored on one key is not seen under another; opening the cache once more
keeps all that is stored; no key has two markers. A verdict is refused for no other reason than that
the directory of the markers is missing, and an open cache has one. -/
theorem markers_form_map (b : Bench) (root : Path) {s : State} (grown : Grown s.tree.node?)
    (bare : ∀ key verdict, '/' ∉ key.toList → ¬ Marked b ⟨root⟩ key verdict s.tree)
    {calls : List Call} (named : ∀ call ∈ calls, call.Named) :
    let now := play b.host root s calls
    (∀ key, '/' ∉ key.toList →
      (Cache.lookup ⟨root⟩ key).run b.host now.2 = (lastStored key now.1, now.2)) ∧
    (∀ key, exec b.host now.2 (Cache.store ⟨root⟩ key .interesting) =
      (.error (.notCacheable .interesting), now.2)) ∧
    (∀ key other verdict, '/' ∉ key.toList → '/' ∉ other.toList → other ≠ key →
      ((Cache.lookup ⟨root⟩ other).run b.host
        (exec b.host now.2 (Cache.store ⟨root⟩ key verdict)).2).1 = lastStored other now.1) ∧
    (∀ key, '/' ∉ key.toList →
      ((Cache.lookup ⟨root⟩ key).run b.host (exec b.host now.2 (Cache.open root)).2).1 =
        lastStored key now.1) ∧
    (∀ key, '/' ∉ key.toList → ¬ Torn b ⟨root⟩ key now.2.tree) ∧
    (∀ key verdict, '/' ∉ key.toList → verdict ≠ .interesting →
      View.directory now.2.tree.node? (b.place (Cache.resultsDir ⟨root⟩)) →
      (exec b.host now.2 (Cache.store ⟨root⟩ key verdict)).1 = .ok ()) ∧
    ∀ cache, (exec b.host now.2 (Cache.open root)).1 = .ok cache → cache = ⟨root⟩ ∧
      View.directory (exec b.host now.2 (Cache.open root)).2.tree.node? (b.place cache.resultsDir) := by
  obtain ⟨-, recorded⟩ := play_kept grown bare named
  refine ⟨fun key clean => recorded.lookup clean, fun key => store_interesting _ key, ?_,
    fun key clean => ?_, fun key clean => recorded.single clean,
    fun key verdict clean storable housed => recorded.storable clean housed storable, ?_⟩
  · intro key other verdict clean cleanOther differ
    rcases recorded.store clean verdict with ⟨t, ran, entered⟩ | ⟨e, ran⟩
    · rw [ran, entered.lookup cleanOther, Function.update_of_ne differ]
    · rw [ran, recorded.lookup cleanOther]
  · rw [recorded.opened.lookup clean]
  · intro cache opened
    obtain ⟨r, t, ran, -, opens⟩ := open_cases b root (play b.host root s calls).2
    rw [ran] at opened ⊢
    obtain ⟨rfl, there⟩ := opens cache opened
    exact ⟨rfl, there⟩

/-! ## Keys that go on where others end -/

/-- A host without files. -/
def bareFloor : State where
  tree := ⟨[]⟩
  started := []
  turns := 0

def entries : List Call :=
  [.opens, .stores "a" .uninteresting, .stores "a.uninteresting" .uncompilable,
    .stores "a" .uncompilable, .stores "a" .interesting, .opens]

/-- Of two keys with like names each keeps its own verdict, and the key between them has none. -/
theorem like_names_kept_apart :
    let now := play (Bench.desk noTools).host "/cache" bareFloor entries
    let look := fun key => (Cache.lookup ⟨"/cache"⟩ key).run (Bench.desk noTools).host now.2
    Grown bareFloor.tree.node? ∧
      (∀ key verdict, '/' ∉ key.toList →
        ¬ Marked (Bench.desk noTools) ⟨"/cache"⟩ key verdict bareFloor.tree) ∧
      (∀ call ∈ entries, call.Named) ∧
      look "a" = (some .uncompilable, now.2) ∧
      look "a.uninteresting" = (some .uncompilable, now.2) ∧
      look "a.nocompile" = (none, now.2) := by
  have grown : Grown bareFloor.tree.node? := grown_of_nodes (by simp [bareFloor])
  have bare : ∀ key verdict, '/' ∉ key.toList →
      ¬ Marked (Bench.desk noTools) ⟨"/cache"⟩ key verdict bareFloor.tree := by
    rintro key verdict clean ⟨p, isMarker, there⟩
    obtain ⟨ending, -, place⟩ := place_markerPath (b := Bench.desk noTools) clean isMarker
    rw [place] at there
    simp [Trees.exists, FileTree.node?, bareFloor] at there
  have named : ∀ call ∈ entries, call.Named := by
    unfold entries
    simp [Call.Named]
  have found := (markers_form_map (Bench.desk noTools) "/cache" grown bare named).1
  refine ⟨grown, bare, named, ?_, ?_, ?_⟩
  · exact (found "a" (by decide)).trans (congrArg (·, _) (by decide))
  · exact (found "a.uninteresting" (by decide)).trans (congrArg (·, _) (by decide))
  · exact (found "a.nocompile" (by decide)).trans (congrArg (·, _) (by decide))

end BugHunt.Proofs.Remembering
