import BugHunt.Proofs.Caching
import BugHunt.Proofs.SideBySide
/-!
Storing verdicts on one key from many sides at once, without a lock. A call leaves its own marker
before it takes away the opposite one, and so of two markers one is gone as soon as no call is left
between its two steps.
-/

namespace BugHunt.Proofs.Exclusion
open Trees Texts Names Places Runs Caching SideBySide

variable {b : Bench} {cache : Cache} {key : String}

/-- Whether the marker for a verdict on a key is there. -/
def Marked (b : Bench) (cache : Cache) (key : String) (verdict : Classification) (t : FileTree) : Prop :=
  ∃ p, cache.markerPath? key verdict = some p ∧ Trees.exists t (b.place p)

/-- Whether both markers are there. -/
def Torn (b : Bench) (cache : Cache) (key : String) (t : FileTree) : Prop :=
  Marked b cache key .uninteresting t ∧ Marked b cache key .uncompilable t

/-- Whether no directory stands in the place of a marker. -/
def Plain (b : Bench) (cache : Cache) (key : String) (t : FileTree) : Prop :=
  ∀ verdict p, cache.markerPath? key verdict = some p → View.directory t.node? (b.place p) = false

/-! ## The places of two markers -/

/-- What stands after the last slash goes on to the end. -/
theorem pieces_of_ending (bytes : Bytes) : ∃ before name, ∀ ending : Bytes, Path.slash ∉ ending →
    2 < ending.length → (⟨bytes ++ ending⟩ : Path).pieces = before ++ [name ++ ending] ∧
      Proper (name ++ ending) := by
  obtain ⟨before, name, pieces⟩ : ∃ before name, (⟨bytes⟩ : Path).pieces = before ++ [name] :=
    ⟨_, _, (List.dropLast_concat_getLast (splitOn_ne_nil Path.slash bytes)).symm⟩
  obtain ⟨lead, isLead, same⟩ := lead_of_pieces pieces
  have clean : Path.slash ∉ name :=
    separator_notMem_piece (show name ∈ (⟨bytes⟩ : Path).pieces by rw [pieces]; simp)
  refine ⟨before, name, fun ending cleanEnd long => ?_⟩
  have cleanAll : Path.slash ∉ name ++ ending := by simp [clean, cleanEnd]
  have proper : Proper (name ++ ending) := by
    refine ⟨?_, ?_, ?_, cleanAll⟩
    all_goals
      intro short
      have length := congrArg List.length short
      simp only [List.length_append, List.length_cons, List.length_nil] at length
      omega
  refine ⟨?_, proper⟩
  have joined := (isLead _ cleanAll).1
  rwa [← List.append_assoc, ← same] at joined

theorem fileName_of_ending (bytes : Bytes) : ∃ name, ∀ ending : Bytes, Path.slash ∉ ending →
    2 < ending.length → (⟨bytes ++ ending⟩ : Path).fileName? = some (name ++ ending) := by
  obtain ⟨before, name, split⟩ := pieces_of_ending bytes
  refine ⟨name, fun ending clean long => ?_⟩
  obtain ⟨pieces, proper⟩ := split ending clean long
  exact fileName_of_pieces proper pieces

theorem markerPath_eq {verdict : Classification} {ending : String}
    (ends : Cache.markerEnding? verdict = some ending) : cache.markerPath? key verdict =
      some (cache.resultsDir / Path.ofString (key ++ "." ++ ending)) := by
  simp [Cache.markerPath?, ends]

/-- The markers of a key have one path, up to their endings. -/
theorem markerPath_bytes (cache : Cache) (key : String) : ∃ bytes : Bytes, ∀ verdict ending,
    Cache.markerEnding? verdict = some ending →
    cache.markerPath? key verdict = some ⟨bytes ++ utf8 ending⟩ := by
  have text (ending : String) : Path.ofString (key ++ "." ++ ending) =
      ⟨utf8 (key ++ ".") ++ utf8 ending⟩ := by
    rw [Path.ofString, utf8_append]
  have named : utf8 (key ++ ".") ≠ [] := by simp [utf8_append, utf8_dot]
  cases absolute : (⟨utf8 (key ++ ".")⟩ : Path).isAbsolute with
  | true =>
    refine ⟨utf8 (key ++ "."), fun verdict ending ends => ?_⟩
    have whole : (⟨utf8 (key ++ ".") ++ utf8 ending⟩ : Path).isAbsolute := by
      rw [isAbsolute_append named, absolute]
    rw [markerPath_eq ends, text]
    exact congrArg some (if_pos whole)
  | false =>
    refine ⟨front cache.resultsDir ++ utf8 (key ++ "."), fun verdict ending ends => ?_⟩
    have whole : (⟨utf8 (key ++ ".") ++ utf8 ending⟩ : Path).isAbsolute = false := by
      rw [isAbsolute_append named, absolute]
    rw [markerPath_eq ends, text, List.append_assoc]
    exact congrArg (some ∘ Path.mk) (join_bytes whole)

theorem ending_inj {verdict other : Classification} {ending : String}
    (ends : Cache.markerEnding? verdict = some ending)
    (endsToo : Cache.markerEnding? other = some ending) : verdict = other := by
  revert ends endsToo
  cases verdict <;> cases other <;> simp only [Cache.markerEnding?, Option.some.injEq,
    reduceCtorEq, false_implies, implies_true]
  all_goals
    rintro rfl
    decide

theorem ending_of_suffix {verdict other : Classification} {ending another : String}
    (ends : Cache.markerEnding? verdict = some ending)
    (endsToo : Cache.markerEnding? other = some another)
    (shared : utf8 ending <:+ utf8 another ∨ utf8 another <:+ utf8 ending) : ending = another := by
  revert ends endsToo shared
  cases verdict <;> cases other <;> simp only [Cache.markerEnding?, Option.some.injEq,
    reduceCtorEq, false_implies, implies_true]
  all_goals
    rintro rfl rfl
    decide

/-- The name of a marker tells its key. -/
theorem markerName_inj {other : String} {verdict reached : Classification} {ending another : String}
    (ends : Cache.markerEnding? verdict = some ending)
    (endsToo : Cache.markerEnding? reached = some another)
    (same : utf8 (key ++ "." ++ ending) = utf8 (other ++ "." ++ another)) : key = other := by
  rw [utf8_append, utf8_append (other ++ ".")] at same
  obtain rfl := ending_of_suffix ends endsToo
    (List.suffix_or_suffix_of_suffix (same ▸ List.suffix_append ..) (List.suffix_append ..))
  exact (String.append_left_inj ".").mp (utf8_injective (List.append_cancel_right same))

/-- A marker and the one that it excludes lie at two places. -/
theorem markerPlace_ne {verdict other : Classification} {p q : Path} (differ : verdict ≠ other)
    (isMarker : cache.markerPath? key verdict = some p)
    (isOther : cache.markerPath? key other = some q) : b.place p ≠ b.place q := by
  obtain ⟨bytes, paths⟩ := markerPath_bytes cache key
  obtain ⟨name, names⟩ := fileName_of_ending bytes
  have place {verdict : Classification} {p : Path} (isMarker : cache.markerPath? key verdict = some p) :
      ∃ ending parent, Cache.markerEnding? verdict = some ending ∧
        b.place p = parent ++ [name ++ utf8 ending] := by
    cases verdict with
    | interesting => cases isMarker
    | uninteresting =>
      obtain rfl := Option.some.inj ((paths _ _ rfl).symm.trans isMarker)
      obtain ⟨parent, place⟩ := placeOf_fileName b.here
        (names (utf8 "uninteresting") (by decide) (by decide))
      exact ⟨_, parent, rfl, place⟩
    | uncompilable =>
      obtain rfl := Option.some.inj ((paths _ _ rfl).symm.trans isMarker)
      obtain ⟨parent, place⟩ := placeOf_fileName b.here
        (names (utf8 "nocompile") (by decide) (by decide))
      exact ⟨_, parent, rfl, place⟩
  obtain ⟨ending, parent, ends, isPlace⟩ := place isMarker
  obtain ⟨another, parent', endsToo, isOtherPlace⟩ := place isOther
  intro same
  rw [isPlace, isOtherPlace] at same
  have endings : utf8 ending = utf8 another :=
    List.append_cancel_left (List.singleton_inj.mp (List.append_inj' same rfl).2)
  obtain rfl := utf8_injective endings
  exact differ (ending_inj ends endsToo)

theorem Marked.iff {verdict : Classification} {p : Path} {t : FileTree}
    (isMarker : cache.markerPath? key verdict = some p) :
    Marked b cache key verdict t ↔ Trees.exists t (b.place p) := by
  constructor
  · rintro ⟨q, isMarkerToo, there⟩
    obtain rfl := Option.some.inj (isMarker.symm.trans isMarkerToo)
    exact there
  · exact fun there => ⟨p, isMarker, there⟩

/-! ## The steps of a call -/

/-- What is left of a call that has left its marker: the opposite one is to be taken away. -/
def clearing (q : Path) : Program (Except CacheError Unit) := (Cache.removeIfPresent q).run

/-- How far a call has come. -/
inductive Underway (cache : Cache) (key : String) (verdict : Classification) :
    Program (Except CacheError Unit) → Prop
  | waiting : Underway cache key verdict (cache.store key verdict).run
  | between {other : Classification} {q : Path} (opposite : Cache.opposite? verdict = some other)
      (isOther : cache.markerPath? key other = some q) : Underway cache key verdict (clearing q)
  | ended (r : Except CacheError Unit) : Underway cache key verdict (.done r)

/-- What the next step of a call does: it leaves the marker, or fails to, or it takes away the
opposite marker and with that comes to its end. -/
inductive Move (b : Bench) (cache : Cache) (key : String) (verdict : Classification)
    (s t : Bench.State) :
    Program (Except CacheError Unit) → Program (Except CacheError Unit) → Prop
  | marks {other : Classification} {p q : Path} (opposite : Cache.opposite? verdict = some other)
      (isMarker : cache.markerPath? key verdict = some p)
      (isOther : cache.markerPath? key other = some q)
      (change : Change (· = b.place p) s.tree.node? t.tree.node?)
      (there : Trees.exists t.tree (b.place p))
      (plain : View.directory t.tree.node? (b.place p) = false) :
      Move b cache key verdict s t (cache.store key verdict).run (clearing q)
  | fails {p : Path} {e : CacheError} (isMarker : cache.markerPath? key verdict = some p)
      (refused : View.writable s.tree.node? (b.place p) = false) (same : t = s) :
      Move b cache key verdict s t (cache.store key verdict).run (.done (.error e))
  | clears {other : Classification} {q : Path} (opposite : Cache.opposite? verdict = some other)
      (isOther : cache.markerPath? key other = some q)
      (change : Change (· = b.place q) s.tree.node? t.tree.node?)
      (gone : t.tree.node? (b.place q) = none) :
      Move b cache key verdict s t (clearing q) (.done (.ok ()))

theorem opposite_markers {verdict : Classification} (storable : verdict ≠ .interesting) :
    ∃ other p q, Cache.opposite? verdict = some other ∧
      cache.markerPath? key verdict = some p ∧ cache.markerPath? key other = some q := by
  cases verdict with
  | interesting => exact absurd rfl storable
  | uninteresting => exact ⟨.uncompilable, _, _, rfl, rfl, rfl⟩
  | uncompilable => exact ⟨.uninteresting, _, _, rfl, rfl, rfl⟩

/-- A call touches its marker, and then has the opposite one to take away. -/
theorem store_asks {verdict other : Classification} {p q : Path}
    (opposite : Cache.opposite? verdict = some other)
    (isMarker : cache.markerPath? key verdict = some p)
    (isOther : cache.markerPath? key other = some q) :
    ∃ next, (cache.store key verdict).run = .ask (.file (.touch p)) next ∧
      next (Except.ok ()) = clearing q ∧
      ∀ cause : Failure, next (Except.error cause) = .done (.error (.files p cause)) := by
  unfold Cache.store
  rw [isMarker, opposite, Option.bind_some, isOther]
  exact ⟨_, rfl, rfl, fun _ => rfl⟩

theorem clearing_asks (q : Path) : ∃ next, clearing q = .ask (.file (.remove q)) next ∧
    next (Except.ok ()) = .done (.ok ()) ∧
    ∀ cause : Failure, cause.isMissing → next (Except.error cause) = .done (.ok ()) := by
  refine ⟨_, rfl, rfl, fun cause missing => ?_⟩
  show Program.done (if cause.isMissing then Except.ok () else Except.error (CacheError.files q cause)) = _
  rw [if_pos missing]

/-- Every step of a call is one of these. -/
theorem Underway.move {verdict : Classification} {s : Bench.State} {r : Request}
    {next : r.Answer → Program (Except CacheError Unit)}
    (underway : Underway cache key verdict (.ask r next)) (plain : Plain b cache key s.tree) :
    Move b cache key verdict s (b.host r s).2 (.ask r next) (next (b.host r s).1) := by
  generalize isCall : Program.ask r next = call at underway ⊢
  cases underway with
  | ended => cases isCall
  | waiting =>
    by_cases storable : verdict = .interesting
    · subst storable
      cases isCall
    · obtain ⟨other, p, q, opposite, isMarker, isOther⟩ := @opposite_markers cache key _ storable
      obtain ⟨goes, asks, marked, failed⟩ := store_asks opposite isMarker isOther
      rw [asks] at isCall
      cases isCall
      show Move b cache key verdict s (Bench.change s (touch s.tree (b.place p))).2 _
        (goes (Bench.change s (touch s.tree (b.place p))).1)
      rcases touch_spec (plain _ _ isMarker) with ⟨u, touched, there, stillPlain⟩ | ⟨⟨cause, refused⟩, free⟩
      · rw [touched]
        show Move b cache key verdict s { s with tree := u } _ (goes (Except.ok ()))
        rw [marked]
        exact .marks opposite isMarker isOther (touch_change touched) there stillPlain
      · rw [refused]
        show Move b cache key verdict s s _ (goes (Except.error cause))
        rw [failed]
        exact .fails isMarker free rfl
  | @between other q opposite isOther =>
    obtain ⟨goes, asks, cleared, missing⟩ := clearing_asks q
    rw [asks] at isCall
    cases isCall
    show Move b cache key verdict s (Bench.change s (remove s.tree (b.place q))).2 _
      (goes (Bench.change s (remove s.tree (b.place q))).1)
    rcases remove_spec (plain _ _ isOther) with ⟨u, removed, change, gone⟩ | ⟨cause, refused, isMissing, free⟩
    · rw [removed]
      show Move b cache key verdict s { s with tree := u } _ (goes (Except.ok ()))
      rw [cleared]
      exact .clears opposite isOther change gone
    · rw [refused]
      show Move b cache key verdict s s _ (goes (Except.error cause))
      rw [missing cause isMissing]
      exact .clears opposite isOther (.refl ..) free

/-! ## Calls side by side -/

/-- What holds at any time while verdicts are stored on a key. -/
structure Storing (b : Bench) (cache : Cache) (key : String) (calls : List Classification)
    (before : FileTree) (ps : List (Program (Except CacheError Unit))) (s : Bench.State) : Prop where
  underway : ∀ p ∈ ps, ∃ verdict ∈ calls, Underway cache key verdict p
  plain : Plain b cache key s.tree
  others : ∀ place, (∀ verdict p, cache.markerPath? key verdict = some p → place ≠ b.place p) →
    s.tree.node? place = before.node? place
  directories : ∀ place, View.directory before.node? place → View.directory s.tree.node? place
  torn : Torn b cache key s.tree → ∃ q, clearing q ∈ ps

/-- What holds besides while all calls store the same verdict. -/
structure Agreed (b : Bench) (cache : Cache) (key : String) (verdict : Classification)
    (ps : List (Program (Except CacheError Unit))) (s : Bench.State) : Prop where
  marked : (∃ q, clearing q ∈ ps) ∨ .done (.ok ()) ∈ ps → Marked b cache key verdict s.tree
  alone : .done (.ok ()) ∈ ps → ∀ other, other ≠ verdict → ¬ Marked b cache key other s.tree

variable {verdict : Classification} {calls : List Classification} {before : FileTree}
  {ps : List (Program (Except CacheError Unit))} {s t : Bench.State} {i : Nat}
  {p q : Program (Except CacheError Unit)}

theorem Marked.kept {marker : Path} {other : Classification} {u v : FileTree}
    (isMarker : cache.markerPath? key verdict = some marker) (differ : other ≠ verdict)
    (change : Change (· = b.place marker) u.node? v.node?) :
    Marked b cache key other v ↔ Marked b cache key other u := by
  have same {p : Path} (isOther : cache.markerPath? key other = some p) :
      v.node? (b.place p) = u.node? (b.place p) :=
    change.elsewhere _ (markerPlace_ne differ isOther isMarker)
  constructor
  · rintro ⟨p, isOther, there⟩
    exact ⟨p, isOther, by rwa [Trees.exists, ← same isOther]⟩
  · rintro ⟨p, isOther, there⟩
    exact ⟨p, isOther, by rwa [Trees.exists, same isOther]⟩

theorem opposite_ne {other : Classification} (opposite : Cache.opposite? verdict = some other) :
    other ≠ verdict := by
  rintro rfl
  cases other <;> cases opposite

/-- There is a marker for no third verdict. -/
theorem eq_opposite {other third : Classification} {path : Path}
    (opposite : Cache.opposite? verdict = some other) (isElse : third ≠ verdict)
    (isPath : cache.markerPath? key third = some path) : third = other := by
  cases verdict with
  | interesting => cases opposite
  | uninteresting =>
    obtain rfl := Option.some.inj opposite
    cases third with
    | interesting => cases isPath
    | uninteresting => exact absurd rfl isElse
    | uncompilable => rfl
  | uncompilable =>
    obtain rfl := Option.some.inj opposite
    cases third with
    | interesting => cases isPath
    | uninteresting => rfl
    | uncompilable => exact absurd rfl isElse

/-- A change of one marker leaves everything else. -/
theorem Storing.changed {marker : Path} (storing : Storing b cache key calls before ps s)
    (isMarker : cache.markerPath? key verdict = some marker)
    (change : Change (· = b.place marker) s.tree.node? t.tree.node?)
    (plain : View.directory t.tree.node? (b.place marker) = false) :
    Plain b cache key t.tree ∧
      (∀ place, (∀ verdict p, cache.markerPath? key verdict = some p → place ≠ b.place p) →
        t.tree.node? place = before.node? place) ∧
      ∀ place, View.directory before.node? place → View.directory t.tree.node? place := by
  refine ⟨fun other p isOther => ?_, fun place outside => ?_, fun place there => ?_⟩
  · by_cases same : other = verdict
    · subst same
      obtain rfl := Option.some.inj (isMarker.symm.trans isOther)
      exact plain
    · rw [View.directory, change.elsewhere _ (markerPlace_ne same isOther isMarker)]
      exact storing.plain other p isOther
  · rw [change.elsewhere _ (outside _ _ isMarker)]
    exact storing.others place outside
  · exact change.directories _ (storing.directories place there)

theorem store_ne_clearing (cache : Cache) (key : String) (verdict : Classification) (path : Path) :
    clearing path ≠ (cache.store key verdict).run := by
  intro same
  obtain ⟨next, asks, -, -⟩ := clearing_asks path
  rw [asks] at same
  cases verdict with
  | interesting => cases same
  | uninteresting => cases same
  | uncompilable => cases same

/-- The invariant is kept by every step of a call. -/
theorem Storing.step (storing : Storing b cache key calls before ps s) (found : ps[i]? = some p)
    (among : verdict ∈ calls) (move : Move b cache key verdict s t p q) :
    Storing b cache key calls before (ps.set i q) t := by
  have underway (isNext : Underway cache key verdict q) :
      ∀ p ∈ ps.set i q, ∃ verdict ∈ calls, Underway cache key verdict p := by
    intro p inSet
    rcases List.mem_or_eq_of_mem_set inSet with earlier | rfl
    · exact storing.underway p earlier
    · exact ⟨verdict, among, isNext⟩
  have inRange : i < ps.length := (List.getElem?_eq_some_iff.mp found).1
  cases move with
  | marks opposite isMarker isOther change there plain =>
    obtain ⟨stillPlain, others, directories⟩ := storing.changed isMarker change plain
    refine ⟨underway (.between opposite isOther), stillPlain, others, directories, fun _ => ?_⟩
    exact ⟨_, List.mem_set inRange _⟩
  | fails isMarker refused same =>
    subst same
    refine ⟨underway (.ended _), storing.plain, storing.others, storing.directories, fun torn => ?_⟩
    obtain ⟨path, waiting⟩ := storing.torn torn
    exact ⟨path, mem_set_of_ne found waiting (store_ne_clearing cache key verdict path)⟩
  | @clears other path opposite isOther change gone =>
    have plain : View.directory t.tree.node? (b.place path) = false := View.directory_of_none gone
    obtain ⟨stillPlain, others, directories⟩ := storing.changed isOther change plain
    refine ⟨underway (.ended _), stillPlain, others, directories, fun torn => ?_⟩
    -- of the two markers this step has just taken one away
    have missing : ¬ Marked b cache key other t.tree := by
      rw [Marked.iff isOther, Trees.exists, gone]
      simp
    cases verdict with
    | interesting => cases opposite
    | uninteresting =>
      obtain rfl := Option.some.inj opposite
      exact absurd torn.2 missing
    | uncompilable =>
      obtain rfl := Option.some.inj opposite
      exact absurd torn.1 missing

/-- While all calls agree, the one marker stays from its first coming, and the other is gone from
the first end of a call. -/
theorem Agreed.step (agreed : Agreed b cache key verdict ps s) (found : ps[i]? = some p)
    (move : Move b cache key verdict s t p q) : Agreed b cache key verdict (ps.set i q) t := by
  cases move with
  | marks opposite isMarker isOther change there plain =>
    refine ⟨fun _ => (Marked.iff isMarker).mpr there, fun ended other differ => ?_⟩
    rw [Marked.kept isMarker differ change]
    rcases List.mem_or_eq_of_mem_set ended with earlier | same
    · exact agreed.alone earlier other differ
    · obtain ⟨next, asks, -, -⟩ := clearing_asks _
      rw [asks] at same
      cases same
  | @fails _ e isMarker refused same =>
    subst same
    have ended {r : Program (Except CacheError Unit)} (inSet : r ∈ ps.set i (.done (.error e)))
        (other : r ≠ .done (.error e)) : r ∈ ps :=
      (List.mem_or_eq_of_mem_set inSet).resolve_right other
    refine ⟨fun begun => agreed.marked ?_, fun isEnded => agreed.alone (ended isEnded (by simp))⟩
    refine begun.imp (fun ⟨path, waiting⟩ => ⟨path, ended waiting ?_⟩) fun isEnded =>
      ended isEnded (by simp)
    obtain ⟨next, asks, -, -⟩ := clearing_asks path
    rw [asks]
    simp
  | clears opposite isOther change gone =>
    have differ := opposite_ne opposite
    have marked : Marked b cache key verdict t.tree := by
      rw [Marked.kept isOther differ.symm change]
      exact agreed.marked (.inl ⟨_, List.mem_of_getElem? found⟩)
    refine ⟨fun _ => marked, fun _ other isElse => ?_⟩
    rintro ⟨path, isPath, there⟩
    obtain rfl := eq_opposite opposite isElse isPath
    obtain rfl := Option.some.inj (isOther.symm.trans isPath)
    rw [Trees.exists, gone] at there
    cases there

/-- Where the markers have a directory, no call fails. -/
theorem Storing.served (storing : Storing b cache key calls before ps s)
    (housed : ∀ verdict p, cache.markerPath? key verdict = some p →
      View.directory before.node? (b.place p).dropLast)
    (ok : ∀ r, .done r ∈ ps → r = .ok ()) (move : Move b cache key verdict s t p q) :
    ∀ r, .done r ∈ ps.set i q → r = .ok () := by
  intro r ended
  rcases List.mem_or_eq_of_mem_set ended with earlier | same
  · exact ok r earlier
  · cases move with
    | marks =>
      obtain ⟨next, asks, -, -⟩ := clearing_asks _
      rw [asks] at same
      cases same
    | fails isMarker refused =>
      have parent := storing.directories _ (housed _ _ isMarker)
      rw [View.writable, storing.plain _ _ isMarker, parent] at refused
      cases refused
    | clears =>
      cases same
      rfl

/-- Before their first steps the calls have done nothing. -/
theorem Storing.start (plain : Plain b cache key s.tree) (single : ¬ Torn b cache key s.tree) :
    Storing b cache key calls s.tree (calls.map fun verdict => (cache.store key verdict).run) s where
  underway := by
    intro p isCall
    obtain ⟨verdict, among, rfl⟩ := List.mem_map.mp isCall
    exact ⟨verdict, among, .waiting⟩
  plain := plain
  others := fun _ _ => rfl
  directories := fun _ there => there
  torn := fun torn => absurd torn single

theorem store_ne_ok (cache : Cache) (key : String) (verdict : Classification) :
    (cache.store key verdict).run ≠ .done (.ok ()) := by
  intro same
  cases verdict with
  | interesting => cases same
  | uninteresting => cases same
  | uncompilable => cases same

theorem Agreed.start :
    Agreed b cache key verdict (calls.map fun verdict => (cache.store key verdict).run) s := by
  have notEnded : .done (.ok ()) ∉ calls.map fun verdict => (cache.store key verdict).run := by
    intro isCall
    obtain ⟨verdict, -, same⟩ := List.mem_map.mp isCall
    exact store_ne_ok cache key verdict same
  refine ⟨fun begun => ?_, fun ended => absurd ended notEnded⟩
  rcases begun with ⟨path, isCall⟩ | ended
  · obtain ⟨verdict, -, same⟩ := List.mem_map.mp isCall
    exact absurd same.symm (store_ne_clearing cache key verdict path)
  · exact absurd ended notEnded

theorem hasMarker_of_path {path : Path} (isPath : cache.markerPath? key verdict = some path) :
    (cache.hasMarker key verdict).run b.host s = (Trees.exists s.tree (b.place path), s) := by
  unfold Cache.hasMarker
  rw [isPath]
  rfl

/-- A marker that is not there. -/
theorem unmarked {path : Path} (isPath : cache.markerPath? key verdict = some path)
    (missing : ¬ Marked b cache key verdict s.tree) :
    Trees.exists s.tree (b.place path) = false := by
  simpa using fun there => missing ⟨path, isPath, there⟩

/-- A lookup finds the one marker that is there. -/
theorem lookup_of_marked (marked : Marked b cache key verdict s.tree)
    (alone : ∀ other, other ≠ verdict → ¬ Marked b cache key other s.tree) :
    (cache.lookup key).run b.host s = (some verdict, s) := by
  obtain ⟨path, isPath, there⟩ := marked
  unfold Cache.lookup
  cases verdict with
  | interesting => cases isPath
  | uninteresting =>
    rw [run_bind, hasMarker_of_path isPath, there]
    rfl
  | uncompilable =>
    obtain ⟨clean, isClean⟩ : ∃ clean, cache.markerPath? key .uninteresting = some clean := ⟨_, rfl⟩
    rw [run_bind, hasMarker_of_path isClean, unmarked isClean (alone .uninteresting (by decide))]
    simp only [Bool.false_eq_true, if_false]
    rw [run_bind, hasMarker_of_path isPath, there]
    rfl

/-- Without a marker a lookup finds nothing. -/
theorem lookup_of_unmarked (none : ∀ verdict, ¬ Marked b cache key verdict s.tree) :
    (cache.lookup key).run b.host s = (.none, s) := by
  obtain ⟨clean, isClean⟩ : ∃ clean, cache.markerPath? key .uninteresting = some clean := ⟨_, rfl⟩
  obtain ⟨broken, isBroken⟩ : ∃ broken, cache.markerPath? key .uncompilable = some broken := ⟨_, rfl⟩
  unfold Cache.lookup
  rw [run_bind, hasMarker_of_path isClean, unmarked isClean (none _)]
  simp only [Bool.false_eq_true, if_false]
  rw [run_bind, hasMarker_of_path isBroken, unmarked isBroken (none _)]
  rfl

/-- The markers of a key that is a name are entries of one directory. -/
theorem place_markerPath {p : Path} (clean : '/' ∉ key.toList)
    (isMarker : cache.markerPath? key verdict = some p) : ∃ ending,
      Cache.markerEnding? verdict = some ending ∧
      b.place p = b.place cache.resultsDir ++ [utf8 (key ++ "." ++ ending)] := by
  have entry {ending : String} (cleanEnd : '/' ∉ ending.toList) (long : 2 < (utf8 ending).length) :
      b.place (cache.resultsDir / Path.ofString (key ++ "." ++ ending)) =
        b.place cache.resultsDir ++ [utf8 (key ++ "." ++ ending)] := by
    refine place_entry b _ (proper_of_length (by simp [clean, cleanEnd]) ?_)
    rw [utf8_append, List.length_append]
    omega
  cases verdict with
  | interesting => cases isMarker
  | uninteresting =>
    obtain rfl := Option.some.inj ((markerPath_eq rfl).symm.trans isMarker)
    exact ⟨_, rfl, entry (by decide) (by decide)⟩
  | uncompilable =>
    obtain rfl := Option.some.inj ((markerPath_eq rfl).symm.trans isMarker)
    exact ⟨_, rfl, entry (by decide) (by decide)⟩

/-- Keys that are names have markers of their own. -/
theorem marker_of_other {other : String} {p q : Path} {another : Classification}
    (clean : '/' ∉ key.toList) (cleanOther : '/' ∉ other.toList) (differ : other ≠ key)
    (isMarker : cache.markerPath? key verdict = some p)
    (isOther : cache.markerPath? other another = some q) : b.place q ≠ b.place p := by
  obtain ⟨ending, ends, isPlace⟩ := @place_markerPath b _ _ _ _ clean isMarker
  obtain ⟨ending', endsToo, isOtherPlace⟩ := @place_markerPath b _ _ _ _ cleanOther isOther
  intro same
  rw [isPlace, isOtherPlace] at same
  have names := List.singleton_inj.mp (List.append_cancel_left same)
  exact differ (markerName_inj endsToo ends names)

/-- The invariants hold after every schedule. -/
theorem stores_keep (plain : Plain b cache key s.tree) (single : ¬ Torn b cache key s.tree)
    (schedule : List Nat) :
    let now := interleave b.host (calls.map fun verdict => (cache.store key verdict).run, s) schedule
    Storing b cache key calls s.tree now.1 now.2 ∧
    (∀ verdict, (∀ call ∈ calls, call = verdict) → Agreed b cache key verdict now.1 now.2) ∧
    ((∀ verdict p, cache.markerPath? key verdict = some p →
        View.directory s.tree.node? (b.place p).dropLast) → (∀ call ∈ calls, call ≠ .interesting) →
      ∀ r, .done r ∈ now.1 → r = .ok ()) := by
  let I (ps : List (Program (Except CacheError Unit))) (t : Bench.State) : Prop :=
    Storing b cache key calls s.tree ps t ∧
    (∀ verdict, (∀ call ∈ calls, call = verdict) → Agreed b cache key verdict ps t) ∧
    ((∀ verdict p, cache.markerPath? key verdict = some p →
        View.directory s.tree.node? (b.place p).dropLast) → (∀ call ∈ calls, call ≠ .interesting) →
      ∀ r, .done r ∈ ps → r = .ok ())
  refine interleave_keeps (I := I) ⟨.start plain single, fun _ _ => .start, ?_⟩ ?_ schedule
  · intro _ storable r ended
    obtain ⟨verdict, among, same⟩ := List.mem_map.mp ended
    obtain ⟨other, p, q, opposite, isMarker, isOther⟩ := @opposite_markers cache key _ (storable _ among)
    obtain ⟨next, asks, -, -⟩ := store_asks opposite isMarker isOther
    rw [asks] at same
    cases same
  · rintro ps t i r next ⟨storing, agreed, served⟩ found
    obtain ⟨verdict, among, underway⟩ := storing.underway _ (List.mem_of_getElem? found)
    have move := underway.move storing.plain
    refine ⟨storing.step found among move, fun same agree => ?_, fun housed storable => ?_⟩
    · obtain rfl := agree verdict among
      exact (agreed _ agree).step found move
    · exact storing.served housed (served housed storable) move

/-- Tools that do nothing. -/
def noTools : Bench.Toolbox where
  starts _ _ := false
  streams _ := ([], [])
  compile _ _ _ := ⟨.hung, none⟩
  convert _ _ := ⟨.hung, none⟩
  facts _ _ _ := ⟨.hung, []⟩
  analyse _ _ _ := ⟨.hung, []⟩
  minimizeIr _ _ := (.exited 1, none)
  minimizeSource _ _ := (.exited 1, none)

/-- An empty cache at the root. -/
def shelf : Bench.State where
  tree := ⟨[([utf8 "results"], .directory)]⟩
  started := []
  turns := 0

def isDone : Program α → Bool
  | .done _ => true
  | .ask .. => false

theorem eq_done_of_isDone {p : Program α} (h : isDone p) : ∃ r, p = .done r := by
  cases p with
  | done r => exact ⟨r, rfl⟩
  | ask r next => cases h

end BugHunt.Proofs.Exclusion
