import BugHunt.Pipeline.Check
import BugHunt.Proofs.Reducing
/-!
The cache on a bench: where markers and compiled IR lie, when they tell the truth, and that a
check keeps them true.
-/

namespace BugHunt.Proofs.Caching
open Trees Texts Names Places Runs Bench Outcomes Building Judging Reducing

variable {b : Bench} {c : Config} {s : State}

/-! ## The places of the cache -/

def cacheOf (c : Config) : Cache := ⟨c.cacheRoot⟩

def irPlace (b : Bench) (c : Config) (key : String) : Place :=
  b.place (cacheOf c).irDir ++ [utf8 (key ++ "." ++ "bc")]

def markerPlace (b : Bench) (c : Config) (key ending : String) : Place :=
  b.place (cacheOf c).resultsDir ++ [utf8 (key ++ "." ++ ending)]

/-- The places that a check looks at in the cache. -/
inductive Slot (b : Bench) (c : Config) : Place → Prop
  | ir {key : String} (stem : Stem (utf8 key)) : Slot b c (irPlace b c key)
  | marker {key ending : String} {verdict : Classification} (stem : Stem (utf8 key))
      (ends : Cache.markerEnding? verdict = some ending) : Slot b c (markerPlace b c key ending)

theorem place_entries (b : Bench) (cache : Cache) :
    b.place cache.irDir = b.place cache.root ++ [utf8 "ir"] ∧
      b.place cache.resultsDir = b.place cache.root ++ [utf8 "results"] :=
  ⟨place_entry b cache.root ⟨by decide, by decide, by decide, by decide⟩,
    place_entry b cache.root ⟨by decide, by decide, by decide, by decide⟩⟩

theorem place_irDir : b.place (cacheOf c).irDir = b.place c.cacheRoot ++ [utf8 "ir"] :=
  (place_entries b (cacheOf c)).1

theorem place_resultsDir :
    b.place (cacheOf c).resultsDir = b.place c.cacheRoot ++ [utf8 "results"] :=
  (place_entries b (cacheOf c)).2

/-- A slot lies two steps below the root of the cache, and its name has one of three endings. -/
theorem Slot.form {q : Place} (slot : Slot b c q) :
    ∃ directory name, q = b.place c.cacheRoot ++ [directory, name] ∧
      (directory = utf8 "ir" ∨ directory = utf8 "results") ∧
      (utf8 "bc" <:+ name ∨ utf8 "uninteresting" <:+ name ∨ utf8 "nocompile" <:+ name) := by
  have ends (key ending : String) : utf8 ending <:+ utf8 (key ++ "." ++ ending) := by
    rw [utf8_append]
    exact List.suffix_append ..
  cases slot with
  | @ir key _ =>
    refine ⟨utf8 "ir", utf8 (key ++ "." ++ "bc"), ?_, .inl rfl, .inl (ends key "bc")⟩
    rw [irPlace, place_irDir, List.append_assoc]
    rfl
  | @marker key ending verdict _ isEnding =>
    refine ⟨utf8 "results", utf8 (key ++ "." ++ ending), ?_, .inr rfl, .inr ?_⟩
    · rw [markerPlace, place_resultsDir, List.append_assoc]
      rfl
    · cases verdict with
      | uninteresting =>
        obtain rfl := Option.some.inj isEnding
        exact .inl (ends key _)
      | uncompilable =>
        obtain rfl := Option.some.inj isEnding
        exact .inr (ends key _)
      | interesting => cases isEnding

/-- An entry whose name ends in another way is no slot. -/
theorem not_slot {directory : Place} {name : Bytes} {ending : String}
    (ends : utf8 ending <:+ name) (unlike : ∀ other ∈ ["bc", "uninteresting", "nocompile"],
      ¬ (utf8 ending <:+ utf8 other ∨ utf8 other <:+ utf8 ending)) :
    ¬ Slot b c (directory ++ [name]) := by
  intro slot
  obtain ⟨parent, last, same, -, endings⟩ := slot.form
  have names : name = last := by
    have := congrArg List.getLast? same
    simpa using this
  subst names
  rcases endings with h | h | h
  · exact unlike "bc" (by simp) (List.suffix_or_suffix_of_suffix ends h)
  · exact unlike "uninteresting" (by simp) (List.suffix_or_suffix_of_suffix ends h)
  · exact unlike "nocompile" (by simp) (List.suffix_or_suffix_of_suffix ends h)

/-- Whether no new workspace can lie on the way to the cache. -/
def Rooted (b : Bench) (c : Config) (v : View) : Prop :=
  v.directory (b.place c.cacheRoot) ∨ ∀ name ∈ b.place c.cacheRoot, ¬ utf8 ".scratch" <:+ name

theorem Rooted.notMem_slot {v : View} (rooted : Rooted b c v) {before : String} {name : Bytes}
    (drawn : Drawn v before ".scratch" name) {q : Place} (slot : Slot b c q) : name ∉ q := by
  obtain ⟨drawnPart, -, form⟩ := drawn.form
  have scratch : utf8 ".scratch" <:+ name := by
    rw [form, utf8_append]
    exact List.suffix_append ..
  obtain ⟨directory, last, rfl, directories, endings⟩ := slot.form
  rw [List.mem_append, not_or]
  constructor
  · rcases rooted with there | plain
    · apply drawn.fresh
      intro none
      simp [View.directory, none] at there
    · exact fun found => plain name found scratch
  · simp only [List.mem_cons, List.not_mem_nil, or_false, not_or]
    constructor
    · rintro rfl
      rcases directories with rfl | rfl
      · exact absurd scratch (by decide)
      · exact absurd scratch (by decide)
    · rintro rfl
      rcases endings with h | h | h
      · exact absurd (List.suffix_or_suffix_of_suffix scratch h) (by decide)
      · exact absurd (List.suffix_or_suffix_of_suffix scratch h) (by decide)
      · exact absurd (List.suffix_or_suffix_of_suffix scratch h) (by decide)

theorem Rooted.steady {v t : View} (rooted : Rooted b c v)
    (steady : ∀ q, v.directory q → t.directory q) : Rooted b c t :=
  rooted.imp_left (steady _)

/-! ## What the cache tells -/

/-- The verdict that a judgement comes to, if it comes to one. -/
def verdict? : Judged → Option Classification
  | .verdict verdict | .crash _ verdict => some verdict
  | .impossible => none

/-- The verdict on a variant, from the bytes of the program and the flags alone. -/
def reached (b : Bench) (c : Config) (a : Artifact) (flags : List String) (source : Bytes) :
    Option Classification :=
  if a.isSource then
    match compiled b c a.kind flags source with
    | .bitcode bytes => verdict? (judged b c .binaryIr bytes)
    | .failed => some .uncompilable
    | .impossible => none
  else verdict? (judged b c a.kind source)

/-- Whether the cache holds nothing but the truth: its markers name the verdict that goes with
their key, and its IR is judged that way. -/
structure Sound (b : Bench) (c : Config) (told : String → Option Classification) (v : View) :
    Prop where
  marker : ∀ {key ending : String} {verdict : Classification}, Stem (utf8 key) →
    Cache.markerEnding? verdict = some ending → v (markerPlace b c key ending) ≠ none →
    told key = some verdict
  ir : ∀ {key : String}, Stem (utf8 key) → v (irPlace b c key) ≠ none →
    ∃ bytes executable, v (irPlace b c key) = some (.file bytes executable) ∧
      verdict? (judged b c .binaryIr bytes) = told key

theorem Sound.of_slots {told : String → Option Classification} {v t : View}
    (sound : Sound b c told v) (slots : ∀ q, Slot b c q → t q = v q ∨ t q = none) :
    Sound b c told t := by
  constructor
  · intro key ending verdict stem ends there
    rcases slots _ (.marker stem ends) with same | none
    · exact sound.marker stem ends (same ▸ there)
    · exact absurd none there
  · intro key stem there
    rcases slots _ (.ir stem) with same | none
    · rw [same] at there ⊢
      exact sound.ir stem there
    · exact absurd none there

/-- Whether a check finds nothing in the cache. -/
def Blank (b : Bench) (c : Config) (v : View) : Prop := ∀ q, Slot b c q → v q = none

/-- An empty cache tells nothing. -/
theorem Blank.sound {told : String → Option Classification} {v : View} (blank : Blank b c v) :
    Sound b c told v :=
  ⟨fun stem ends there => absurd (blank _ (.marker stem ends)) there,
    fun stem there => absurd (blank _ (.ir stem)) there⟩

theorem entry_key_inj {directory : Place} {key other ending : String}
    (same : directory ++ [utf8 (key ++ "." ++ ending)] =
      directory ++ [utf8 (other ++ "." ++ ending)]) : key = other := by
  have names := List.singleton_inj.mp (List.append_cancel_left same)
  simp only [utf8_append, List.append_assoc] at names
  exact utf8_injective (List.append_cancel_right names)

theorem markerPlace_inj {key other ending another : String} {verdict reached : Classification}
    (ends : Cache.markerEnding? verdict = some ending)
    (otherEnds : Cache.markerEnding? reached = some another)
    (same : markerPlace b c key ending = markerPlace b c other another) :
    key = other ∧ verdict = reached := by
  have endings : utf8 ending <:+ utf8 another ∨ utf8 another <:+ utf8 ending := by
    have names := List.singleton_inj.mp (List.append_cancel_left same)
    rw [utf8_append, utf8_append (other ++ ".")] at names
    have first : utf8 ending <:+ utf8 (other ++ ".") ++ utf8 another :=
      names ▸ List.suffix_append ..
    exact List.suffix_or_suffix_of_suffix first (List.suffix_append ..)
  have verdicts : verdict = reached := by
    revert ends otherEnds endings
    cases verdict <;> cases reached <;> simp only [Cache.markerEnding?, Option.some.injEq,
      reduceCtorEq, false_implies, implies_true]
    all_goals
      rintro rfl rfl
      decide
  subst verdicts
  obtain rfl := Option.some.inj (ends.symm.trans otherEnds)
  exact ⟨entry_key_inj same, rfl⟩

theorem irPlace_ne_markerPlace (key other ending : String) :
    irPlace b c key ≠ markerPlace b c other ending := by
  intro same
  rw [irPlace, markerPlace, place_irDir, place_resultsDir] at same
  have directories := (List.append_inj' same rfl).1
  exact absurd (List.singleton_inj.mp (List.append_cancel_left directories)) (by decide)

/-- A marker may come to stand for what is told. -/
theorem Sound.marked {told : String → Option Classification} {v t : View} {key ending : String}
    {verdict : Classification} (sound : Sound b c told v)
    (ends : Cache.markerEnding? verdict = some ending) (tells : told key = some verdict)
    (other : ∀ q, Slot b c q → q ≠ markerPlace b c key ending → t q = v q ∨ t q = none) :
    Sound b c told t := by
  constructor
  · intro key' ending' verdict' stem ends' there
    by_cases same : markerPlace b c key' ending' = markerPlace b c key ending
    · obtain ⟨rfl, rfl⟩ := markerPlace_inj ends' ends same
      exact tells
    · rcases other _ (.marker stem ends') same with kept | none
      · exact sound.marker stem ends' (kept ▸ there)
      · exact absurd none there
  · intro key' stem there
    rcases other _ (.ir stem) (irPlace_ne_markerPlace _ _ _) with kept | none
    · rw [kept] at there ⊢
      exact sound.ir stem there
    · exact absurd none there

/-- Compiled IR may come to lie where it is judged as is told. -/
theorem Sound.built {told : String → Option Classification} {v : View} {key : String}
    {bytes : Bytes} (sound : Sound b c told v)
    (tells : verdict? (judged b c .binaryIr bytes) = told key) :
    Sound b c told (v.put (irPlace b c key) (some (.file bytes false))) := by
  constructor
  · intro key' ending' verdict' stem ends' there
    rw [View.put_other (irPlace_ne_markerPlace _ _ _).symm] at there
    exact sound.marker stem ends' there
  · intro key' stem there
    by_cases same : irPlace b c key' = irPlace b c key
    · obtain rfl := entry_key_inj same
      exact ⟨bytes, false, View.put_self .., tells⟩
    · rw [View.put_other same] at there ⊢
      exact sound.ir stem there

/-! ## Looking up -/

theorem place_marker {key ending : String} {verdict : Classification} (stem : Stem (utf8 key))
    (ends : Cache.markerEnding? verdict = some ending) :
    b.place ((cacheOf c).resultsDir / Path.ofString (key ++ "." ++ ending)) =
      markerPlace b c key ending := by
  have clean : Path.slash ∉ utf8 ending := by
    cases verdict with
    | interesting => cases ends
    | uninteresting =>
      obtain rfl := Option.some.inj ends
      decide
    | uncompilable =>
      obtain rfl := Option.some.inj ends
      decide
  apply place_entry
  have := stem.proper clean
  simpa [utf8_dot] using this

theorem hasMarker_run {key ending : String} {verdict : Classification} (stem : Stem (utf8 key))
    (ends : Cache.markerEnding? verdict = some ending) :
    ((cacheOf c).hasMarker key verdict).run b.host s =
      ((s.tree.node? (markerPlace b c key ending)).isSome, s) := by
  have path : (cacheOf c).markerPath? key verdict =
      some ((cacheOf c).resultsDir / Path.ofString (key ++ "." ++ ending)) := by
    simp [Cache.markerPath?, ends]
  simp only [Cache.hasMarker, path]
  rw [run_exists, Trees.exists, place_marker stem ends]

/-- A lookup finds a verdict exactly where its marker is, and changes nothing. -/
theorem lookup_spec {key : String} (stem : Stem (utf8 key)) :
    ∃ r, ((cacheOf c).lookup key).run b.host s = (r, s) ∧
      match r with
      | some verdict => ∃ ending, Cache.markerEnding? verdict = some ending ∧
          s.tree.node? (markerPlace b c key ending) ≠ none
      | none => ∀ ending verdict, Cache.markerEnding? verdict = some ending →
          s.tree.node? (markerPlace b c key ending) = none := by
  unfold Cache.lookup
  rw [run_bind, hasMarker_run stem (show Cache.markerEnding? .uninteresting = _ from rfl)]
  cases clean : s.tree.node? (markerPlace b c key "uninteresting") with
  | some node => exact ⟨_, rfl, "uninteresting", rfl, by simp [clean]⟩
  | none =>
    simp only [Option.isSome_none, Bool.false_eq_true, if_false]
    rw [run_bind, hasMarker_run stem (show Cache.markerEnding? .uncompilable = _ from rfl)]
    cases broken : s.tree.node? (markerPlace b c key "nocompile") with
    | some node => exact ⟨_, rfl, "nocompile", rfl, by simp [broken]⟩
    | none =>
      refine ⟨_, rfl, fun ending verdict ends => ?_⟩
      cases verdict with
      | interesting => cases ends
      | uninteresting =>
        obtain rfl := Option.some.inj ends
        exact clean
      | uncompilable =>
        obtain rfl := Option.some.inj ends
        exact broken

/-! ## Storing -/

theorem touch_change {t u : FileTree} {place : Place} (touched : touch t place = .ok u) :
    Change (· = place) t.node? u.node? := by
  unfold touch at touched
  split at touched
  · obtain rfl := Except.ok.inj touched
    exact .refl ..
  · exact write_change touched

/-- Removing a file that may be missing. -/
theorem removeIfPresent_spec (p : Path) :
    ∃ r t, exec b.host s (Cache.removeIfPresent p) = (r, t) ∧
      Change (· = b.place p) s.tree.node? t.tree.node? ∧
      (t.tree.node? (b.place p) = s.tree.node? (b.place p) ∨ t.tree.node? (b.place p) = none) := by
  unfold exec Cache.removeIfPresent
  rw [ExceptT.run_mk, run_bind, run_remove]
  cases removed : Trees.remove s.tree (b.place p) with
  | ok u =>
    obtain ⟨change, gone⟩ := remove_change removed
    exact ⟨_, _, rfl, change, .inr gone⟩
  | error cause => exact ⟨_, _, rfl, .refl .., .inl rfl⟩

/-- A file is gone after it has been removed, if it was there at all. -/
theorem removeIfPresent_gone {p : Path} (plain : View.directory s.tree.node? (b.place p) = false) :
    ∃ t, exec b.host s (Cache.removeIfPresent p) = (.ok (), t) ∧
      Change (· = b.place p) s.tree.node? t.tree.node? ∧ t.tree.node? (b.place p) = none := by
  unfold exec Cache.removeIfPresent
  rw [ExceptT.run_mk, run_bind, run_remove]
  obtain ⟨u, removed, change, gone⟩ | ⟨cause, failed, missing, free⟩ := remove_spec plain
  · rw [removed]
    exact ⟨_, rfl, change, gone⟩
  · rw [failed]
    simp only [Bench.change, missing, if_true]
    exact ⟨s, rfl, .refl .., free⟩

/-- Storing a verdict leaves its marker, and no marker but its own comes to be there. -/
theorem store_spec {key ending : String} {verdict : Classification} (stem : Stem (utf8 key))
    (ends : Cache.markerEnding? verdict = some ending) :
    ∃ r t, exec b.host s ((cacheOf c).store key verdict) = (r, t) ∧
      Change (Slot b c) s.tree.node? t.tree.node? ∧
      ∀ q, Slot b c q → q ≠ markerPlace b c key ending →
        t.tree.node? q = s.tree.node? q ∨ t.tree.node? q = none := by
  obtain ⟨another, other, otherEnds, markers⟩ : ∃ another reached,
      Cache.markerEnding? reached = some another ∧
      (cacheOf c).markerPath? key verdict =
        some ((cacheOf c).resultsDir / Path.ofString (key ++ "." ++ ending)) ∧
      (Cache.opposite? verdict).bind ((cacheOf c).markerPath? key) =
        some ((cacheOf c).resultsDir / Path.ofString (key ++ "." ++ another)) := by
    cases verdict with
    | interesting => cases ends
    | uninteresting =>
      obtain rfl := Option.some.inj ends
      exact ⟨"nocompile", .uncompilable, rfl, by simp [Cache.markerPath?, Cache.markerEnding?],
        by simp [Cache.opposite?, Cache.markerPath?, Cache.markerEnding?]⟩
    | uncompilable =>
      obtain rfl := Option.some.inj ends
      exact ⟨"uninteresting", .uninteresting, rfl, by simp [Cache.markerPath?, Cache.markerEnding?],
        by simp [Cache.opposite?, Cache.markerPath?, Cache.markerEnding?]⟩
  unfold Cache.store
  simp only [markers.1, markers.2]
  rw [exec_bind, exec_orFail, run_touch, place_marker stem ends]
  cases touched : Trees.touch s.tree (markerPlace b c key ending) with
  | error cause => exact ⟨_, _, rfl, .refl .., fun _ _ _ => .inl rfl⟩
  | ok u =>
    have change := touch_change touched
    obtain ⟨r, t, ran, removed, gone⟩ := @removeIfPresent_spec b { s with tree := u }
      ((cacheOf c).resultsDir / Path.ofString (key ++ "." ++ another))
    rw [place_marker stem otherEnds] at removed gone
    refine ⟨r, t, ran, ?_, ?_⟩
    · refine (change.mono ?_).trans (removed.mono ?_)
      · rintro q rfl
        exact .marker stem ends
      · rintro q rfl
        exact .marker stem otherEnds
    · intro q _ notMarker
      rw [← change.elsewhere q notMarker]
      by_cases same : q = markerPlace b c key another
      · exact same ▸ gone
      · exact .inl (removed.elsewhere q same)

end BugHunt.Proofs.Caching
