import BugHunt.Proofs.Caching
import BugHunt.Proofs.Growth
/-!
Checking a program on a bench: the cache stays true, and a check that succeeds counts the verdicts
that go with the bytes of the program.
-/

namespace BugHunt.Proofs.Keeping
open Trees Texts Names Places Runs Bench Growth Outcomes Building Judging Reducing Caching

variable {b : Bench} {c : Config} {s : State} {told : String → Option Classification}
  {a : Artifact}

/-- A configuration that fits the bench: assertions are named by plain file names, and the output
directory is apart from the cache. -/
structure Grounds (b : Bench) (c : Config) : Prop extends Sited b c where
  assertions : ∀ relation ∈ c.assertions, Proper (utf8 relation)
  output : ¬ b.place c.cacheRoot <+: b.place c.outputRoot

/-- What a check keeps: the cache is true, directories stay, and so does the source. -/
structure Held (b : Bench) (c : Config) (told : String → Option Classification) (a : Artifact)
    (v t : View) : Prop where
  sound : Sound b c told t
  steady : ∀ q, v.directory q → t.directory q
  source : a.isSource → t (b.place a.path) = v (b.place a.path)

theorem Held.refl {v : View} (sound : Sound b c told v) : Held b c told a v v :=
  ⟨sound, fun _ h => h, fun _ => rfl⟩

theorem Held.trans {v t u : View} (h : Held b c told a v t) (k : Held b c told a t u) :
    Held b c told a v u :=
  ⟨k.sound, fun q there => k.steady q (h.steady q there),
    fun isSource => (k.source isSource).trans (h.source isSource)⟩

theorem place_program (b : Bench) (a : Artifact) : ∃ parent stem extension,
    Programmed a.path a.kind stem extension ∧
      b.place a.path = parent ++ [stem ++ Path.dot :: extension] := by
  obtain ⟨stem, extension, programmed⟩ := programmed_of_kind a.kind_of_path
  obtain ⟨parent, place⟩ := placeOf_fileName b.here programmed.named
  exact ⟨parent, stem, extension, programmed, place⟩

/-- A source lies at no place whose name has another extension than a source. -/
theorem source_ne_entry (isSource : a.isSource) {directory : Place} {stem : Bytes} {ending : String}
    (plain : Path.dot ∉ utf8 ending)
    (unlike : ∀ kind : Kind, kind.isSource →
      (Text.decode? (utf8 ending)).bind Kind.ofExtension? ≠ some kind) :
    b.place a.path ≠ directory ++ [stem ++ Path.dot :: utf8 ending] := by
  obtain ⟨parent, ownStem, extension, programmed, place⟩ := place_program b a
  rw [place]
  intro same
  exact programmed.ne_ended plain (unlike a.kind isSource) (List.singleton_inj.mp
    (List.append_inj' same rfl).2)

theorem unlike_of_none {ending : String}
    (none : (Text.decode? (utf8 ending)).bind Kind.ofExtension? = none) (kind : Kind)
    (_ : kind.isSource) : (Text.decode? (utf8 ending)).bind Kind.ofExtension? ≠ some kind := by
  simp [none]

theorem unlike_bc (kind : Kind) (isSource : kind.isSource) :
    (Text.decode? (utf8 "bc")).bind Kind.ofExtension? ≠ some kind := by
  have binary : (Text.decode? (utf8 "bc")).bind Kind.ofExtension? = some .binaryIr := by
    decide +kernel
  rw [binary]
  intro same
  obtain rfl := Option.some.inj same
  cases isSource

theorem unlike_ll (kind : Kind) (isSource : kind.isSource) :
    (Text.decode? (utf8 "ll")).bind Kind.ofExtension? ≠ some kind := by
  have text : (Text.decode? (utf8 "ll")).bind Kind.ofExtension? = some .textIr := by
    decide +kernel
  rw [text]
  intro same
  obtain rfl := Option.some.inj same
  cases isSource

theorem entry_bytes_eq (key ending : String) :
    utf8 (key ++ "." ++ ending) = utf8 key ++ Path.dot :: utf8 ending := by
  simp [utf8_dot]

/-- No source lies where a check looks into the cache. -/
theorem source_not_slot (isSource : a.isSource) : ¬ Slot b c (b.place a.path) := by
  intro slot
  generalize isPlace : b.place a.path = q at slot
  cases slot with
  | ir stem =>
    rw [irPlace, entry_bytes_eq] at isPlace
    exact source_ne_entry isSource (by decide) unlike_bc isPlace
  | @marker key ending verdict stem ends =>
    rw [markerPlace, entry_bytes_eq] at isPlace
    cases verdict with
    | interesting => cases ends
    | uninteresting =>
      obtain rfl := Option.some.inj ends
      exact source_ne_entry isSource (by decide) (unlike_of_none (by decide +kernel)) isPlace
    | uncompilable =>
      obtain rfl := Option.some.inj ends
      exact source_ne_entry isSource (by decide) (unlike_of_none (by decide +kernel)) isPlace

/-- No reduction touches the cache. -/
theorem slot_not_area (grounds : Grounds b c) {spared : Place → Prop} {q : Place}
    (slot : Slot b c q) : ¬ Area b c spared q := by
  obtain ⟨directory, name, rfl, -, -⟩ := slot.form
  rintro ⟨onTheWay | ⟨last, entry⟩, -⟩
  · exact grounds.output ((List.prefix_append _ _).trans onTheWay)
  · have parent : b.place c.cacheRoot ++ [directory] = b.place c.outputRoot := by
      have := congrArg List.dropLast entry
      simpa using this
    exact grounds.output (parent ▸ List.prefix_append _ _)

/-! ## The steps of a check -/

/-- What building hands on: IR that is judged as is told, or that the program does not compile. -/
def Handed (b : Bench) (c : Config) (told : String → Option Classification) (v : View)
    (variant : Variant) : Prop :=
  if variant.success then
    ∃ kind bytes, Kind.ofPath? variant.irPath = some kind ∧ endsIdle variant.irPath = false ∧
      (∃ executable, v (b.place variant.irPath) = some (.file bytes executable)) ∧
      verdict? (judged b c kind bytes) = told variant.key
  else told variant.key = some .uncompilable

theorem compiledName_proper {outDir : Path} {flags : List String} {source : Bytes} {p : Plan}
    (isPlan : p = Plan.ofContent c.extraArgs outDir a flags source) :
    Proper (utf8 (p.key ++ "." ++ "bc")) := by
  subst isPlan
  rw [entry_bytes_eq]
  exact (key_stem c.extraArgs outDir a flags source).proper (by decide)

theorem irPath_fileName {outDir : Path} {flags : List String} {source : Bytes}
    {p : Plan} (isSource : a.isSource)
    (isPlan : p = Plan.ofContent c.extraArgs outDir a flags source) :
    p.irPath.fileName? = some (utf8 (p.key ++ "." ++ "bc")) := by
  have proper := compiledName_proper isPlan
  subst isPlan
  rw [irPath_of_source isSource]
  exact entry_fileName _ proper

/-- The IR of a source. -/
theorem irPath_spec {outDir : Path} {flags : List String} {source : Bytes}
    {p : Plan} (isSource : a.isSource)
    (isPlan : p = Plan.ofContent c.extraArgs outDir a flags source) :
    b.place p.irPath = b.place outDir ++ [utf8 (p.key ++ "." ++ "bc")] ∧
      Kind.ofPath? p.irPath = some .binaryIr ∧ endsIdle p.irPath = false := by
  have proper := compiledName_proper isPlan
  subst isPlan
  have stem := key_stem c.extraArgs outDir a flags source
  refine ⟨place_irPath isSource, ?_, ?_⟩
  · rw [irPath_of_source isSource, entry_kind _ stem (by decide) (by decide)]
    decide +kernel
  · rw [irPath_of_source isSource]
    exact endsIdle_entry _ proper

/-- Making a directory that lies higher than the slots touches none of them. -/
theorem slot_of_extends {v w : View} {place : Place} (more : Extends v w place)
    (high : place.length ≤ (b.place c.cacheRoot).length + 1) :
    ∀ q, Slot b c q → w q = v q := by
  intro q slot
  obtain ⟨directory, name, rfl, -, -⟩ := slot.form
  by_cases same : w (b.place c.cacheRoot ++ [directory, name]) =
      v (b.place c.cacheRoot ++ [directory, name])
  · exact same
  · have length := (more.new _ same).1.length_le
    simp only [List.length_append, List.length_cons, List.length_nil] at length
    omega

/-- A build in the directory of the cache, of a source without IR there yet. -/
theorem compiled_held {flags : List String} {source : Bytes} {p : Plan} {v : View}
    (prepared : Held b c told a v s.tree.node?)
    (isPlan : p = Plan.ofContent c.extraArgs (cacheOf c).irDir a flags source)
    (isSource : a.isSource) (there : content s.tree (b.place a.path) = some source)
    (directory : View.directory s.tree.node? (b.place (cacheOf c).irDir))
    (free : s.tree.node? (b.place p.irPath) = none)
    (tells : told p.key = reached b c a flags source) :
    ∃ r t, exec b.host s (Compile.build c (cacheOf c).irDir a p) = (r, t) ∧
      Held b c told a v t.tree.node? ∧
      ∀ variant, r = .ok variant → variant.toPlan = p ∧ Handed b c told t.tree.node? variant := by
  have stem : Stem (utf8 p.key) := isPlan ▸ key_stem ..
  obtain ⟨place, isKind, named⟩ := @irPath_spec b c a _ flags source p isSource isPlan
  change b.place p.irPath = irPlace b c p.key at place
  obtain ⟨r, t, ran, result⟩ := @build_spec b c s _ a flags source p isPlan isSource there
    directory free
  refine ⟨r, t, ran, ?_⟩
  rw [reached, if_pos isSource] at tells
  cases outcome : compiled b c a.kind flags source with
  | bitcode bytes =>
    rw [outcome] at result tells
    obtain ⟨rfl, view⟩ := result
    have view' : t.tree.node? = View.put s.tree.node? (irPlace b c p.key)
        (some (.file bytes false)) := place ▸ view
    refine ⟨prepared.trans ⟨?_, ?_, ?_⟩, ?_⟩
    · rw [view']
      exact prepared.sound.built tells.symm
    · rw [view']
      refine (@Change.put (fun _ => True) _ _ _ trivial ?_ rfl).directories
      exact View.directory_of_none (place ▸ free)
    · rw [view', View.put_other]
      · exact fun _ => rfl
      · exact fun same => source_not_slot isSource (same ▸ Slot.ir stem)
    · rintro variant same
      obtain rfl := Except.ok.inj same
      refine ⟨rfl, ?_⟩
      simp only [Handed, if_true]
      refine ⟨.binaryIr, bytes, isKind, named, ⟨false, ?_⟩, tells.symm⟩
      rw [view, View.put_self]
  | failed =>
    rw [outcome] at result tells
    obtain ⟨rfl, view⟩ := result
    rw [view]
    refine ⟨prepared, ?_⟩
    rintro variant same
    obtain rfl := Except.ok.inj same
    exact ⟨rfl, by simpa [Handed] using tells⟩
  | impossible =>
    rw [outcome] at result
    obtain ⟨⟨e, rfl⟩, view⟩ := result
    rw [view]
    exact ⟨prepared, fun variant same => by cases same⟩

/-- Building keeps the cache true. -/
theorem build_held {flags : List String} {source : Bytes} {p : Plan}
    (sound : Sound b c told s.tree.node?)
    (isPlan : p = Plan.ofContent c.extraArgs (cacheOf c).irDir a flags source)
    (named : endsIdle a.path = false)
    (there : content s.tree (b.place a.path) = some source)
    (tells : told p.key = reached b c a flags source) :
    ∃ r t, exec b.host s (Compile.build c (cacheOf c).irDir a p) = (r, t) ∧
      Held b c told a s.tree.node? t.tree.node? ∧
      ∀ variant, r = .ok variant → variant.toPlan = p ∧ Handed b c told t.tree.node? variant := by
  by_cases isSource : a.isSource
  · have stem : Stem (utf8 p.key) := isPlan ▸ key_stem ..
    obtain ⟨place, isKind, named⟩ := @irPath_spec b c a _ flags source p isSource isPlan
    change b.place p.irPath = irPlace b c p.key at place
    by_cases missing : s.tree.node? (b.place p.irPath) = none
    · cases made : Trees.createDirectories s.tree (b.place (cacheOf c).irDir) with
      | error cause =>
        refine ⟨_, _, build_without_directory isSource missing made, .refl sound, ?_⟩
        rintro variant same
        cases same
      | ok u =>
        obtain ⟨more, directory⟩ := createDirectories_spec made
        have slots := @slot_of_extends b c _ _ _ more (by simp [place_irDir])
        have sourceNode : s.tree.node? (b.place a.path) ≠ none := by
          obtain ⟨executable, isFile⟩ := content_eq_some.mp there
          simp [isFile]
        have prepared : Held b c told a s.tree.node? u.node? :=
          ⟨sound.of_slots fun q slot => .inl (slots q slot), more.change.directories,
            fun _ => more.kept _ sourceNode⟩
        have free : u.node? (b.place p.irPath) = none := by
          rw [place, slots _ (.ir stem), ← place]
          exact missing
        have still : content u (b.place a.path) = some source := by
          rw [content_of_node?, more.kept _ sourceNode, ← content_of_node?]
          exact there
        obtain ⟨r, t, ran, held⟩ := @compiled_held b c { s with tree := u } told a flags source p _
          prepared isPlan isSource still directory free tells
        exact ⟨r, t, (build_directories isSource missing made free).trans ran, held⟩
    · refine ⟨_, _, build_of_there missing, .refl sound, ?_⟩
      rintro variant same
      obtain rfl := Except.ok.inj same
      obtain ⟨bytes, executable, isFile, judgedAs⟩ := sound.ir stem (place ▸ missing)
      refine ⟨rfl, ?_⟩
      simp only [Handed, if_true]
      exact ⟨.binaryIr, bytes, isKind, named, ⟨executable, place ▸ isFile⟩, judgedAs⟩
  · have ir : a.isSource = false := by simpa using isSource
    refine ⟨_, _, build_of_ir ir, .refl sound, ?_⟩
    rintro variant same
    obtain rfl := Except.ok.inj same
    refine ⟨rfl, ?_⟩
    have path : p.irPath = a.path := isPlan ▸ irPath_of_ir ir
    simp only [Handed, if_true]
    rw [path]
    refine ⟨a.kind, source, a.kind_of_path, named, content_eq_some.mp there, ?_⟩
    rw [tells, reached, if_neg isSource]

/-- What scratch directories leave of a view. -/
theorem scratched_held {v u t : View} {keep : Bool} (sound : Sound b c told v)
    (rooted : Rooted b c v) (there : a.isSource → v (b.place a.path) ≠ none)
    (slots : ∀ q, Slot b c q → u q = v q) (steady : ∀ q, v.directory q → u.directory q)
    (source : a.isSource → u (b.place a.path) = v (b.place a.path))
    (scratched : Scratched b keep v u t) : Held b c told a v t := by
  obtain ⟨before, name, drawn, differs⟩ := scratched
  have same (q : Place) (outside : name ∉ q) : t q = u q := by
    by_cases same : t q = u q
    · exact same
    · exact absurd (mem_of_below (differs q same).2) outside
  refine ⟨?_, ?_, ?_⟩
  · refine sound.of_slots fun q slot => .inl ?_
    rw [same q (rooted.notMem_slot drawn slot), slots q slot]
  · intro q isDirectory
    have old : name ∉ q := by
      apply drawn.fresh
      intro none
      simp [View.directory, none] at isDirectory
    rw [View.directory, same q old]
    exact steady q isDirectory
  · intro isSource
    rw [same _ (drawn.fresh _ (there isSource)), source isSource]

/-- Judging keeps the cache true, and comes to no other verdict than the one on the bytes. -/
theorem classify_held {p : Path} {kind : Kind} {bytes : Bytes} {executable : Bool}
    (sound : Sound b c told s.tree.node?) (rooted : Rooted b c s.tree.node?)
    (proper : ∀ relation ∈ c.assertions, Proper (utf8 relation))
    (isKind : Kind.ofPath? p = some kind) (named : endsIdle p = false)
    (isFile : s.tree.node? (b.place p) = some (.file bytes executable))
    (apart : ∀ stage, View.writable s.tree.node? (crashPlace b p stage) →
      ¬ Slot b c (crashPlace b p stage))
    (spares : a.isSource → ∀ stage, b.place a.path ≠ crashPlace b p stage)
    (there : a.isSource → s.tree.node? (b.place a.path) ≠ none) :
    ∃ r t, exec b.host s (Oracle.classify c p) = (r, t) ∧
      Held b c told a s.tree.node? t.tree.node? ∧
      ∀ verdict, r = .ok verdict → verdict? (judged b c kind bytes) = some verdict := by
  have fileThere := content_eq_some.mpr ⟨executable, isFile⟩
  by_cases temporary : View.directory s.tree.node? (b.place b.temporary)
  · obtain ⟨r, t, ran, concluded⟩ := @classify_spec b c s p kind bytes isKind named fileThere
      temporary proper
    refine ⟨r, t, ran, ?_⟩
    have unchanged (scratched : Scratched b c.debug s.tree.node? s.tree.node? t.tree.node?) :
        Held b c told a s.tree.node? t.tree.node? :=
      scratched_held sound rooted there (fun _ _ => rfl) (fun _ h => h) (fun _ => rfl) scratched
    cases outcome : judged b c kind bytes with
    | verdict verdict =>
      rw [outcome] at concluded
      obtain ⟨rfl, close⟩ := concluded
      refine ⟨unchanged close, ?_⟩
      rintro other same
      obtain rfl := Except.ok.inj same
      rfl
    | impossible =>
      rw [outcome] at concluded
      obtain ⟨⟨e, rfl⟩, close⟩ := concluded
      exact ⟨unchanged close, fun _ same => by cases same⟩
    | crash stage verdict =>
      rw [outcome] at concluded
      by_cases writable : View.writable s.tree.node? (crashPlace b p stage)
      · simp only [Concluded, writable, if_true] at concluded
        obtain ⟨rfl, report, close⟩ := concluded
        have noDirectory : View.directory s.tree.node? (crashPlace b p stage) = false :=
          (View.writable_iff.mp writable).1
        refine ⟨scratched_held sound rooted there ?_ ?_ ?_ close, ?_⟩
        · intro q slot
          refine View.put_other ?_
          rintro rfl
          exact apart stage writable slot
        · exact (@Change.put (fun _ => True) _ _ _ trivial noDirectory rfl).directories
        · exact fun isSource => View.put_other (spares isSource stage)
        · rintro other same
          obtain rfl := Except.ok.inj same
          rfl
      · simp only [Concluded, writable, Bool.false_eq_true, if_false] at concluded
        obtain ⟨⟨e, rfl⟩, close⟩ := concluded
        exact ⟨unchanged close, fun _ same => by cases same⟩
  · obtain ⟨parent, last, -, hasName, -⟩ := @crashPlace_eq b p kind isKind named .analysis
    obtain ⟨e, failed⟩ := @classify_without_temporary b c s p last hasName (by simpa using temporary)
    exact ⟨_, _, failed, .refl sound, fun _ same => by cases same⟩

/-- The sentinel of compiled IR lies beside it. -/
theorem crashPlace_irPath {outDir : Path} {flags : List String} {source : Bytes}
    {p : Plan} (isSource : a.isSource)
    (isPlan : p = Plan.ofContent c.extraArgs outDir a flags source) (stage : Stage) :
    crashPlace b p.irPath stage = b.place outDir ++
      [utf8 p.key ++ Path.dot :: utf8 stage.sentinelExtension] := by
  subst isPlan
  have stem := key_stem c.extraArgs outDir a flags source
  have clean : Path.slash ∉ utf8 stage.sentinelExtension := by cases stage <;> decide
  rw [crashPlace, irPath_of_source isSource,
    entry_withExtension _ stem (by decide) (by decide) clean, place_entry, entry_bytes_eq]
  rw [entry_bytes_eq]
  exact stem.proper clean

/-- A sentinel is never written where a check looks into the cache. -/
theorem sentinel_not_slot {p : Path} {kind : Kind} {v : View} (grown : Grown v)
    (isKind : Kind.ofPath? p = some kind) (named : endsIdle p = false)
    (there : v (b.place p) ≠ none) (stage : Stage) (writable : v.writable (crashPlace b p stage)) :
    ¬ Slot b c (crashPlace b p stage) := by
  obtain ⟨parent, name, place, -, crash⟩ := @crashPlace_eq b p kind isKind named stage
  rcases crash with crash | ⟨stem, crash, -⟩
  · have inside := grown _ there
    rw [place, List.dropLast_concat] at inside
    simp [View.writable, crash, grown.parent inside] at writable
  · rw [crash]
    refine @not_slot b c _ _ stage.sentinelExtension ⟨stem ++ [Path.dot], by simp⟩ ?_
    cases stage <;> decide

theorem sentinel_spares {flags : List String} {source : Bytes} {p : Plan}
    (isPlan : p = Plan.ofContent c.extraArgs (cacheOf c).irDir a flags source)
    (isSource : a.isSource) (stage : Stage) : b.place a.path ≠ crashPlace b p.irPath stage := by
  rw [crashPlace_irPath isSource isPlan]
  refine source_ne_entry isSource (by cases stage <;> decide) (unlike_of_none ?_)
  cases stage <;> decide +kernel

theorem store_held {key : String} {verdict : Classification} (sound : Sound b c told s.tree.node?)
    (stem : Stem (utf8 key)) (tells : told key = some verdict) :
    ∃ r t, exec b.host s ((cacheOf c).store key verdict) = (r, t) ∧
      Held b c told a s.tree.node? t.tree.node? := by
  cases ends : Cache.markerEnding? verdict with
  | none =>
    refine ⟨.error (.notCacheable verdict), s, ?_, .refl sound⟩
    simp only [Cache.store, Cache.markerPath?, ends]
    rfl
  | some ending =>
    obtain ⟨r, t, ran, change, other⟩ := @store_spec b c s key ending verdict stem ends
    refine ⟨r, t, ran, sound.marked ends tells other, change.directories, fun isSource => ?_⟩
    exact change.elsewhere _ (source_not_slot isSource)

theorem settle_held {flags : List String} {source : Bytes} {variant : Variant}
    {verdict : Classification} (sound : Sound b c told s.tree.node?)
    (isPlan : variant.toPlan = Plan.ofContent c.extraArgs (cacheOf c).irDir a flags source)
    (tells : told variant.key = some verdict) :
    ∃ r t, exec b.host s (Check.settle c (cacheOf c) a variant verdict) = (r, t) ∧
      Held b c told a s.tree.node? t.tree.node? := by
  have stem : Stem (utf8 variant.key) := isPlan ▸ key_stem ..
  obtain ⟨r, t, ran, held⟩ := @store_held b c s told a variant.key verdict sound stem tells
  unfold Check.settle
  rw [exec_bind, exec_adapt, ran]
  cases r with
  | error e => exact ⟨_, _, rfl, held⟩
  | ok value =>
    simp only [mapError_ok]
    by_cases drops : a.isSource && !c.debug
    · simp only [drops, if_true]
      rw [exec_adapt]
      obtain ⟨r, u, ran, change, gone⟩ := @removeIfPresent_spec b t variant.irPath
      rw [ran]
      have isSource : a.isSource := by
        rw [Bool.and_eq_true] at drops
        exact drops.1
      have slot : Slot b c (b.place variant.irPath) := by
        rw [(irPath_spec isSource isPlan).1]
        exact .ir stem
      refine ⟨_, _, rfl, held.trans ⟨held.sound.of_slots fun q _ => ?_, change.directories, ?_⟩⟩
      · by_cases same : q = b.place variant.irPath
        · exact same ▸ gone
        · exact .inl (change.elsewhere q same)
      · exact fun isSource => change.elsewhere _ fun same => source_not_slot isSource (same ▸ slot)
    · simp only [drops, Bool.false_eq_true, if_false]
      exact ⟨_, _, rfl, held⟩

/-- The name of a variant can stand in a file name. -/
theorem slash_notMem_variantName {flags : List String} {source : Bytes} {variant : Variant}
    (isPlan : variant.toPlan = Plan.ofContent c.extraArgs (cacheOf c).irDir a flags source) :
    '/' ∉ variant.name.toList := by
  by_cases isSource : a.isSource
  · exact slash_notMem_name (irPath_fileName isSource isPlan)
  · have ir : a.isSource = false := by simpa using isSource
    obtain ⟨stem, extension, programmed⟩ := programmed_of_kind a.kind_of_path
    have path : variant.irPath = a.path := by
      rw [isPlan]
      exact irPath_of_ir ir
    rw [Variant.name, path]
    exact slash_notMem_name programmed.named

/-- The counts of verdicts in a summary. -/
def counts (s : Summary) : Nat × Nat × Nat := (s.interesting, s.uninteresting, s.uncompilable)

/-- Where the source of a variant lies, reductions leave the files alone. -/
theorem source_spared {v : View} (there : a.isSource → v (b.place a.path) ≠ none) :
    Spared b c v fun q => a.isSource ∧ q = b.place a.path where
  there := by
    rintro q ⟨isSource, rfl⟩
    exact there isSource
  notBinary := by
    rintro stem ⟨isSource, same⟩
    exact source_ne_entry isSource (by decide) unlike_bc same.symm
  notText := by
    rintro stem ⟨isSource, same⟩
    exact source_ne_entry isSource (by decide) unlike_ll same.symm

/-- Keeping a variant does not overwrite its source. -/
theorem keptName_spared {flags : List String} {source : Bytes} {variant : Variant}
    (isPlan : variant.toPlan = Plan.ofContent c.extraArgs (cacheOf c).irDir a flags source) :
    ¬ (a.isSource ∧ b.place c.outputRoot ++ [utf8 (Reduce.keptName variant)] = b.place a.path) := by
  rintro ⟨isSource, same⟩
  have name : Reduce.keptName variant = "interesting-" ++ variant.key ++ "." ++ "bc" := by
    rw [keptName_eq, Variant.name, Path.name, irPath_fileName isSource isPlan]
    simp only [lossy_utf8, String.append_assoc]
  rw [name, entry_bytes_eq] at same
  exact source_ne_entry isSource (by decide) unlike_bc same.symm

theorem reduce_held (grounds : Grounds b c) {flags : List String} {source : Bytes}
    {variant : Variant} (sound : Sound b c told s.tree.node?)
    (isPlan : variant.toPlan = Plan.ofContent c.extraArgs (cacheOf c).irDir a flags source)
    (there : a.isSource → s.tree.node? (b.place a.path) ≠ none) (sum : Summary) :
    ∃ r t, exec b.host s (Check.reduce c a variant sum) = (r, t) ∧
      Held b c told a s.tree.node? t.tree.node? ∧
      ∀ sum', r = .ok sum' → counts sum' = counts sum := by
  have kept := dispatch_kept grounds.toSited (source_spared there) a
    (slash_notMem_variantName isPlan) (keptName_spared isPlan) s (.refl ..)
  unfold Check.reduce
  rw [exec_bind, exec_lift]
  rw [show Program.run b.host s (Reduce.dispatch c a variant).run =
    exec b.host s (Reduce.dispatch c a variant) from rfl]
  generalize exec b.host s (Reduce.dispatch c a variant) = result at kept
  obtain ⟨result, t⟩ := result
  have held : Held b c told a s.tree.node? t.tree.node? := by
    refine ⟨sound.of_slots fun q slot => .inl ?_, kept.directories, fun isSource => ?_⟩
    · exact kept.elsewhere q (slot_not_area grounds slot)
    · exact kept.elsewhere _ fun inside => inside.2 ⟨isSource, rfl⟩
  cases result with
  | ok reduced =>
    refine ⟨.ok sum, t, rfl, held, ?_⟩
    rintro sum' same
    obtain rfl := Except.ok.inj same
    rfl
  | error e =>
    cases e with
    | minimizerFailed tool input detail =>
      refine ⟨.ok sum.withReduceFailure, t, rfl, held, ?_⟩
      rintro sum' same
      obtain rfl := Except.ok.inj same
      rfl
    | compile e => exact ⟨_, t, rfl, held, fun _ same => by cases same⟩
    | run e => exact ⟨_, t, rfl, held, fun _ same => by cases same⟩
    | files path cause => exact ⟨_, t, rfl, held, fun _ same => by cases same⟩

theorem exec_report (name : String) (verdict : Classification) (sum : Summary) :
    exec b.host s (Check.report c name verdict sum) = (.ok (sum.record verdict), s) := rfl

theorem counts_record {s t : Summary} (same : counts s = counts t) (verdict : Classification) :
    counts (s.record verdict) = counts (t.record verdict) := by
  simp only [counts, Prod.mk.injEq] at same
  obtain ⟨h, k, l⟩ := same
  cases verdict <;> simp [counts, Summary.record, h, k, l]

/-- A result counts a verdict that is told. -/
def Counted (told : String → Option Classification) (key : String) (sum : Summary)
    (r : Except PipelineError Summary) : Prop :=
  ∀ sum', r = .ok sum' → ∃ verdict, told key = some verdict ∧
    counts sum' = counts (sum.record verdict)

theorem Counted.error {key : String} {sum : Summary} (e : PipelineError) :
    Counted told key sum (.error e) := fun _ same => by cases same

theorem settle_counted {flags : List String} {source : Bytes} {variant : Variant}
    {verdict : Classification} (sound : Sound b c told s.tree.node?)
    (isPlan : variant.toPlan = Plan.ofContent c.extraArgs (cacheOf c).irDir a flags source)
    (tells : told variant.key = some verdict) (sum : Summary) :
    ∃ r t, exec b.host s (do
        Check.settle c (cacheOf c) a variant verdict
        return sum.record verdict) = (r, t) ∧
      Held b c told a s.tree.node? t.tree.node? ∧ Counted told variant.key sum r := by
  obtain ⟨r, t, ran, held⟩ := settle_held sound isPlan tells
  rw [exec_bind, ran]
  cases r with
  | error e => exact ⟨_, _, rfl, held, .error _⟩
  | ok value => exact ⟨_, _, rfl, held, fun _ same => ⟨verdict, tells, by cases same; rfl⟩⟩

/-- A variant that the cache does not know. -/
theorem fresh_held (grounds : Grounds b c) {flags : List String} {source : Bytes} {p : Plan}
    (sound : Sound b c told s.tree.node?) (rooted : Rooted b c s.tree.node?)
    (grown : Grown s.tree.node?)
    (isPlan : p = Plan.ofContent c.extraArgs (cacheOf c).irDir a flags source)
    (named : endsIdle a.path = false)
    (there : content s.tree (b.place a.path) = some source)
    (tells : told p.key = reached b c a flags source) (sum : Summary) :
    ∃ r t, exec b.host s (Check.fresh c (cacheOf c) a p sum) = (r, t) ∧
      Held b c told a s.tree.node? t.tree.node? ∧ Counted told p.key sum r := by
  obtain ⟨built, t, ran, held, hands⟩ := build_held sound isPlan named there tells
  have sourceThere : s.tree.node? (b.place a.path) ≠ none := by
    obtain ⟨executable, isFile⟩ := content_eq_some.mp there
    simp [isFile]
  unfold Check.fresh
  rw [exec_bind, exec_adapt, ran]
  cases built with
  | error e => exact ⟨_, _, rfl, held, .error _⟩
  | ok variant =>
    obtain ⟨isOwn, handed⟩ := hands variant rfl
    simp only [mapError_ok]
    by_cases success : variant.success
    · simp only [success, Bool.not_true, Bool.false_eq_true, if_false]
      simp only [Handed, success, if_true] at handed
      obtain ⟨kind, bytes, isKind, namedIr, ⟨executable, isFile⟩, judgedAs⟩ := handed
      have isPlan' := isOwn.trans isPlan
      obtain ⟨r, u, ran, heldNext, verdicts⟩ := @classify_held b c t told a variant.irPath kind
        bytes executable held.sound (rooted.steady held.steady) grounds.assertions isKind namedIr
        isFile (sentinel_not_slot (exec_grown grown ran) isKind namedIr (by simp [isFile]))
        (sentinel_spares isPlan') fun isSource => by
          rw [held.source isSource]
          exact sourceThere
      have heldNow := held.trans heldNext
      rw [exec_bind, exec_adapt, ran]
      cases r with
      | error e => exact ⟨_, _, rfl, heldNow, .error _⟩
      | ok verdict =>
        have tellsVerdict : told variant.key = some verdict := judgedAs ▸ verdicts verdict rfl
        have ownKey : variant.key = p.key := congrArg Plan.key isOwn
        simp only [mapError_ok]
        rw [exec_bind, exec_report]
        rw [ownKey] at tellsVerdict
        cases verdict with
        | interesting =>
          obtain ⟨r, w, ran, last, same⟩ := @reduce_held b c u told a grounds flags source variant
            heldNow.sound isPlan'
            (fun isSource => (heldNow.source isSource).symm ▸ sourceThere)
            (sum.record .interesting)
          exact ⟨r, w, ran, heldNow.trans last, fun sum' ok => ⟨_, tellsVerdict, same sum' ok⟩⟩
        | uninteresting =>
          obtain ⟨r, w, ran, last, counted⟩ := @settle_counted b c u told a flags source variant
            .uninteresting heldNow.sound isPlan' (ownKey ▸ tellsVerdict) sum
          exact ⟨r, w, ran, heldNow.trans last, ownKey ▸ counted⟩
        | uncompilable =>
          obtain ⟨r, w, ran, last, counted⟩ := @settle_counted b c u told a flags source variant
            .uncompilable heldNow.sound isPlan' (ownKey ▸ tellsVerdict) sum
          exact ⟨r, w, ran, heldNow.trans last, ownKey ▸ counted⟩
    · simp only [success, Bool.not_false, if_true]
      simp only [Handed, success, Bool.false_eq_true, if_false] at handed
      have ownKey : variant.key = p.key := congrArg Plan.key isOwn
      have stem : Stem (utf8 p.key) := isPlan ▸ key_stem ..
      obtain ⟨r, u, ran, heldNext⟩ := @store_held b c t told a p.key .uncompilable held.sound stem
        (ownKey ▸ handed)
      rw [exec_bind, exec_adapt, ran]
      cases r with
      | error e => exact ⟨_, _, rfl, held.trans heldNext, .error _⟩
      | ok value =>
        refine ⟨_, _, rfl, held.trans heldNext, fun _ same => ⟨.uncompilable, ownKey ▸ handed, ?_⟩⟩
        obtain rfl := Except.ok.inj same
        rfl

end BugHunt.Proofs.Keeping
