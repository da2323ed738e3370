import BugHunt.Proofs.Remembering
import BugHunt.Proofs.Succeeding
/-!
A check on its way through the variants of a program. What is there tells whether the check gets past
a variant; if it is interrupted, it has come some part of the way that it would have gone.
-/

namespace BugHunt.Proofs.Advancing
open Trees Texts Names Places Runs Bench Growth Outcomes Building Judging Caching Keeping Reducing
open Asking Toolless Tallying Interrupts FailedReduction Collecting Leftovers Passages Succeeding

variable {b : Bench} {c : Config} {s : State} {i : Interrupts b} {a : Artifact} {source : Bytes}
  {flags : List String} {told : String → Option Classification} {u v t : View}

/-- A configuration that checks can be taken up again with: no directory on the way to the output is
named like a workspace that debugging keeps. -/
structure Clear (b : Bench) (c : Config) : Prop extends Grounds b c where
  plain : c.debug → ∀ name ∈ b.place c.outputRoot, ¬ utf8 ".scratch" <:+ name

/-- Where a check of an artifact stands: the cache is open and true, and the program is there. -/
structure Underway (b : Bench) (c : Config) (told : String → Option Classification) (a : Artifact)
    (source : Bytes) (v : View) : Prop where
  sound : Sound b c told v
  grown : Grown v
  irDir : v.directory (b.place (cacheOf c).irDir)
  resultsDir : v.directory (b.place (cacheOf c).resultsDir)
  named : endsIdle a.path = false
  program : ∃ executable, v (b.place a.path) = some (.file source executable)

theorem Underway.there (h : Underway b c told a source v) : v (b.place a.path) ≠ none := by
  obtain ⟨executable, isFile⟩ := h.program
  rw [isFile]
  exact Option.some_ne_none _

theorem Underway.content {s : State} (h : Underway b c told a source s.tree.node?) :
    content s.tree (b.place a.path) = some source := content_eq_some.mpr h.program

theorem Underway.isRead {s : State} (h : Underway b c told a source s.tree.node?) :
    b.readAt s a.path = .ok source := readAt_of_content h.named h.content

theorem Underway.rooted (h : Underway b c told a source v) : Rooted b c v :=
  rooted_of_irDir h.grown h.irDir

theorem Underway.next {sets : List (List String)} (h : Underway b c told a source v) (sited : Sited b c)
    (passage : Passage b c a source sets v t) (sound : Sound b c told t) (grown : Grown t) :
    Underway b c told a source t where
  sound := sound
  grown := grown
  irDir := passage.steady h.irDir
  resultsDir := passage.steady h.resultsDir
  named := h.named
  program := by
    rw [passage.program sited h.there]
    exact h.program

theorem Underway.scratch (h : Underway b c told a source v) (clear : Clear b c) (debug : c.debug)
    {before : String} {name : Bytes} (drawn : Drawn v before ".scratch" name) {q : Place}
    (below : b.place b.temporary ++ [name] <+: q) : Scratch b c a source q :=
  scratch_of_drawn clear.toGrounds h.grown h.irDir h.there h.named clear.plain debug drawn below

/-! ## What a check needs -/

/-- The kind of the IR that is judged. -/
def irKind (a : Artifact) : Kind := if a.isSource then .binaryIr else a.kind

/-- What building a variant comes to: IR that is there, or what the compiler makes. -/
def built (b : Bench) (c : Config) (a : Artifact) (source : Bytes) (flags : List String) (v : View) :
    Compiled :=
  if a.isSource then
    match v (irPlace b c (planOf c a source flags).key) with
    | some (.file bytes _) => .bitcode bytes
    | _ => compiled b c a.kind flags source
  else .bitcode source

/-- Where the sentinel of a crash on a variant goes. -/
def sentinelPlace (b : Bench) (c : Config) (a : Artifact) (source : Bytes) (flags : List String)
    (stage : Stage) : Place := crashPlace b (planOf c a source flags).irPath stage

/-- Whether what judging comes to can be told, and a crash recorded. -/
def Reported (b : Bench) (c : Config) (a : Artifact) (source : Bytes) (flags : List String) (v : View) :
    Judged → Prop
  | .verdict _ => True
  | .crash stage _ => v.writable (sentinelPlace b c a source flags stage)
  | .impossible => False

/-- Whether an interesting variant can be disposed of, even beside the sentinel of a crash. -/
def Settleable (b : Bench) (c : Config) (a : Artifact) (source : Bytes) (flags : List String)
    (bytes : Bytes) (v : View) (judgement : Judged) : Prop :=
  verdict? judgement = some .interesting → Disposable b c (pairOf c a source flags) (some bytes) v ∧
    ∀ stage verdict, judgement = .crash stage verdict →
      ¬ sentinelPlace b c a source flags stage <+: b.place c.outputRoot

/-- Whether a check gets past a variant whose IR is there. -/
structure Feasible (b : Bench) (c : Config) (a : Artifact) (source : Bytes) (flags : List String)
    (bytes : Bytes) (v : View) : Prop where
  temporary : v.directory (b.place b.temporary)
  reported : Reported b c a source flags v (judged b c (irKind a) bytes)
  settleable : Settleable b c a source flags bytes v (judged b c (irKind a) bytes)

/-- Whether a check gets past a variant that has no marker. -/
def Able (b : Bench) (c : Config) (a : Artifact) (source : Bytes) (flags : List String) (v : View) :
    Prop :=
  match built b c a source flags v with
  | .bitcode bytes => Feasible b c a source flags bytes v
  | .failed => True
  | .impossible => False

/-- Whether a check gets past a variant. -/
def Ready (b : Bench) (c : Config) (a : Artifact) (source : Bytes) (flags : List String) (v : View) :
    Prop := Marked b c (planOf c a source flags).key v ∨ Able b c a source flags v

/-! ## Building -/

/-- What building a variant changes: compiled IR comes to be there. -/
structure Readied (b : Bench) (c : Config) (a : Artifact) (source : Bytes) (flags : List String)
    (v t : View) : Prop where
  elsewhere : ∀ q, q ≠ irPlace b c (planOf c a source flags).key → t q = v q
  ir : t (irPlace b c (planOf c a source flags).key) = v (irPlace b c (planOf c a source flags).key) ∨
    a.isSource ∧ v (irPlace b c (planOf c a source flags).key) = none ∧
      ∃ bytes, compiled b c a.kind flags source = .bitcode bytes ∧
        t (irPlace b c (planOf c a source flags).key) = some (.file bytes false)

theorem Readied.refl (v : View) : Readied b c a source flags v v := ⟨fun _ _ => rfl, .inl rfl⟩

theorem Readied.directory (h : Readied b c a source flags v t) (q : Place) :
    t.directory q = v.directory q := by
  by_cases same : q = irPlace b c (planOf c a source flags).key
  · subst same
    obtain same | ⟨_, free, bytes, _, file⟩ := h.ir
    · exact directory_congr same
    · rw [View.directory, View.directory, free, file]
      rfl
  · exact directory_congr (h.elsewhere q same)

theorem Readied.marker (h : Readied b c a source flags v t) (key ending : String) :
    t (markerPlace b c key ending) = v (markerPlace b c key ending) :=
  h.elsewhere _ (irPlace_ne_markerPlace _ _ _).symm

theorem Readied.passage (h : Readied b c a source flags v t) :
    Passage b c a source [flags] v t where
  touched q changed := by
    have same : q = irPlace b c (planOf c a source flags).key :=
      Decidable.byContradiction fun other => changed (h.elsewhere q other)
    subst same
    obtain same | ⟨isSource, free, bytes, _, file⟩ := h.ir
    · exact absurd same changed
    · refine .written (.ir (by simp) isSource) (View.directory_of_none free) ?_ fun _ => ⟨_, rfl⟩
      rw [View.directory, file]
      rfl
  ir other := by
    by_cases same : irPlace b c (planOf c a source other).key = irPlace b c (planOf c a source flags).key
    · rw [same]
      obtain same | ⟨_, free, bytes, isCompiled, file⟩ := h.ir
      · exact .inr (.inl same)
      · exact .inr (.inr ⟨free, flags, by simp, (entry_key_inj ‹_›).symm, bytes, isCompiled, file⟩)
    · exact .inr (.inl (h.elsewhere _ same))
  assembled ir := by
    obtain same | ⟨isSource, _⟩ := h.ir
    · have same (q : Place) : t q = v q := by
        by_cases other : q = irPlace b c (planOf c a source flags).key
        · rw [other, same]
        · exact h.elsewhere q other
      exact .inr (.inl (same _))
    · rw [ir] at isSource
      cases isSource

theorem readied_of_view (same : t = v) : Readied b c a source flags v t := same ▸ .refl _

/-- Building makes the IR of a variant, finds that it does not compile, or fails. -/
theorem build_readied (underway : Underway b c told a source s.tree.node?) (flags : List String) :
    ∃ r t, exec b.host s (Compile.build c (cacheOf c).irDir a (planOf c a source flags)) = (r, t) ∧
      Readied b c a source flags s.tree.node? t.tree.node? ∧
      match built b c a source flags s.tree.node? with
      | .bitcode bytes => r = .ok ⟨planOf c a source flags, true⟩ ∧ ∃ executable,
          t.tree.node? (b.place (planOf c a source flags).irPath) = some (.file bytes executable)
      | .failed => r = .ok ⟨planOf c a source flags, false⟩
      | .impossible => ∃ e, r = .error e := by
  unfold built
  by_cases isSource : a.isSource
  · obtain ⟨place, -, -⟩ := @irPath_spec b c a _ flags source _ isSource rfl
    change b.place (planOf c a source flags).irPath = irPlace b c (planOf c a source flags).key at place
    rw [if_pos isSource]
    by_cases free : s.tree.node? (irPlace b c (planOf c a source flags).key) = none
    · obtain ⟨r, t, ran, result⟩ := @build_spec b c s (cacheOf c).irDir a flags source _ rfl isSource
        underway.content underway.irDir (place ▸ free)
      change exec b.host s (Compile.build c (cacheOf c).irDir a (planOf c a source flags)) = _ at ran
      refine ⟨r, t, ran, ?_⟩
      rw [free]
      cases outcome : compiled b c a.kind flags source with
      | bitcode bytes =>
        rw [outcome] at result
        obtain ⟨rfl, view⟩ := result
        change t.tree.node? = View.put _ (b.place (planOf c a source flags).irPath) _ at view
        rw [place] at view ⊢
        rw [view]
        refine ⟨⟨fun q other => View.put_other other, .inr ⟨isSource, free, bytes, outcome, ?_⟩⟩, rfl,
          false, ?_⟩
        · rw [View.put_self]
        · rw [View.put_self]
      | failed =>
        rw [outcome] at result
        exact ⟨readied_of_view result.2, result.1⟩
      | impossible =>
        rw [outcome] at result
        exact ⟨readied_of_view result.2, result.1⟩
    · obtain ⟨bytes, executable, isFile, -⟩ := underway.sound.ir (key_stem ..) free
      refine ⟨_, _, build_of_there (by rwa [place]), .refl _, ?_⟩
      change s.tree.node? (irPlace b c (planOf c a source flags).key) = _ at isFile
      rw [isFile, place]
      exact ⟨rfl, executable, isFile⟩
  · have ir : a.isSource = false := by simpa using isSource
    rw [if_neg isSource, irPath_ir ir]
    exact ⟨_, _, build_of_ir ir, .refl _, rfl, underway.program⟩

/-! ## Judging -/

section Judging

variable {flags : List String} {bytes : Bytes}

theorem Underway.isKind (underway : Underway b c told a source v) (flags : List String) :
    Kind.ofPath? (planOf c a source flags).irPath = some (irKind a) ∧
      endsIdle (planOf c a source flags).irPath = false := by
  unfold irKind
  by_cases isSource : a.isSource
  · rw [if_pos isSource]
    exact (@irPath_spec b c a _ flags source _ isSource rfl).2
  · rw [if_neg isSource, irPath_ir (by simpa using isSource)]
    exact ⟨a.kind_of_path, underway.named⟩

/-- Whether the IR of a variant is there, with these bytes. -/
def Standing (b : Bench) (c : Config) (a : Artifact) (source : Bytes) (flags : List String)
    (bytes : Bytes) (v : View) : Prop :=
  ∃ executable, v (b.place (planOf c a source flags).irPath) = some (.file bytes executable)

theorem Standing.there (h : Standing b c a source flags bytes v) :
    v (b.place (planOf c a source flags).irPath) ≠ none := by
  obtain ⟨executable, isFile⟩ := h
  rw [isFile]
  exact Option.some_ne_none _

/-- What is judged of a program in IR is the program. -/
theorem Standing.own (h : Standing b c a source flags bytes v) (underway : Underway b c told a source v)
    (ir : a.isSource = false) : bytes = source := by
  obtain ⟨executable, isFile⟩ := h
  obtain ⟨own, program⟩ := underway.program
  rw [irPath_ir ir, program] at isFile
  exact (Node.file.inj (Option.some.inj isFile)).1.symm

/-- What judging IR changes: the sentinel of a crash is written, and a workspace may be kept. -/
def Noted (b : Bench) (c : Config) (a : Artifact) (source : Bytes) (flags : List String)
    (bytes : Bytes) (v t : View) : Prop :=
  ∀ q, t q ≠ v q →
    (∃ stage verdict, judged b c (irKind a) bytes = .crash stage verdict ∧
      q = sentinelPlace b c a source flags stage ∧ v.writable q ∧ t.directory q = false ∧ t q ≠ none) ∨
    v.directory (b.place b.temporary) ∧ v q = none ∧ Scratch b c a source q

theorem Noted.claimed (noted : Noted b c a source flags bytes v t) {q : Place}
    (claimed : Claimed b c a source q)
    (apart : ∀ stage, v.writable (sentinelPlace b c a source flags stage) →
      q ≠ sentinelPlace b c a source flags stage) : t q = v q := by
  refine Decidable.byContradiction fun changed => ?_
  obtain ⟨stage, _, _, rfl, writable, _⟩ | ⟨_, _, scratch⟩ := noted q changed
  · exact apart stage writable rfl
  · exact scratch.2.2 claimed

theorem Noted.slot (noted : Noted b c a source flags bytes v t) (underway : Underway b c told a source v)
    (standing : Standing b c a source flags bytes v) {q : Place} (slot : Slot b c q) : t q = v q := by
  obtain ⟨isKind, named⟩ := underway.isKind flags
  refine noted.claimed (.slot slot) fun stage writable same => ?_
  exact sentinel_not_slot underway.grown isKind named standing.there stage writable (same ▸ slot)

theorem Noted.product (noted : Noted b c a source flags bytes v t) (sited : Sited b c)
    (underway : Underway b c told a source v) (standing : Standing b c a source flags bytes v)
    {other : List String} {q : Place} (product : Product b c (pairOf c a source other) q) :
    t q = v q := by
  obtain ⟨isKind, named⟩ := underway.isKind flags
  exact noted.claimed (.product product) fun stage writable =>
    product_ne_crashPlace underway.grown sited product isKind named standing.there writable

/-- A sentinel that can be written lies at no place of the program. -/
theorem sentinel_beside (underway : Underway b c told a source v) {stage : Stage}
    (writable : v.writable (sentinelPlace b c a source flags stage)) :
    sentinelPlace b c a source flags stage ≠ b.place a.path := by
  by_cases isSource : a.isSource
  · exact (sentinel_spares rfl isSource stage).symm
  · have ir : a.isSource = false := by simpa using isSource
    unfold sentinelPlace at writable ⊢
    rw [irPath_ir ir] at writable ⊢
    obtain ⟨parent, name, place, stem, crash, differ⟩ := crashPlace_writable underway.grown
      a.kind_of_path underway.named underway.there writable
    rw [crash, place]
    exact entry_ne differ.symm

theorem Noted.passage (noted : Noted b c a source flags bytes v t) (sited : Sited b c)
    (underway : Underway b c told a source v) (standing : Standing b c a source flags bytes v) :
    Passage b c a source [flags] v t where
  touched q changed := by
    obtain ⟨stage, verdict, crashed, rfl, writable, noDirectory, there⟩ | ⟨temporary, free, scratch⟩ :=
      noted q changed
    · obtain ⟨isKind, named⟩ := underway.isKind flags
      refine .written (.sentinel (by simp) (fun ir => ⟨verdict, ?_⟩) ?_ ?_) ?_ noDirectory
        fun gone => absurd gone there
      · rwa [standing.own underway ir, irKind, if_neg (by simp [ir])] at crashed
      · exact sentinel_not_slot underway.grown isKind named standing.there stage writable
      · exact sentinel_beside underway writable
      · exact (View.writable_iff.mp writable).1
    · exact .scratched temporary free scratch
  ir other := .inr (.inl (noted.slot underway standing (slot_ir other)))
  assembled ir := by
    have product : Product b c (pairOf c a source []) _ := .assembled (backend_ir ir)
    exact .inr (.inl (noted.product sited underway standing product))

/-- The IR stays that is judged. -/
theorem Noted.standing (noted : Noted b c a source flags bytes v t) (sited : Sited b c)
    (underway : Underway b c told a source v) (standing : Standing b c a source flags bytes v) :
    Standing b c a source flags bytes t := by
  have same : t (b.place (planOf c a source flags).irPath) =
      v (b.place (planOf c a source flags).irPath) := by
    by_cases isSource : a.isSource
    · rw [show b.place (planOf c a source flags).irPath = irPlace b c (planOf c a source flags).key from
        (irPath_spec isSource rfl).1]
      exact noted.slot underway standing (slot_ir flags)
    · rw [irPath_ir (by simpa using isSource)]
      exact (noted.passage sited underway standing).program sited underway.there
  unfold Standing
  rw [same]
  exact standing

theorem passable_congr {place : Place} (same : ∀ q, q <+: place → t q = v q) :
    Passable t place ↔ Passable v place := by
  unfold Passable
  refine forall₂_congr fun q way => ?_
  rw [same q way, directory_congr (same q way)]

/-- Where nothing changes that a variant is collected to, it can be disposed of as before. -/
theorem disposable_congr {p : Pair c} {program : Option Bytes}
    (clear : Passable t (b.place c.outputRoot) ↔ Passable v (b.place c.outputRoot))
    (same : ∀ q, Product b c p q → t q = v q) :
    Disposable b c p program t ↔ Disposable b c p program v := by
  have vacant : t.directory (keptPlace b c p.variant) = v.directory (keptPlace b c p.variant) :=
    directory_congr (same _ .kept)
  have reducible : Reducible b c p program t ↔ Reducible b c p program v := by
    cases level : Backend.of p.artifact with
    | irLevel => exact reducible_congr (same _ .reduced) (same _ (.assembled level))
    | sourceLevel =>
      unfold Reducible
      rw [same _ .reduced, level]
  constructor
  · rintro ⟨passable, free, goes⟩
    exact ⟨clear.mp passable, vacant ▸ free, reducible.mp goes⟩
  · rintro ⟨passable, free, goes⟩
    exact ⟨clear.mpr passable, vacant ▸ free, reducible.mpr goes⟩

/-- A judgement stands in the way of disposing of a variant only with the sentinel of a crash. -/
theorem Noted.disposable (noted : Noted b c a source flags bytes v t) (clear : Clear b c)
    (underway : Underway b c told a source v) (standing : Standing b c a source flags bytes v)
    (recorded : ∀ stage verdict, judged b c (irKind a) bytes = .crash stage verdict →
      ∃ report, t (sentinelPlace b c a source flags stage) = some (.file report false)) :
    Disposable b c (pairOf c a source flags) (some bytes) t ↔
      Disposable b c (pairOf c a source flags) (some bytes) v ∧
      ∀ stage verdict, judged b c (irKind a) bytes = .crash stage verdict →
        ¬ sentinelPlace b c a source flags stage <+: b.place c.outputRoot := by
  have same (off : ∀ stage verdict, judged b c (irKind a) bytes = .crash stage verdict →
      ¬ sentinelPlace b c a source flags stage <+: b.place c.outputRoot) :
      Disposable b c (pairOf c a source flags) (some bytes) t ↔
        Disposable b c (pairOf c a source flags) (some bytes) v := by
    refine disposable_congr (passable_congr fun q way => ?_)
      fun q => noted.product clear.toSited underway standing
    refine Decidable.byContradiction fun changed => ?_
    obtain ⟨stage, verdict, crashed, rfl, _⟩ | ⟨_, _, debug, ⟨name, ends, below⟩, _⟩ := noted q changed
    · exact off stage verdict crashed way
    · exact clear.plain debug name (way.subset (mem_of_below below)) ends
  constructor
  · intro disposable
    have off (stage : Stage) (verdict : Classification)
        (crashed : judged b c (irKind a) bytes = .crash stage verdict) :
        ¬ sentinelPlace b c a source flags stage <+: b.place c.outputRoot := by
      intro way
      obtain ⟨report, isFile⟩ := recorded stage verdict crashed
      obtain free | directory := disposable.clear _ way
      · cases free.symm.trans isFile
      · rw [View.directory, isFile] at directory
        cases directory
    exact ⟨(same off).mp disposable, off⟩
  · rintro ⟨disposable, off⟩
    exact (same off).mpr disposable

theorem Noted.refl (v : View) : Noted b c a source flags bytes v v := fun _ changed => absurd rfl changed

theorem Noted.scratched {u : View} (noted : Noted b c a source flags bytes v u) (clear : Clear b c)
    (underway : Underway b c told a source v) (temporary : v.directory (b.place b.temporary))
    (scratched : Scratched b c.debug v u t) : Noted b c a source flags bytes v t := by
  obtain ⟨before, name, drawn, differs⟩ := scratched
  intro q changed
  by_cases same : t q = u q
  · rw [same] at changed ⊢
    rw [directory_congr same]
    exact noted q changed
  · obtain ⟨debug, below⟩ := differs q same
    exact .inr ⟨temporary, drawn.fresh.free (mem_of_below below),
      underway.scratch clear debug drawn below⟩

theorem noted_put {stage : Stage} {verdict : Classification}
    (crashed : judged b c (irKind a) bytes = .crash stage verdict)
    (writable : v.writable (sentinelPlace b c a source flags stage)) (report : Bytes) :
    Noted b c a source flags bytes v
      (v.put (sentinelPlace b c a source flags stage) (some (.file report false))) := by
  intro q changed
  obtain rfl : q = sentinelPlace b c a source flags stage :=
    Decidable.byContradiction fun other => changed (View.put_other other)
  refine .inl ⟨stage, verdict, crashed, rfl, writable, ?_, ?_⟩
  · rw [View.directory, View.put_self]
    rfl
  · rw [View.put_self]
    exact Option.some_ne_none _

/-- What a judgement comes to: it is told where files can be made and a crash can be recorded. -/
def Judges (b : Bench) (c : Config) (a : Artifact) (source : Bytes) (flags : List String)
    (bytes : Bytes) (v t : View) : Except OracleError Classification → Prop
  | .ok verdict => v.directory (b.place b.temporary) ∧
      Reported b c a source flags v (judged b c (irKind a) bytes) ∧
      verdict? (judged b c (irKind a) bytes) = some verdict ∧
      ∀ stage other, judged b c (irKind a) bytes = .crash stage other →
        ∃ report, t (sentinelPlace b c a source flags stage) = some (.file report false)
  | .error _ => ¬ (v.directory (b.place b.temporary) ∧
      Reported b c a source flags v (judged b c (irKind a) bytes))

theorem classify_calm (clear : Clear b c) (underway : Underway b c told a source s.tree.node?)
    (standing : Standing b c a source flags bytes s.tree.node?) :
    ∃ r t, exec b.host s (Oracle.classify c (planOf c a source flags).irPath) = (r, t) ∧
      Noted b c a source flags bytes s.tree.node? t.tree.node? ∧
      Judges b c a source flags bytes s.tree.node? t.tree.node? r := by
  obtain ⟨isKind, named⟩ := underway.isKind flags
  by_cases temporary : View.directory s.tree.node? (b.place b.temporary)
  · obtain ⟨r, t, ran, concluded⟩ := @classify_spec b c s (planOf c a source flags).irPath (irKind a) bytes
      isKind named (content_eq_some.mpr standing) temporary clear.assertions
    refine ⟨r, t, ran, ?_⟩
    have unwritten (scratched : Scratched b c.debug s.tree.node? s.tree.node? t.tree.node?) :
        Noted b c a source flags bytes s.tree.node? t.tree.node? :=
      (Noted.refl _).scratched clear underway temporary scratched
    cases outcome : judged b c (irKind a) bytes with
    | verdict verdict =>
      rw [outcome] at concluded
      obtain ⟨rfl, close⟩ := concluded
      refine ⟨unwritten close, temporary, ?_, ?_, fun _ _ never => ?_⟩
      · rw [outcome]
        trivial
      · rw [outcome]
        rfl
      · rw [outcome] at never
        cases never
    | impossible =>
      rw [outcome] at concluded
      obtain ⟨⟨e, rfl⟩, close⟩ := concluded
      refine ⟨unwritten close, fun told => ?_⟩
      rw [outcome] at told
      exact told.2
    | crash stage verdict =>
      rw [outcome] at concluded
      by_cases writable : View.writable s.tree.node? (crashPlace b (planOf c a source flags).irPath stage)
      · simp only [Concluded, writable, if_true] at concluded
        obtain ⟨rfl, report, close⟩ := concluded
        refine ⟨(noted_put outcome writable report).scratched clear underway temporary close,
          temporary, ?_, ?_, fun other _ same => ⟨report, ?_⟩⟩
        · rw [outcome]
          exact writable
        · rw [outcome]
          rfl
        · obtain ⟨rfl, -⟩ := Judged.crash.inj (outcome.symm.trans same)
          obtain ⟨before, name, drawn, differs⟩ := close
          have apart := notMem_crashPlace isKind named standing.there drawn stage
          have same : t.tree.node? (sentinelPlace b c a source flags stage) =
              View.put s.tree.node? (sentinelPlace b c a source flags stage) (some (.file report false))
                (sentinelPlace b c a source flags stage) :=
            Decidable.byContradiction fun changed => apart (mem_of_below (differs _ changed).2)
          rw [same, View.put_self]
      · simp only [Concluded, writable, Bool.false_eq_true, if_false] at concluded
        obtain ⟨⟨e, rfl⟩, close⟩ := concluded
        refine ⟨unwritten close, fun told => ?_⟩
        rw [outcome] at told
        exact writable told.2
  · obtain ⟨parent, last, -, hasName, -⟩ :=
      @crashPlace_eq b (planOf c a source flags).irPath (irKind a) isKind named .analysis
    obtain ⟨e, failed⟩ := @classify_without_temporary b c s _ last hasName (by simpa using temporary)
    exact ⟨_, _, failed, .refl _, fun told => temporary told.1⟩

/-- Judging is undisturbed, or what has changed can have changed anyway. -/
theorem classify_noted (clear : Clear b c) (underway : Underway b c told a source s.tree.node?)
    (standing : Standing b c a source flags bytes s.tree.node?) :
    Heeds i s (Oracle.classify c (planOf c a source flags).irPath)
      (fun r t => Noted b c a source flags bytes s.tree.node? t.tree.node? ∧
        Judges b c a source flags bytes s.tree.node? t.tree.node? r)
      fun e t => e.isInterrupt ∧ Noted b c a source flags bytes s.tree.node? t.tree.node? := by
  obtain ⟨isKind, named⟩ := underway.isKind flags
  obtain ⟨parent, last, -, hasName, -⟩ :=
    @crashPlace_eq b (planOf c a source flags).irPath (irKind a) isKind named .analysis
  obtain ⟨r, t, ran, noted, judges⟩ := classify_calm clear underway standing
  refine (classify_heeds hasName).mono (fun r' t' ran' _ => ?_) fun e t left => ⟨left.1, ?_⟩
  · obtain ⟨rfl, rfl⟩ := Prod.mk.inj (ran.symm.trans ran')
    exact ⟨noted, judges⟩
  · exact (Noted.refl _).scratched clear underway left.2.1 left.2.2

end Judging

/-! ## Collecting -/

section Collecting

variable {p : Pair c} {flags : List String} {bytes : Bytes}

theorem dispatch_lasts (sited : Sited b c) :
    Lasts i (Collecting b c p v) ReduceError.isInterrupt (Reduce.dispatch c p.artifact p.variant) := by
  have preserved : Lasts i (Collecting b c p v) ReduceError.isInterrupt (Reduce.preserve c p.variant) := by
    intro s collecting
    have further (t : View) (moved : Moved (b.place c.outputRoot) (Preserved b c p.variant) s.tree.node? t) :
        Collecting b c p v t := collecting.trans (Moved.mono moved fun _ => Preserved.product)
    exact (preserve_lasts s (Moved.refl _ _ _)).mono (fun _ t _ moved => further _ moved)
      fun _ t left => ⟨left.1, further _ left.2⟩
  unfold Reduce.dispatch
  refine preserved.bind fun _ => ?_
  cases level : Backend.of p.artifact with
  | irLevel => exact reduceIr_lasts sited level
  | sourceLevel => exact reduceSource_lasts sited level

theorem pairOf_irPath (ir : a.isSource = false) (flags : List String) :
    (pairOf c a source flags).variant = (pairOf c a source []).variant := by
  simp [pairOf, planOf, Plan.ofContent, ir]

/-- What becomes of the assembled form when a program in IR is dispatched. -/
theorem dispatch_assembled (sited : Sited b c) (underway : Underway b c told a source s.tree.node?)
    (standing : Standing b c a source flags bytes s.tree.node?) (ir : a.isSource = false) :
    Heeds i s (Reduce.dispatch c a (pairOf c a source flags).variant)
      (fun _ t => Assembled b c (pairOf c a source flags) (some source) s.tree.node? t.tree.node?)
      fun e t => ReduceError.isInterrupt e ∧
        Assembled b c (pairOf c a source flags) (some source) s.tree.node? t.tree.node? := by
  have level : Backend.of (pairOf c a source flags).artifact = .irLevel := backend_ir ir
  have isIr : (pairOf c a source flags).variant.irPath = a.path := irPath_ir ir flags
  have preserved : Heeds i s (Reduce.preserve c (pairOf c a source flags).variant)
      (fun _ t => Moved (b.place c.outputRoot) (Preserved b c (pairOf c a source flags).variant)
        s.tree.node? t.tree.node?)
      fun e t => ReduceError.isInterrupt e ∧ Moved (b.place c.outputRoot)
        (Preserved b c (pairOf c a source flags).variant) s.tree.node? t.tree.node? :=
    preserve_lasts s (Moved.refl _ _ _)
  unfold Reduce.dispatch
  refine preserved.bind
    (fun _ _ left => ⟨left.1, .inr (.inl (preserved_spares sited left.2).2)⟩)
    (fun _ _ moved => .inr (.inl (preserved_spares sited moved).2)) fun kept t ran moved => ?_
  obtain ⟨reduced, assembled⟩ := preserved_spares sited moved
  rw [show Backend.of a = .irLevel from level]
  dsimp only
  by_cases missing : t.tree.node? (b.place (reducedPath c (pairOf c a source flags).artifact
      (pairOf c a source flags).variant)) = none
  · obtain ⟨r, u, ran', ⟨-, -, -, directory⟩ | ⟨-, _, _, rfl⟩⟩ :=
      @preserve_run b c s (pairOf c a source flags) underway.grown bytes (content_eq_some.mpr standing)
    · obtain ⟨rfl, rfl⟩ := Prod.mk.inj (ran.symm.trans ran')
      have program : content t.tree (b.place (pairOf c a source flags).variant.irPath) = some source := by
        have same : t.tree.node? (b.place a.path) = s.tree.node? (b.place a.path) := by
          refine moved.same (.inl underway.there) fun preserved => ?_
          exact product_ne_program sited (Preserved.product preserved) rfl
        rw [isIr, content_of_node?, same, ← content_of_node?]
        exact underway.content
      have reducing := reduceIr_assembled (i := i) sited level directory missing
      rw [program] at reducing
      unfold Assembled at reducing ⊢
      rwa [assembled] at reducing
    · cases congrArg Prod.fst (ran'.symm.trans ran)
  · have lasts : Lasts i (Collecting b c (pairOf c a source flags) t.tree.node?) ReduceError.isInterrupt
        (Reduce.reduceIr c (pairOf c a source flags).variant.irPath) := reduceIr_lasts sited level
    exact (lasts t (Moved.refl _ _ _)).mono (fun _ _ _ moved => .inl (Moved.stays moved missing))
      fun _ _ left => ⟨left.1, .inl (Moved.stays left.2 missing)⟩

/-- What collecting an interesting variant changes is some of what a check of it does. -/
theorem collecting_passage (grounds : Grounds b c)
    (interesting : reached b c a flags source = some .interesting)
    (temporary : v.directory (b.place b.temporary))
    (collecting : Collecting b c (pairOf c a source flags) v t)
    (assembled : a.isSource = false → Assembled b c (pairOf c a source flags) (some source) v t) :
    Passage b c a source [flags] v t where
  touched q changed := by
    obtain ⟨free, made, way⟩ | ⟨product, before, after, there⟩ := collecting q changed
    · exact .opened (by simp) interesting temporary free made way
    · exact .written (.product (by simp) interesting product) before after fun gone => absurd gone there
  ir other := .inr (.inl (collecting.same (.inr (irPlace_off_way grounds _))
    fun product => product_ne_irPlace grounds product _ rfl))
  assembled ir := by
    have same := assembled ir
    unfold Assembled at same ⊢
    rwa [show (pairOf c a source []).variant = (pairOf c a source flags).variant from
      (pairOf_irPath ir flags).symm]

/-- What a step of a check that is cut short leaves behind: some way on, and the cache as it was. -/
structure Halted (b : Bench) (c : Config) (a : Artifact) (source : Bytes) (flags : List String)
    (v : View) (e : PipelineError) (t : View) : Prop where
  interrupt : e.isInterrupt
  passage : Passage b c a source [flags] v t
  cache : ∀ q, Slot b c q → t q = v q

theorem reduce_collects (clear : Clear b c) (underway : Underway b c told a source s.tree.node?)
    (standing : Standing b c a source flags bytes s.tree.node?)
    (interesting : reached b c a flags source = some .interesting)
    (temporary : View.directory s.tree.node? (b.place b.temporary)) (sum : Summary) :
    Heeds i s (Check.reduce c a (pairOf c a source flags).variant sum)
      (fun r t => Passage b c a source [flags] s.tree.node? t.tree.node? ∧
        ((∃ sum', r = .ok sum') ↔ Disposable b c (pairOf c a source flags) (some bytes) s.tree.node?))
      fun e t => Halted b c a source flags s.tree.node? e t.tree.node? := by
  have lasts : Heeds i s (Reduce.dispatch c a (pairOf c a source flags).variant)
      (fun _ t => Collecting b c (pairOf c a source flags) s.tree.node? t.tree.node?)
      fun e t => ReduceError.isInterrupt e ∧
        Collecting b c (pairOf c a source flags) s.tree.node? t.tree.node? :=
    dispatch_lasts clear.toSited s (Moved.refl _ _ _)
  have dispatched : Heeds i s (Reduce.dispatch c a (pairOf c a source flags).variant)
      (fun _ t => Passage b c a source [flags] s.tree.node? t.tree.node?)
      fun e t => Halted b c a source flags s.tree.node? (.reduce e) t.tree.node? := by
    have cache {t : View} (collecting : Collecting b c (pairOf c a source flags) s.tree.node? t)
        (q : Place) (slot : Slot b c q) : t q = s.tree.node? q :=
      collecting.same (.inr (slot_off_way clear.toGrounds slot))
        fun product => product_not_slot clear.toGrounds product slot
    cases isSource : a.isSource with
    | true =>
      have passage {t : View} (collecting : Collecting b c (pairOf c a source flags) s.tree.node? t) :
          Passage b c a source [flags] s.tree.node? t :=
        collecting_passage clear.toGrounds interesting temporary collecting fun ir => by
          rw [ir] at isSource
          cases isSource
      exact lasts.mono (fun _ _ _ collecting => passage collecting)
        fun _ _ left => ⟨left.1, passage left.2, cache left.2⟩
    | false =>
      refine (lasts.and (dispatch_assembled clear.toSited underway standing isSource)).mono
        (fun _ _ _ holds => ?_) fun _ _ left => ⟨left.1.1, ?_, cache left.1.2⟩
      · exact collecting_passage clear.toGrounds interesting temporary holds.1 fun _ => holds.2
      · exact collecting_passage clear.toGrounds interesting temporary left.1.2 fun _ => left.2.2
  have reduced : Heeds i s (Check.reduce c a (pairOf c a source flags).variant sum)
      (fun _ t => Passage b c a source [flags] s.tree.node? t.tree.node?)
      fun e t => Halted b c a source flags s.tree.node? e t.tree.node? := by
    refine dispatched.attempt (fun e t halted => ⟨.reduce e, ?_, halted⟩) fun r t _ passage => ?_
    · have isInterrupt : ReduceError.isInterrupt e := halted.interrupt
      cases e with
      | minimizerFailed => cases isInterrupt
      | compile => rfl
      | run => rfl
      | files => rfl
    · split
      · exact .toolless (.bind (.monadLift (asks_request trivial)) fun _ => .pure _) passage
      · exact .toolless (.bind (.monadLift (asks_request trivial)) fun _ => .pure _) passage
      · exact .toolless (.throw _) passage
  refine reduced.mono (fun r t ran passage => ⟨passage, ?_⟩) fun _ _ halted => halted
  have goes := @reduce_succeeds b c s (pairOf c a source flags) clear.toSited underway.grown bytes source
    (content_eq_some.mpr standing) underway.content temporary sum
  rw [← goes]
  change (∃ sum', r = .ok sum') ↔
    ∃ sum' t', exec b.host s (Check.reduce c a (pairOf c a source flags).variant sum) = (.ok sum', t')
  rw [ran]
  constructor
  · rintro ⟨sum', rfl⟩
    exact ⟨sum', t, rfl⟩
  · rintro ⟨sum', t', same⟩
    exact ⟨sum', congrArg Prod.fst same⟩

end Collecting

/-! ## Settling -/

section Settling

variable {flags : List String} {verdict : Classification} {ending : String}

theorem free_of_unmarked {key : String} (unmarked : ¬ Marked b c key v)
    (ends : Cache.markerEnding? verdict = some ending) : v (markerPlace b c key ending) = none :=
  Decidable.byContradiction fun there => unmarked ⟨verdict, ending, ends, there⟩

/-- A variant without a marker can be given one. -/
theorem store_marks (underway : Underway b c told a source s.tree.node?)
    (unmarked : ¬ Marked b c (planOf c a source flags).key s.tree.node?)
    (ends : Cache.markerEnding? verdict = some ending) :
    ∃ t, exec b.host s ((cacheOf c).store (planOf c a source flags).key verdict) = (.ok (), t) ∧
      (∀ q, q ≠ markerPlace b c (planOf c a source flags).key ending →
        t.tree.node? q = s.tree.node? q) ∧
      t.tree.node? (markerPlace b c (planOf c a source flags).key ending) ≠ none ∧
      View.directory t.tree.node? (markerPlace b c (planOf c a source flags).key ending) = false := by
  have stem : Stem (utf8 (planOf c a source flags).key) := key_stem ..
  generalize (planOf c a source flags).key = key at stem unmarked ⊢
  have storable : verdict ≠ .interesting := by
    rintro rfl
    cases ends
  have places {other : Classification} {another : String} {p : Path}
      (otherEnds : Cache.markerEnding? other = some another)
      (isMarker : (cacheOf c).markerPath? key other = some p) :
      b.place p = markerPlace b c key another := by
    rw [Exclusion.markerPath_eq otherEnds] at isMarker
    obtain rfl := Option.some.inj isMarker
    exact place_marker stem otherEnds
  have plain : Exclusion.Plain b (cacheOf c) key s.tree := by
    intro other p isMarker
    cases otherEnds : Cache.markerEnding? other with
    | none => simp [Cache.markerPath?, otherEnds] at isMarker
    | some another =>
      rw [places otherEnds isMarker, View.directory, free_of_unmarked unmarked otherEnds]
      rfl
  obtain ⟨other, p, q, opposite, isMarker, isOther, stored⟩ := Remembering.store_cases plain storable
  have isPlace := places ends isMarker
  obtain ⟨t, ran, change, there, noDirectory, gone⟩ | ⟨e, -, refused⟩ := stored
  · refine ⟨t, ran, fun place differ => ?_, ?_, isPlace ▸ noDirectory⟩
    · by_cases same : place = b.place q
      · subst same
        obtain ⟨another, otherEnds⟩ : ∃ another, Cache.markerEnding? other = some another := by
          cases verdict <;> cases opposite <;> exact ⟨_, rfl⟩
        rw [gone, places otherEnds isOther, free_of_unmarked unmarked otherEnds]
      · refine change.elsewhere place fun either => ?_
        exact either.elim (isPlace ▸ differ) same
    · rw [← isPlace]
      exact Option.isSome_iff_ne_none.mp there
  · have free := free_of_unmarked unmarked ends
    have writable : View.writable s.tree.node? (b.place p) := by
      rw [isPlace, View.writable, View.directory, free, markerPlace, List.dropLast_concat,
        underway.resultsDir]
      rfl
    rw [writable] at refused
    cases refused

theorem marked_passage (grounds : Grounds b c) (ends : Cache.markerEnding? verdict = some ending)
    (free : v (markerPlace b c (planOf c a source flags).key ending) = none)
    (elsewhere : ∀ q, q ≠ markerPlace b c (planOf c a source flags).key ending → t q = v q)
    (there : t (markerPlace b c (planOf c a source flags).key ending) ≠ none)
    (plain : t.directory (markerPlace b c (planOf c a source flags).key ending) = false) :
    Passage b c a source [flags] v t where
  touched q changed := by
    obtain rfl : q = markerPlace b c (planOf c a source flags).key ending :=
      Decidable.byContradiction fun other => changed (elsewhere q other)
    exact .written (.marker (by simp) ends) (View.directory_of_none free) plain
      fun gone => absurd gone there
  ir other := .inr (.inl (elsewhere _ (irPlace_ne_markerPlace _ _ _)))
  assembled ir := by
    refine .inr (.inl (elsewhere _ fun same => ?_))
    exact product_not_slot grounds (.assembled (backend_ir ir)) (same ▸ slot_marker flags ends)

/-- Compiled IR may go when there is a marker. -/
theorem dropped_passage (isSource : a.isSource) (marked : Marked b c (planOf c a source flags).key v)
    (plain : v.directory (irPlace b c (planOf c a source flags).key) = false)
    (elsewhere : ∀ q, q ≠ irPlace b c (planOf c a source flags).key → t q = v q)
    (gone : t (irPlace b c (planOf c a source flags).key) = none) :
    Passage b c a source [flags] v t where
  touched q changed := by
    obtain rfl : q = irPlace b c (planOf c a source flags).key :=
      Decidable.byContradiction fun other => changed (elsewhere q other)
    exact .written (.ir (by simp) isSource) plain (View.directory_of_none gone) fun _ => ⟨_, rfl⟩
  ir other := by
    by_cases same : irPlace b c (planOf c a source other).key = irPlace b c (planOf c a source flags).key
    · obtain ⟨verdict, ending, ends, there⟩ := marked
      refine .inl ⟨verdict, ending, ends, ?_⟩
      rw [entry_key_inj same, elsewhere _ (irPlace_ne_markerPlace _ _ _).symm]
      exact there
    · exact .inr (.inl (elsewhere _ same))
  assembled ir := by
    rw [isSource] at ir
    cases ir

/-- A variant without a marker can be settled. -/
theorem settle_settles (grounds : Grounds b c) (underway : Underway b c told a source s.tree.node?)
    (unmarked : ¬ Marked b c (planOf c a source flags).key s.tree.node?)
    (ends : Cache.markerEnding? verdict = some ending) :
    ∃ t, exec b.host s (Check.settle c (cacheOf c) a (pairOf c a source flags).variant verdict) =
        (.ok (), t) ∧ Passage b c a source [flags] s.tree.node? t.tree.node? := by
  obtain ⟨t, ran, elsewhere, there, plain⟩ := store_marks underway unmarked ends
  have passage : Passage b c a source [flags] s.tree.node? t.tree.node? :=
    marked_passage grounds ends (free_of_unmarked unmarked ends) elsewhere there plain
  unfold Check.settle
  rw [exec_bind, exec_adapt,
    show (pairOf c a source flags).variant.key = (planOf c a source flags).key from rfl, ran]
  by_cases drops : a.isSource && !c.debug
  · simp only [drops, if_true, mapError_ok]
    rw [Bool.and_eq_true] at drops
    have place : b.place (planOf c a source flags).irPath = irPlace b c (planOf c a source flags).key :=
      (irPath_spec drops.1 rfl).1
    have noDirectory : View.directory t.tree.node? (b.place (planOf c a source flags).irPath) = false := by
      rw [place, View.directory, elsewhere _ (irPlace_ne_markerPlace _ _ _)]
      by_cases free : s.tree.node? (irPlace b c (planOf c a source flags).key) = none
      · rw [free]
        rfl
      · obtain ⟨bytes, executable, isFile, -⟩ := underway.sound.ir (key_stem ..) free
        rw [show s.tree.node? (irPlace b c (planOf c a source flags).key) = _ from isFile]
        rfl
    obtain ⟨u, ran, change, gone⟩ := removeIfPresent_gone noDirectory
    rw [place] at noDirectory change gone
    refine ⟨u, ?_, passage.trans grounds
      (dropped_passage drops.1 ⟨verdict, ending, ends, there⟩ noDirectory change.elsewhere gone)⟩
    rw [exec_adapt, show (pairOf c a source flags).variant.irPath = (planOf c a source flags).irPath from
      rfl, ran]
    rfl
  · simp only [drops, Bool.false_eq_true, if_false]
    exact ⟨t, rfl, passage⟩

end Settling

/-! ## One variant -/

section Variant

variable {flags : List String} {bytes : Bytes}

theorem Readied.feasible (h : Readied b c a source flags v t) (grounds : Grounds b c) (bytes : Bytes) :
    Feasible b c a source flags bytes t ↔ Feasible b c a source flags bytes v := by
  have reported : Reported b c a source flags t (judged b c (irKind a) bytes) ↔
      Reported b c a source flags v (judged b c (irKind a) bytes) := by
    cases judged b c (irKind a) bytes with
    | crash stage verdict =>
      simp only [Reported, View.writable, h.directory]
    | _ => exact Iff.rfl
  have disposable : Disposable b c (pairOf c a source flags) (some bytes) t ↔
      Disposable b c (pairOf c a source flags) (some bytes) v :=
    disposable_congr
      (passable_congr fun q way => h.elsewhere q fun same => irPlace_off_way grounds _ (same ▸ way))
      fun q product => h.elsewhere q (product_ne_irPlace grounds product _)
  have settleable : Settleable b c a source flags bytes t (judged b c (irKind a) bytes) ↔
      Settleable b c a source flags bytes v (judged b c (irKind a) bytes) := by
    unfold Settleable
    rw [disposable]
  constructor
  · rintro ⟨temporary, told, settles⟩
    exact ⟨h.directory _ ▸ temporary, reported.mp told, settleable.mp settles⟩
  · rintro ⟨temporary, told, settles⟩
    exact ⟨(h.directory _).symm ▸ temporary, reported.mpr told, settleable.mpr settles⟩

end Variant

end BugHunt.Proofs.Advancing
