import BugHunt.Proofs.Advancing
/-!
What a check needs to get past a variant stays there, whatever checks of the program have changed; and
what it needs after one variant has been checked it has before, but for what that check has made.
-/

namespace BugHunt.Proofs.Readiness
open Trees Texts Names Places Runs Bench Growth Outcomes Building Judging Caching Keeping Reducing
open Tallying FailedReduction Collecting Leftovers Passages Succeeding Advancing

variable {b : Bench} {c : Config} {a : Artifact} {source bytes : Bytes} {flags first : List String}
  {sets : List (List String)} {told : String → Option Classification} {v t : View} {q : Place}

/-- Whether flag sets that share a key make the same of a program. -/
def Alike (b : Bench) (c : Config) (a : Artifact) (source : Bytes) (sets : List (List String)) : Prop :=
  ∀ flags ∈ sets, ∀ other ∈ sets, (planOf c a source flags).key = (planOf c a source other).key →
    compiled b c a.kind flags source = compiled b c a.kind other source

/-! ## Variants that share a key -/

theorem irPath_of_key (isSource : a.isSource)
    (same : (planOf c a source flags).key = (planOf c a source first).key) :
    (planOf c a source flags).irPath = (planOf c a source first).irPath := by
  simp only [planOf, Plan.ofContent, isSource, if_true] at same ⊢
  rw [same]

theorem reducedPath_of_source (isSource : a.isSource) (v : Variant) : reducedPath c a v =
    Path.absolute c.startDirectory c.outputRoot / Path.ofString (Reduce.sourceName a) := by
  rw [reducedPath, backend_source isSource]

/-- A source is reduced alike for all its variants. -/
theorem reducible_source {program : Option Bytes} (isSource : a.isSource) :
    Reducible b c (pairOf c a source flags) program v ↔
      v (b.place (Path.absolute c.startDirectory c.outputRoot /
        Path.ofString (Reduce.sourceName a))) ≠ none ∨ b.tools.starts c.tools.creduce [] := by
  unfold Reducible
  rw [show Backend.of (pairOf c a source flags).artifact = .sourceLevel from backend_source isSource,
    show reducedPath c (pairOf c a source flags).artifact (pairOf c a source flags).variant = _ from
      reducedPath_of_source isSource _]

theorem disposable_of_irPath {program : Option Bytes} (isSource : a.isSource)
    (same : (planOf c a source flags).irPath = (planOf c a source first).irPath) :
    Disposable b c (pairOf c a source flags) program v ↔
      Disposable b c (pairOf c a source first) program v := by
  have kept : keptPlace b c (pairOf c a source flags).variant =
      keptPlace b c (pairOf c a source first).variant := by
    simp only [keptPlace, Reduce.keptName, Variant.name, pairOf, same]
  have free : v.directory (keptPlace b c (pairOf c a source flags).variant) =
      v.directory (keptPlace b c (pairOf c a source first).variant) := by rw [kept]
  have reducible : Reducible b c (pairOf c a source flags) program v ↔
      Reducible b c (pairOf c a source first) program v := by
    rw [reducible_source isSource, reducible_source isSource]
  constructor
  · rintro ⟨clear, vacant, goes⟩
    exact ⟨clear, free.symm.trans vacant, reducible.mp goes⟩
  · rintro ⟨clear, vacant, goes⟩
    exact ⟨clear, free.trans vacant, reducible.mpr goes⟩

/-- A check gets past a variant if it gets past another one with the same key. -/
theorem able_of_key (isSource : a.isSource)
    (same : (planOf c a source flags).key = (planOf c a source first).key)
    (alike : compiled b c a.kind flags source = compiled b c a.kind first source)
    (able : Able b c a source first v) : Able b c a source flags v := by
  have path := irPath_of_key isSource same
  have makes : built b c a source flags v = built b c a source first v := by
    unfold built
    rw [same, alike]
  have place (stage : Stage) : sentinelPlace b c a source flags stage =
      sentinelPlace b c a source first stage := by rw [sentinelPlace, sentinelPlace, path]
  unfold Able at able ⊢
  rw [makes]
  cases outcome : built b c a source first v with
  | failed => trivial
  | impossible =>
    rw [outcome] at able
    exact able
  | bitcode bytes =>
    rw [outcome] at able
    refine ⟨able.temporary, ?_, fun interesting => ?_⟩
    · have reported := able.reported
      generalize judged b c (irKind a) bytes = judgement at reported ⊢
      cases judgement with
      | crash stage verdict => simpa only [Reported, place] using reported
      | verdict => trivial
      | impossible => exact reported
    · obtain ⟨disposable, off⟩ := able.settleable interesting
      refine ⟨(disposable_of_irPath isSource path).mpr disposable, fun stage verdict crashed => ?_⟩
      rw [place]
      exact off stage verdict crashed

/-! ## What stays -/

/-- Where a place of an artifact has become a directory, the directory leads to the output. -/
theorem passage_opened (passage : Passage b c a source sets v t) (claimed : Claimed b c a source q)
    (before : v.directory q = false) (after : t.directory q) :
    q <+: b.place c.outputRoot ∧ ∃ flags ∈ sets, reached b c a flags source = some .interesting := by
  have changed : t q ≠ v q := by
    intro same
    rw [directory_congr same, before] at after
    cases after
  cases passage.touched q changed with
  | opened among interesting _ _ _ way => exact ⟨way, _, among, interesting⟩
  | scratched _ _ scratch => exact absurd claimed scratch.2.2
  | written _ _ noDirectory =>
    rw [noDirectory] at after
    cases after

theorem passage_vacant (passage : Passage b c a source sets v t) (sited : Sited b c)
    (product : Product b c (pairOf c a source flags) q) (before : v.directory q = false) :
    t.directory q = false := by
  refine Bool.eq_false_iff.mpr fun after => ?_
  exact product.apart sited (passage_opened passage (.product product) before after).1

/-- What is built of a variant without a marker stays the same. -/
theorem passage_built (passage : Passage b c a source sets v t)
    (alike : ∀ other ∈ sets, (planOf c a source other).key = (planOf c a source flags).key →
      compiled b c a.kind other source = compiled b c a.kind flags source)
    (unmarked : ¬ Marked b c (planOf c a source flags).key t) :
    Advancing.built b c a source flags t = Advancing.built b c a source flags v := by
  unfold Advancing.built
  obtain marked | same | ⟨free, other, among, sameKey, bytes, isCompiled, isFile⟩ := passage.ir flags
  · exact absurd marked unmarked
  · rw [same]
  · rw [free, isFile]
    dsimp only
    rw [← alike other among sameKey, isCompiled]

theorem reached_ir (ir : a.isSource = false) (flags : List String) :
    reached b c a flags source = verdict? (judged b c (irKind a) source) := by
  simp [reached, irKind, ir]

theorem passage_reported (passage : Passage b c a source sets v t) (clear : Clear b c)
    (own : a.isSource = false → bytes = source)
    (settleable : Settleable b c a source flags bytes v (judged b c (irKind a) bytes))
    (reported : Reported b c a source flags v (judged b c (irKind a) bytes)) :
    Reported b c a source flags t (judged b c (irKind a) bytes) := by
  cases judgement : judged b c (irKind a) bytes with
  | verdict => trivial
  | impossible => rwa [judgement] at reported
  | crash stage verdict =>
    rw [judgement] at reported
    simp only [Reported, View.writable_iff] at reported ⊢
    refine ⟨Bool.eq_false_iff.mpr fun after => ?_, passage.steady reported.2⟩
    obtain ⟨way, other, _, interesting⟩ := passage_opened passage (.sentinel flags stage) reported.1 after
    cases isSource : a.isSource with
    | true => exact crashPlace_off_way clear.toGrounds isSource flags stage way
    | false =>
      rw [reached_ir isSource, ← own isSource] at interesting
      exact (settleable interesting).2 stage verdict judgement way

theorem passage_passable (passage : Passage b c a source sets v t) (clear : Clear b c)
    (own : a.isSource = false → bytes = source)
    (off : ∀ stage verdict, judged b c (irKind a) bytes = .crash stage verdict →
      ¬ sentinelPlace b c a source flags stage <+: b.place c.outputRoot)
    (passable : Passable v (b.place c.outputRoot)) : Passable t (b.place c.outputRoot) := by
  intro q way
  by_cases same : t q = v q
  · rw [directory_congr same, same]
    exact passable q way
  · cases passage.touched q same with
    | opened _ _ _ _ made => exact .inr (by rw [View.directory, made]; rfl)
    | scratched _ _ scratch =>
      obtain ⟨debug, ⟨name, ends, below⟩, -⟩ := scratch
      exact absurd ends (clear.plain debug name (way.subset (mem_of_below below)))
    | written trace =>
      obtain ⟨ir, stage, verdict, crashed, rfl⟩ := trace.on_way clear.toGrounds way
      refine absurd way ?_
      rw [← irPath_ir ir flags]
      exact off stage verdict (by rw [own ir, irKind, if_neg (by simp [ir])]; exact crashed)

theorem passage_reducible (passage : Passage b c a source sets v t) (grounds : Grounds b c)
    (own : a.isSource = false → bytes = source)
    (reducible : Reducible b c (pairOf c a source flags) (some bytes) v) :
    Reducible b c (pairOf c a source flags) (some bytes) t := by
  obtain there | goes := reducible
  · exact .inl (passage.stays there fun key => product_ne_irPlace grounds .reduced key)
  · cases level : Backend.of (pairOf c a source flags).artifact with
    | sourceLevel =>
      rw [level] at goes
      exact .inr (by rw [level]; exact goes)
    | irLevel =>
      have ir : a.isSource = false := ir_of_backend level
      rw [level] at goes
      obtain ⟨starts, ends⟩ := goes
      have plan : (pairOf c a source []).variant = (pairOf c a source flags).variant :=
        (pairOf_irPath ir flags).symm
      obtain there | same | ⟨nothing, conjures⟩ := passage.assembled ir
      · rw [plan] at there
        exact .inl there
      · rw [plan] at same
        refine .inr ?_
        rw [level]
        exact ⟨starts, ends.imp_right (assembles_congr same).mpr⟩
      · -- The assembler makes of nothing what it would make of it anyway.
        refine .inr ?_
        rw [level]
        refine ⟨starts, ends.imp_right fun assembles => ?_⟩
        rw [own ir, nothing] at assembles ⊢
        obtain ⟨begins, success, written⟩ := assembles
        refine ⟨begins, success, ?_⟩
        cases made : (b.tools.convert c.tools.llvmAs none).written with
        | none =>
          rw [made] at conjures
          cases conjures
        | some other =>
          rw [made] at written
          exact ⟨passage_vacant passage grounds.toSited (.assembled level) written.1, written.2⟩

theorem passage_feasible (passage : Passage b c a source sets v t) (clear : Clear b c)
    (own : a.isSource = false → bytes = source) (feasible : Feasible b c a source flags bytes v) :
    Feasible b c a source flags bytes t where
  temporary := passage.steady feasible.temporary
  reported := passage_reported passage clear own feasible.settleable feasible.reported
  settleable interesting := by
    obtain ⟨disposable, off⟩ := feasible.settleable interesting
    exact ⟨⟨passage_passable passage clear own off disposable.clear,
      passage_vacant passage clear.toSited .kept disposable.vacant,
      passage_reducible passage clear.toGrounds own disposable.reducible⟩, off⟩

/-- What has been built of a program in IR is the program. -/
theorem built_own (makes : Advancing.built b c a source flags v = .bitcode bytes)
    (ir : a.isSource = false) : bytes = source := by
  simp only [Advancing.built, ir, Bool.false_eq_true, if_false, Compiled.bitcode.injEq] at makes
  exact makes.symm

/-- A check gets past what it got past before. -/
theorem ready_stays (ready : Ready b c a source flags v) (clear : Clear b c)
    (passage : Passage b c a source sets v t)
    (alike : ∀ other ∈ sets, (planOf c a source other).key = (planOf c a source flags).key →
      compiled b c a.kind other source = compiled b c a.kind flags source) :
    Ready b c a source flags t := by
  obtain marked | able := ready
  · exact .inl (passage.marked marked)
  · by_cases marked : Marked b c (planOf c a source flags).key t
    · exact .inl marked
    · right
      unfold Able at able ⊢
      rw [passage_built passage alike marked]
      cases makes : Advancing.built b c a source flags v with
      | failed => trivial
      | impossible =>
        rw [makes] at able
        exact able
      | bitcode bytes =>
        rw [makes] at able
        exact passage_feasible passage clear (built_own makes) able

/-! ## What was there before -/

/-- Of the cache a check writes to markers and compiled IR of its own. -/
theorem slot_of_trace (grounds : Grounds b c) (slot : Slot b c q) (trace : Trace b c a source sets q) :
    (∃ flags ∈ sets, ∃ verdict ending, Cache.markerEnding? verdict = some ending ∧
      q = markerPlace b c (planOf c a source flags).key ending) ∨
    ∃ flags ∈ sets, q = irPlace b c (planOf c a source flags).key := by
  cases trace with
  | marker among ends => exact .inl ⟨_, among, _, _, ends, rfl⟩
  | ir among => exact .inr ⟨_, among, rfl⟩
  | sentinel _ _ outside => exact absurd slot outside
  | product _ _ product => exact absurd slot (product_not_slot grounds product)

/-- A marker that was not there is one of the variants that have been checked. -/
theorem marked_before (grounds : Grounds b c) (passage : Passage b c a source sets v t)
    (marked : Marked b c (planOf c a source flags).key t) :
    Marked b c (planOf c a source flags).key v ∨
      ∃ other ∈ sets, (planOf c a source flags).key = (planOf c a source other).key := by
  obtain ⟨verdict, ending, ends, there⟩ := marked
  by_cases free : v (markerPlace b c (planOf c a source flags).key ending) = none
  · right
    have slot : Slot b c (markerPlace b c (planOf c a source flags).key ending) := slot_marker flags ends
    cases passage.touched _ (free ▸ there) with
    | opened _ _ _ _ _ way => exact absurd way (slot_off_way grounds slot)
    | scratched _ _ scratch => exact absurd (.slot slot) scratch.2.2
    | written trace =>
      obtain ⟨other, among, _, _, otherEnds, same⟩ | ⟨other, _, same⟩ := slot_of_trace grounds slot trace
      · exact ⟨other, among, (markerPlace_inj ends otherEnds same).1⟩
      · exact absurd same.symm (irPlace_ne_markerPlace _ _ _)
  · exact .inl ⟨verdict, ending, ends, free⟩

/-- The reduced form of a source comes only of an interesting variant. -/
theorem reduced_before (grounds : Grounds b c) (isSource : a.isSource)
    (passage : Passage b c a source sets v t)
    (there : t (b.place (Path.absolute c.startDirectory c.outputRoot /
      Path.ofString (Reduce.sourceName a))) ≠ none) :
    v (b.place (Path.absolute c.startDirectory c.outputRoot / Path.ofString (Reduce.sourceName a))) ≠ none ∨
      ∃ other ∈ sets, reached b c a other source = some .interesting := by
  have product : Product b c (pairOf c a source []) (b.place (Path.absolute c.startDirectory c.outputRoot /
      Path.ofString (Reduce.sourceName a))) := reducedPath_of_source (c := c) isSource _ ▸ .reduced
  generalize b.place (Path.absolute c.startDirectory c.outputRoot /
    Path.ofString (Reduce.sourceName a)) = q at there product ⊢
  by_cases free : v q = none
  · right
    cases passage.touched q (free ▸ there) with
    | opened among interesting => exact ⟨_, among, interesting⟩
    | scratched _ _ scratch => exact absurd (.product product) scratch.2.2
    | written trace =>
      cases trace with
      | product among interesting => exact ⟨_, among, interesting⟩
      | marker _ ends => exact absurd (slot_marker _ ends) (product_not_slot grounds product)
      | ir => exact absurd (slot_ir _) (product_not_slot grounds product)
      | sentinel =>
        rw [crashPlace_source isSource, place_irDir] at product
        exact absurd rfl (product_ne_entry grounds product _ _)
  · exact .inl free

theorem passable_before (grounds : Grounds b c) (isSource : a.isSource)
    (passage : Passage b c a source sets v t) (passable : Passable t (b.place c.outputRoot)) :
    Passable v (b.place c.outputRoot) := by
  intro q way
  by_cases same : t q = v q
  · rw [← directory_congr same, ← same]
    exact passable q way
  · cases passage.touched q same with
    | opened _ _ _ free => exact .inl free
    | scratched _ free => exact .inl free
    | written trace =>
      obtain ⟨ir, -⟩ := trace.on_way grounds way
      rw [isSource] at ir
      cases ir

theorem directory_before (passage : Passage b c a source sets v t) (after : t.directory q = false) :
    v.directory q = false := by
  refine Bool.eq_false_iff.mpr fun before => ?_
  rw [passage.steady before] at after
  cases after

/-- The verdict that is told of what is built is that of the variant. -/
theorem reached_built (underway : Underway b c told a source v) (isSource : a.isSource)
    (tells : told (planOf c a source flags).key = reached b c a flags source)
    (makes : Advancing.built b c a source flags v = .bitcode bytes) :
    reached b c a flags source = verdict? (judged b c (irKind a) bytes) := by
  rw [Advancing.built, if_pos isSource] at makes
  rw [irKind, if_pos isSource]
  by_cases free : v (irPlace b c (planOf c a source flags).key) = none
  · rw [free] at makes
    dsimp only at makes
    rw [reached, if_pos isSource, makes]
  · obtain ⟨other, executable, isFile, judgedAs⟩ := underway.sound.ir (key_stem ..) free
    change v (irPlace b c (planOf c a source flags).key) = _ at isFile
    rw [isFile] at makes
    obtain rfl := Compiled.bitcode.inj makes
    rw [← tells]
    exact judgedAs.symm

/-- An interesting variant that a check gets past can be disposed of. -/
theorem disposable_of_ready (underway : Underway b c told a source v) (isSource : a.isSource)
    (tells : told (planOf c a source flags).key = reached b c a flags source)
    (interesting : reached b c a flags source = some .interesting)
    (ready : Ready b c a source flags v) :
    ∃ bytes, Disposable b c (pairOf c a source flags) (some bytes) v := by
  obtain ⟨verdict, ending, ends, there⟩ | able := ready
  · have same := underway.sound.marker (key_stem ..) ends there
    change told (planOf c a source flags).key = _ at same
    rw [tells, interesting] at same
    obtain rfl := Option.some.inj same
    cases ends
  · unfold Able at able
    cases makes : Advancing.built b c a source flags v with
    | impossible =>
      rw [makes] at able
      exact able.elim
    | bitcode bytes =>
      rw [makes] at able
      rw [reached_built underway isSource tells makes] at interesting
      exact ⟨bytes, (able.settleable interesting).1⟩
    | failed =>
      rw [Advancing.built, if_pos isSource] at makes
      split at makes
      · cases makes
      · rw [reached, if_pos isSource, makes] at interesting
        cases interesting

theorem feasible_before (clear : Clear b c) (underway : Underway b c told a source v)
    (isSource : a.isSource) (passage : Passage b c a source [first] v t)
    (tells : told (planOf c a source first).key = reached b c a first source)
    (was : Ready b c a source first v) (feasible : Feasible b c a source flags bytes t) :
    Feasible b c a source flags bytes v where
  temporary := passage.temporary feasible.temporary
  reported := by
    have reported := feasible.reported
    generalize judged b c (irKind a) bytes = judgement at reported ⊢
    cases judgement with
    | verdict => trivial
    | impossible => exact reported
    | crash stage verdict =>
      simp only [Reported, View.writable_iff] at reported ⊢
      refine ⟨directory_before passage reported.1, ?_⟩
      rw [sentinelPlace, crashPlace_source isSource, List.dropLast_concat]
      exact underway.irDir
  settleable interesting := by
    obtain ⟨disposable, off⟩ := feasible.settleable interesting
    refine ⟨⟨passable_before clear.toGrounds isSource passage disposable.clear,
      directory_before passage disposable.vacant, ?_⟩, off⟩
    rw [reducible_source isSource]
    obtain there | starts := (reducible_source isSource).mp disposable.reducible
    · obtain there | ⟨other, among, isInteresting⟩ := reduced_before clear.toGrounds isSource passage there
      · exact .inl there
      · obtain rfl := List.mem_singleton.mp among
        obtain ⟨_, goes⟩ := disposable_of_ready underway isSource tells isInteresting was
        exact (reducible_source isSource).mp goes.reducible
    · exact .inr starts

/-- What a check gets past after a variant it would have got past before, if it got past that one. -/
theorem ready_before (ready : Ready b c a source flags t) (clear : Clear b c)
    (underway : Underway b c told a source v) (isSource : a.isSource)
    (passage : Passage b c a source [first] v t)
    (tells : told (planOf c a source first).key = reached b c a first source)
    (alike : (planOf c a source flags).key = (planOf c a source first).key →
      compiled b c a.kind flags source = compiled b c a.kind first source)
    (was : Ready b c a source first v) : Ready b c a source flags v := by
  have marks (same : (planOf c a source flags).key = (planOf c a source first).key) :
      Ready b c a source flags v := by
    obtain marked | able := was
    · exact .inl (same ▸ marked)
    · exact .inr (able_of_key isSource same (alike same) able)
  by_cases marked : Marked b c (planOf c a source flags).key t
  · obtain marked | ⟨other, among, same⟩ := marked_before clear.toGrounds passage marked
    · exact .inl marked
    · obtain rfl := List.mem_singleton.mp among
      exact marks same
  · have able := ready.resolve_left marked
    right
    unfold Able at able ⊢
    rw [passage_built passage (fun other among same => by
      obtain rfl := List.mem_singleton.mp among
      exact (alike same.symm).symm) marked] at able
    cases makes : built b c a source flags v with
    | failed => trivial
    | impossible =>
      rw [makes] at able
      exact able
    | bitcode bytes =>
      rw [makes] at able
      exact feasible_before clear underway isSource passage tells was able

end BugHunt.Proofs.Readiness
