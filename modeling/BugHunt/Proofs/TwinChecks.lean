import BugHunt.Proofs.TwinStages
/-!
The check of a program in twin programs: variant by variant it counts the same, though reductions
keep the output directory from being as it was.
-/

namespace BugHunt.Proofs.TwinChecks
open Trees Texts Names Places Runs Bench Growth Outcomes Building Judging Reducing Caching Keeping
open Tallying Mirroring
open Twins TwinTools TwinStages

variable {b : Bench} {c : Config} {k : Claims} {f g : Notes} {a : Artifact}

/-- The paths that the check of a variant may write to in the output directory. -/
def keptPath (c : Config) (p : Plan) : Path := c.outputRoot / Path.ofString (Reduce.keptName ⟨p, true⟩)

def reducedPath (c : Config) (p : Plan) : Path :=
  Path.absolute c.startDirectory c.outputRoot / Path.ofString (Reduce.irName p.irPath)

def assembledPath (c : Config) (p : Plan) : Path :=
  Path.absolute c.startDirectory c.outputRoot / Path.ofString (Plan.stemOf (reducedPath c p) ++ ".bc")

def copyPath (c : Config) (a : Artifact) : Path :=
  Path.absolute c.startDirectory c.outputRoot / Path.ofString (Reduce.sourceName a)

/-- Whether all that the check of a variant may touch but for reductions is claimed. -/
structure Covered (b : Bench) (c : Config) (k : Claims) (a : Artifact) (p : Plan) : Prop where
  compiled : a.isSource → b.place p.irPath ∈ k.files
  given : a.isSource = false → b.place p.irPath = k.source
  named : ∃ name, p.irPath.fileName? = some name
  marker : ∀ verdict path, (cacheOf c).markerPath? p.key verdict = some path → b.place path ∈ k.files
  crash : ∀ stage, crashPlace b p.irPath stage ∈ k.marks

/-- Whether all that reductions of a variant may touch is claimed. -/
structure Stored (b : Bench) (c : Config) (k : Claims) (a : Artifact) (p : Plan) : Prop where
  kept : b.place (keptPath c p) ∈ k.outputs
  text : b.place ((keptPath c p).withExtension "ll") ∈ k.outputs
  reduced : a.isSource = false → b.place (reducedPath c p) ∈ k.outputs
  assembled : a.isSource = false → b.place (assembledPath c p) ∈ k.outputs
  copied : a.isSource → b.place (copyPath c a) ∈ k.outputs

/-- Whether all that the check of a program may touch but for reductions is claimed. -/
structure Housed (b : Bench) (c : Config) (k : Claims) (a : Artifact) : Prop extends Sited b c where
  orderly : Orderly b k
  assertions : ∀ relation ∈ c.assertions, Proper (utf8 relation)
  source : b.place a.path = k.source
  way : b.place c.outputRoot = k.way
  temporary : b.place b.temporary ∈ k.floors
  irDir : b.place (cacheOf c).irDir ∈ k.floors
  covered : ∀ flags ∈ flagSets c a, ∀ bytes executable, k.origin = some (.file bytes executable) →
    Covered b c k a (planOf c a bytes flags)

theorem Covered.shown {p : Plan} (covered : Covered b c k a p) (f : Notes) :
    Shown b k f p.irPath p.irPath := by
  refine ⟨?_, rfl⟩
  by_cases isSource : a.isSource
  · exact .file (covered.compiled isSource)
  · rw [covered.given (by simpa using isSource)]
    exact .source

/-! ## The cache -/

theorem twin_hasMarker {p : Plan} (covered : Covered b c k a p) (verdict : Classification) :
    Twin b k (At g Eq) ((cacheOf c).hasMarker p.key verdict) ((cacheOf c).hasMarker p.key verdict) g := by
  unfold Cache.hasMarker
  split
  · exact .done ⟨rfl, rfl⟩
  · rename_i path isMarker
    exact twin_exists (.file (covered.marker verdict path isMarker))

theorem twin_lookup {p : Plan} (covered : Covered b c k a p) :
    Twin b k (At g Eq) ((cacheOf c).lookup p.key) ((cacheOf c).lookup p.key) g := by
  unfold Cache.lookup
  refine (twin_hasMarker covered _).bind ?_
  rintro _ clean _ ⟨rfl, rfl⟩
  split
  · exact .done ⟨rfl, rfl⟩
  · refine (twin_hasMarker covered _).bind ?_
    rintro _ broken _ ⟨rfl, rfl⟩
    split
    · exact .done ⟨rfl, rfl⟩
    · exact .done ⟨rfl, rfl⟩

theorem paired_removeIfPresent (orderly : Orderly b k) {p : Path} (claimed : b.place p ∈ k.files) :
    Paired b k (At g Any) (At g Any) (Cache.removeIfPresent p) (Cache.removeIfPresent p) g := by
  refine Twin.bind (twin_remove orderly (.file claimed) (by simp [Claims.written, claimed])) ?_
  rintro _ result _ ⟨rfl, rfl⟩
  cases result with
  | ok value => exact .done ⟨rfl, trivial⟩
  | error cause =>
    refine .done ?_
    split
    · exact ⟨rfl, trivial⟩
    · exact ⟨rfl, trivial⟩

theorem paired_store (orderly : Orderly b k) {p : Plan} (covered : Covered b c k a p)
    (verdict : Classification) :
    Paired b k (At g Any) (At g Any) ((cacheOf c).store p.key verdict) ((cacheOf c).store p.key verdict) g := by
  unfold Cache.store
  split
  · rename_i marker other isMarker isOther
    have claimed : b.place other ∈ k.files := by
      cases verdict with
      | interesting => cases isOther
      | uninteresting => exact covered.marker .uncompilable other isOther
      | uncompilable => exact covered.marker .uninteresting other isOther
    refine .then (E := Any) (.ask (twin_touch orderly (.file (covered.marker _ _ isMarker)))
      fun _ => trivial) (fun _ _ _ => ?_) fun _ _ any => ⟨rfl, any⟩
    exact paired_removeIfPresent orderly claimed
  · exact .throw ⟨rfl, trivial⟩

theorem paired_settle (orderly : Orderly b k) {v : Variant} (covered : Covered b c k a v.toPlan)
    (verdict : Classification) :
    Paired b k (At g Any) (At g Any) (Check.settle c (cacheOf c) a v verdict)
      (Check.settle c (cacheOf c) a v verdict) g := by
  unfold Check.settle
  refine .then (E := Any) ((paired_store orderly covered verdict).adapt fun _ _ _ any => any)
    (fun _ _ _ => ?_) fun _ _ any => ⟨rfl, any⟩
  split
  · rename_i drops
    rw [Bool.and_eq_true] at drops
    exact (paired_removeIfPresent orderly (covered.compiled drops.1)).adapt fun _ _ _ any => any
  · exact .pure ⟨rfl, trivial⟩

/-! ## Reductions -/

/-- Whether it is the minimizer that failed. -/
def blamed : ReduceError → Bool
  | .minimizerFailed .. => true
  | _ => false

def Blamed (e e' : ReduceError) : Prop := blamed e = blamed e'

theorem paired_minimize {m n : Command} (acts : Acts b k g m n) (idle : g.waiting = none) (input : Path) :
    Paired b k (At g Any) (At g Blamed) (Reduce.minimize c m input) (Reduce.minimize c n input) g := by
  unfold Reduce.minimize
  refine .then (E := Blamed) ((paired_command acts idle _ _).adapt fun _ _ _ same => ⟨same.1, rfl⟩)
    (fun outcome outcome' kin => ?_) fun _ _ blamed => ⟨rfl, blamed⟩
  cases kin with
  | completed _ _ => exact .pure ⟨rfl, trivial⟩
  | failed _ _ => exact .throw ⟨rfl, rfl⟩
  | timedOut => exact .throw ⟨rfl, rfl⟩

theorem paired_disassemble (orderly : Orderly b k) (idle : g.waiting = none) (isOpen : g.opened)
    {p : Path} (shown : Shown b k g p p) (claimed : b.place (p.withExtension "ll") ∈ k.outputs) :
    Paired b k (At g Any) (At g Unbroken) (Compile.disassemble c p) (Compile.disassemble c p) g := by
  unfold Compile.disassemble
  split
  · exact .pure ⟨rfl, trivial⟩
  · refine .then (paired_convert orderly idle _ shown.seen (.output claimed isOpen)) (fun _ _ _ => ?_)
      fun _ _ unbroken => ⟨rfl, unbroken⟩
    refine .then (E := Unbroken) (.lift (twin_exists (.output claimed))) ?_ fun _ _ unbroken => ⟨rfl, unbroken⟩
    rintro there _ rfl
    split
    · exact .throw ⟨rfl, rfl, rfl⟩
    · exact .pure ⟨rfl, trivial⟩
  · exact .throw ⟨rfl, rfl, rfl⟩

/-- A variant is kept in both states or in neither. -/
theorem paired_preserve (housed : Housed b c k a) (idle : g.waiting = none) {v : Variant}
    (covered : Covered b c k a v.toPlan) (stored : Stored b c k a v.toPlan) :
    Paired b k (At { g with opened := true } Any)
      (fun f e e' => (f = g ∨ f = { g with opened := true }) ∧ Blamed e e') (Reduce.preserve c v)
      (Reduce.preserve c v) g := by
  have orderly := housed.orderly
  unfold Reduce.preserve
  refine .bind (E := fun f e e' => (f = g ∨ f = { g with opened := true }) ∧ Blamed e e')
    (.orFail (twin_open orderly housed.way) fun _ _ _ same => ⟨.inl same.1, rfl⟩) ?_ fun _ _ _ same => same
  rintro _ _ _ ⟨rfl, -⟩
  have spot : Spot k { g with opened := true } (b.place (keptPath c v.toPlan)) (b.place (keptPath c v.toPlan)) :=
    .output stored.kept rfl
  refine .then (E := Blamed) (.ask (twin_copy orderly (covered.shown _).seen spot) fun _ => rfl)
    (fun _ _ _ => ?_) fun _ _ blamed => ⟨.inr rfl, blamed⟩
  refine .bind (E := fun _ _ _ => False) (.attempt (paired_disassemble (g := { g with opened := true })
    orderly idle rfl ⟨spot.seen, rfl⟩ stored.text)) ?_ fun _ _ _ impossible => impossible.elim
  rintro f result result' related
  have warned (message message' : String) (kept : Path) :
      Paired b k (At { g with opened := true } Any)
        (fun f e e' => (f = g ∨ f = { g with opened := true }) ∧ Blamed e e')
        (do
          Program.warn message
          return kept : Reducing Path)
        (do
          Program.warn message'
          return kept : Reducing Path) { g with opened := true } :=
    .then (A := Any) (E := Blamed) (.lift (twin_log _ _ _ _)) (fun _ _ _ => .pure ⟨rfl, trivial⟩)
      fun _ _ blamed => ⟨.inr rfl, blamed⟩
  match result, result' with
  | .ok _, .ok _ =>
    obtain ⟨rfl, -⟩ := related
    exact .pure ⟨rfl, trivial⟩
  | .error e, .error e' =>
    obtain ⟨rfl, whole, wholeToo⟩ := related
    split
    · rename_i isOk
      cases isOk
    · rename_i isError
      cases isError
      cases whole
    · split
      · rename_i isOk
        cases isOk
      · rename_i isError
        cases isError
        cases wholeToo
      · exact warned _ _ _
  | .ok _, .error _ => exact related.elim
  | .error _, .ok _ => exact related.elim

theorem paired_reduceIr (housed : Housed b c k a) (idle : g.waiting = none) (isOpen : g.opened)
    (ir : a.isSource = false) {p : Plan} (covered : Covered b c k a p) (stored : Stored b c k a p) :
    Paired b k (At g Any) (At g Blamed) (Reduce.reduceIr c p.irPath) (Reduce.reduceIr c p.irPath) g := by
  have orderly := housed.orderly
  have spot : Spot k g (b.place (reducedPath c p)) (b.place (reducedPath c p)) :=
    .output (stored.reduced ir) isOpen
  have info (message message' : String) : Paired b k (At g Any) (At g Blamed)
      (monadLift (Program.info message) : Reducing Unit) (monadLift (Program.info message') : Reducing Unit) g :=
    .lift (twin_log _ _ _ _)
  have named : p.irPath.bytes ≠ [] := by
    obtain ⟨name, hasName⟩ := covered.named
    intro none
    have empty : p.irPath = ⟨[]⟩ := by
      cases path : p.irPath
      simp_all
    rw [empty] at hasName
    cases hasName
  have there (v w : View) (alike : Alike b k g v w) :
      v.directory (b.place (Path.absolute c.startDirectory c.outputRoot)) ∧
        w.directory (b.place (Path.absolute c.startDirectory c.outputRoot)) := by
    rw [place_root housed.toSited, housed.way]
    exact alike.opened isOpen
  unfold Reduce.reduceIr
  refine .then (E := Blamed) (.lift (twin_exists spot.seen)) ?_ fun _ _ blamed => ⟨rfl, blamed⟩
  rintro done _ rfl
  split
  · exact (info _ _).then (fun _ _ _ => .pure ⟨rfl, trivial⟩) fun _ _ blamed => ⟨rfl, blamed⟩
  · refine (info _ _).then (fun _ _ _ => ?_) fun _ _ blamed => ⟨rfl, blamed⟩
    refine .then (paired_minimize (acts_reduceIr orderly housed.toSited named (covered.shown g).seen spot)
      idle p.irPath) (fun _ _ _ => ?_) fun _ _ blamed => ⟨rfl, blamed⟩
    refine .then (E := Blamed) ((paired_assemble orderly idle ⟨spot.seen, rfl⟩ there
      (.output (stored.assembled ir) isOpen)).adapt fun _ _ _ same => ⟨same.1, rfl⟩)
      (fun _ _ _ => .pure ⟨rfl, trivial⟩) fun _ _ blamed => ⟨rfl, blamed⟩

theorem paired_reduceCopy (housed : Housed b c k a) (idle : g.waiting = none) (isOpen : g.opened)
    (copied : b.place (copyPath c a) ∈ k.outputs) {x : Scratch} (known : g.scratch = some x)
    {directory directory' : Path} (mine : b.place directory = x.root) (twin : b.place directory' = x.other) :
    Paired b k (At g Any) (At g Blamed)
      (Reduce.reduceCopy c a (Path.absolute c.startDirectory c.outputRoot) (copyPath c a) directory)
      (Reduce.reduceCopy c a (Path.absolute c.startDirectory c.outputRoot) (copyPath c a) directory') g := by
  have orderly := housed.orderly
  have proper : Proper (utf8 "interesting.sh") := ⟨by decide, by decide, by decide, by decide⟩
  have copySpot : Spot k g (b.place (copyPath c a)) (b.place (copyPath c a)) := .output copied isOpen
  have script : Spot k g (b.place (directory / Path.ofString "interesting.sh"))
      (b.place (directory' / Path.ofString "interesting.sh")) := by
    rw [place_entry b directory proper, place_entry b directory' proper, mine, twin]
    exact .scratch known _
  unfold Reduce.reduceCopy
  refine .then (E := Blamed) (.ask (twin_write orderly script _) fun _ => rfl) (fun _ _ _ => ?_)
    fun _ _ blamed => ⟨rfl, blamed⟩
  refine .then (E := Blamed) (.ask (twin_makeExecutable script.seen) fun _ => rfl) (fun _ _ _ => ?_)
    fun _ _ blamed => ⟨rfl, blamed⟩
  refine .then (A := Any) (E := Blamed) (.lift (twin_log _ _ _ _)) (fun _ _ _ => ?_)
    fun _ _ blamed => ⟨rfl, blamed⟩
  refine .cleaningUp (paired_minimize (acts_reduceSource orderly housed.toSited a _ _ copySpot) idle a.path)
    fun f result result' related => ?_
  match result, result' with
  | .ok (), .ok () => exact .done related
  | .error e, .error e' =>
    obtain ⟨rfl, blamed⟩ := related
    refine (twin_remove orderly copySpot (by simp [Claims.written, copied])).bind ?_
    rintro _ _ _ ⟨rfl, -⟩
    exact .done ⟨rfl, blamed⟩
  | .ok _, .error _ => exact related.elim
  | .error _, .ok _ => exact related.elim

theorem paired_reduceSource (housed : Housed b c k a) (idle : g.waiting = none) (free : g.scratch = none)
    (isOpen : g.opened) (copied : b.place (copyPath c a) ∈ k.outputs) :
    Paired b k (At g Any) (At g Blamed) (Reduce.reduceSource c a) (Reduce.reduceSource c a) g := by
  have orderly := housed.orderly
  have spot : Spot k g (b.place (copyPath c a)) (b.place (copyPath c a)) := .output copied isOpen
  have given : Seen k g (b.place a.path) (b.place a.path) := by
    rw [housed.source]
    exact .source
  have framed : Frames "pareduce-creduce" "" := frames (by decide) (by decide) (by decide)
  unfold Reduce.reduceSource
  refine .then (E := Blamed) (.lift (twin_exists spot.seen)) ?_ fun _ _ blamed => ⟨rfl, blamed⟩
  rintro done _ rfl
  split
  · exact .then (A := Any) (E := Blamed) (.lift (twin_log _ _ _ _)) (fun _ _ _ => .pure ⟨rfl, trivial⟩)
      fun _ _ blamed => ⟨rfl, blamed⟩
  · refine .then (E := Blamed) (.ask (twin_copy orderly given spot) fun _ => rfl) (fun _ _ _ => ?_)
      fun _ _ blamed => ⟨rfl, blamed⟩
    refine .bind (E := At g Blamed) (.orFail (F := At g Any) (twin_temporaryDirectory orderly framed
      .script housed.temporary) fun _ _ _ any => ⟨any.1, rfl⟩) ?_ fun _ _ _ blamed => blamed
    rintro _ directory directory' ⟨x, -, ⟨rfl, mine, twin, -, -⟩, -, -⟩
    refine .bind (A := At g Any) (E := At g Blamed) (.cleaningUp (paired_reduceCopy
      (g := { g with scratch := some x }) housed idle isOpen copied rfl mine twin)
      fun f result result' related => ?_) ?_ fun _ _ _ blamed => blamed
    · have gone := twin_removeTree (g := { g with scratch := some x }) orderly rfl mine twin
      rw [forget_scratch free] at gone
      have same : f = { g with scratch := some x } := by
        match result, result' with
        | .ok _, .ok _ => exact related.1
        | .error _, .error _ => exact related.1
        | .ok _, .error _ => exact related.elim
        | .error _, .ok _ => exact related.elim
      subst same
      refine gone.bind ?_
      rintro _ _ _ ⟨rfl, -⟩
      refine .done ?_
      match result, result' with
      | .ok _, .ok _ => exact ⟨rfl, trivial⟩
      | .error _, .error _ => exact ⟨rfl, related.2⟩
      | .ok _, .error _ => exact related.elim
      | .error _, .ok _ => exact related.elim
    · rintro _ _ _ ⟨rfl, -⟩
      exact .pure ⟨rfl, trivial⟩

/-- What is known between two requests that belong to no temporary file and no tool. -/
def Rested (g : Notes) : Prop := g.scratch = none ∧ g.waiting = none

/-- An interesting variant is kept and reduced in both states, or the same goes wrong. -/
theorem paired_dispatch (housed : Housed b c k a) (rested : Rested g) {v : Variant}
    (covered : Covered b c k a v.toPlan) (stored : Stored b c k a v.toPlan) :
    Paired b k (fun f _ _ => Rested f) (fun f e e' => Rested f ∧ Blamed e e') (Reduce.dispatch c a v)
      (Reduce.dispatch c a v) g := by
  unfold Reduce.dispatch
  refine .bind (E := fun f e e' => Rested f ∧ Blamed e e') ((paired_preserve housed rested.2 covered stored).imp
    (fun _ _ _ same => same) fun f e e' same => ⟨?_, same.2⟩) ?_ fun _ _ _ same => same
  · rcases same.1 with rfl | rfl
    · exact rested
    · exact rested
  · rintro _ _ _ ⟨rfl, -⟩
    have rests {a a' : Reducing Path} (goes : Paired b k (At { g with opened := true } Any)
        (At { g with opened := true } Blamed) a a' { g with opened := true }) :
        Paired b k (fun f _ _ => Rested f) (fun f e e' => Rested f ∧ Blamed e e') a a'
          { g with opened := true } :=
      goes.imp (fun _ _ _ same => same.1 ▸ rested) fun _ _ _ same => ⟨same.1 ▸ rested, same.2⟩
    by_cases isSource : a.isSource
    · simp only [Backend.of, isSource, if_true]
      exact rests (paired_reduceSource (g := { g with opened := true }) housed rested.2 rested.1 rfl
        (stored.copied isSource))
    · simp only [Backend.of, isSource, Bool.false_eq_true, if_false]
      exact rests (paired_reduceIr (g := { g with opened := true }) housed rested.2 rfl
        (by simpa using isSource) covered stored)

/-! ## The check -/

/-- The same summary, where nothing is left open. -/
def Summed (f : Notes) (s s' : Summary) : Prop := Rested f ∧ s' = s

theorem paired_report (rested : Rested g) (name : String) (verdict : Classification) (s : Summary) :
    Paired b k Summed (At g Any) (Check.report c name verdict s) (Check.report c name verdict s) g :=
  .then (A := Any) (E := Any) (.lift (twin_log _ _ _ _)) (fun _ _ _ => .pure ⟨rested, rfl⟩)
    fun _ _ any => ⟨rfl, any⟩

theorem paired_reduce (housed : Housed b c k a) (rested : Rested g) {v : Variant}
    (covered : Covered b c k a v.toPlan) (stored : Stored b c k a v.toPlan) (s : Summary) :
    Paired b k Summed (fun _ => Any) (Check.reduce c a v s) (Check.reduce c a v s) g := by
  unfold Check.reduce
  refine .bind (E := fun _ => Any) (.attempt (paired_dispatch housed rested covered stored)) ?_
    fun _ _ _ any => any
  rintro f result result' related
  have logged (level : Level) (message message' : String) (rested : Rested f) (t : Summary) :
      Paired b k Summed (fun _ => Any)
        (do
          Program.log level message
          return t : Checking Summary)
        (do
          Program.log level message'
          return t : Checking Summary) f :=
    .then (A := Any) (E := Any) (.lift (twin_log _ _ _ _)) (fun _ _ _ => .pure ⟨rested, rfl⟩)
      fun _ _ any => any
  match result, result' with
  | .ok _, .ok _ => exact logged _ _ _ related _
  | .error e, .error e' =>
    obtain ⟨rested, blamed⟩ := related
    cases e with
    | minimizerFailed _ _ _ =>
      cases e' with
      | minimizerFailed _ _ _ => exact logged _ _ _ rested _
      | compile _ => cases blamed
      | run _ => cases blamed
      | files _ _ => cases blamed
    | compile _ | run _ | files _ _ =>
      cases e' with
      | minimizerFailed _ _ _ => cases blamed
      | compile _ => exact .throw trivial
      | run _ => exact .throw trivial
      | files _ _ => exact .throw trivial
  | .ok _, .error _ => exact related.elim
  | .error _, .ok _ => exact related.elim

/-! ### What a check adds to a summary -/

/-- Whether a result, if it is one, counts no fewer interesting variants. -/
def Grows (sum : Summary) (r : Except PipelineError Summary) : Prop :=
  ∀ t, r = .ok t → sum.interesting ≤ t.interesting

/-- Whether a check comes to its end without finding anything interesting. -/
def Quiet (sum : Summary) (r : Except PipelineError Summary) : Prop :=
  ∃ t, r = .ok t ∧ t.interesting = sum.interesting

section Counts

variable {s : State} {sum : Summary}

theorem grows_bind {x : Checking α} {f : α → Checking Summary}
    (next : ∀ value s, Grows sum (exec b.host s (f value)).1) (s : State) :
    Grows sum (exec b.host s (x >>= f)).1 := by
  rw [exec_bind]
  split
  · exact next _ _
  · intro t isOk
    cases isOk

theorem grows_report (name : String) (verdict : Classification) (s : State) :
    Grows sum (exec b.host s (Check.report c name verdict sum)).1 := by
  rw [exec_report]
  rintro t isOk
  obtain rfl := Except.ok.inj isOk
  cases verdict with
  | interesting => exact Nat.le_succ _
  | uninteresting => exact Nat.le_refl _
  | uncompilable => exact Nat.le_refl _

theorem grows_same (sum : Summary) : Grows sum (.ok sum) := by
  rintro t isOk
  obtain rfl := Except.ok.inj isOk
  exact Nat.le_refl _

theorem grows_reduce (v : Variant) (s : State) :
    Grows sum (exec b.host s (Check.reduce c a v sum)).1 := by
  unfold Check.reduce
  refine grows_bind (fun result s => ?_) s
  match result with
  | .ok reduced => exact grows_same sum
  | .error (.minimizerFailed tool input detail) => exact grows_same sum.withReduceFailure
  | .error (.compile e) | .error (.run e) | .error (.files path cause) =>
    intro t isOk
    cases isOk

theorem grows_fresh (p : Plan) (s : State) :
    Grows sum (exec b.host s (Check.fresh c (cacheOf c) a p sum)).1 := by
  unfold Check.fresh
  refine grows_bind (fun v s => ?_) s
  split
  · exact grows_bind (fun _ s => grows_report _ _ s) s
  · refine grows_bind (fun verdict s => ?_) s
    rw [exec_bind, exec_report]
    intro t isOk
    have more : sum.interesting ≤ (sum.record verdict).interesting := @grows_report b c sum "" verdict s _ rfl
    refine Nat.le_trans more ?_
    cases verdict with
    | interesting => exact grows_reduce v s t isOk
    | uninteresting => exact grows_bind (fun _ _ => grows_same _) s t isOk
    | uncompilable => exact grows_bind (fun _ _ => grows_same _) s t isOk

theorem grows_variant (flags : List String) (s : State) :
    Grows sum (exec b.host s (Check.variant c (cacheOf c) a flags sum)).1 := by
  unfold Check.variant
  refine grows_bind (fun cancelled s => ?_) s
  split
  · intro t isOk
    cases isOk
  · refine grows_bind (fun p s => grows_bind (fun found s => ?_) s) s
    cases found with
    | some verdict => exact @grows_report b c sum.withCacheHit _ verdict s
    | none => exact grows_fresh p s

theorem grows_each (sets : List (List String)) (sum : Summary) (s : State) :
    Grows sum (exec b.host s (Check.each c (cacheOf c) a sets sum)).1 := by
  induction sets generalizing sum s with
  | nil => exact grows_same sum
  | cons flags rest ih =>
    unfold Check.each
    rw [exec_bind]
    have more := @grows_variant b c a sum flags s
    split
    · rename_i next t ran
      rw [ran] at more
      exact fun u isOk => Nat.le_trans (more next rfl) (ih next t u isOk)
    · intro t isOk
      cases isOk

/-- Of a quiet check each part is quiet. -/
theorem quiet_variant {flags : List String} {rest : List (List String)}
    (quiet : Quiet sum (exec b.host s (Check.each c (cacheOf c) a (flags :: rest) sum)).1) :
    Quiet sum (exec b.host s (Check.variant c (cacheOf c) a flags sum)).1 ∧
      ∀ next t, exec b.host s (Check.variant c (cacheOf c) a flags sum) = (.ok next, t) →
        Quiet next (exec b.host t (Check.each c (cacheOf c) a rest next)).1 := by
  obtain ⟨last, isOk, same⟩ := quiet
  unfold Check.each at isOk
  rw [exec_bind] at isOk
  have more := @grows_variant b c a sum flags s
  generalize exec b.host s (Check.variant c (cacheOf c) a flags sum) = result at isOk more ⊢
  obtain ⟨result, t⟩ := result
  cases result with
  | error e => cases isOk
  | ok next =>
    have first := more next rfl
    have second := grows_each rest next t last isOk
    refine ⟨⟨next, rfl, by omega⟩, ?_⟩
    rintro _ _ ⟨⟩
    exact ⟨last, isOk, by omega⟩

end Counts

/-! ### Checks alongside each other -/

section Alongside

variable {s : State}

/-- Only what is interesting is kept and reduced. -/
theorem along_fresh (housed : Housed b c k a) (rested : Rested g) (grown : Grown s.tree.node?)
    {bytes : Bytes} {flags : List String} (covered : Covered b c k a (planOf c a bytes flags)) (sum : Summary)
    (room : Stored b c k a (planOf c a bytes flags) ∨
      Quiet sum (exec b.host s (Check.fresh c (cacheOf c) a (planOf c a bytes flags) sum)).1) :
    Alongside b k Summed (fun _ => Any) (Check.fresh c (cacheOf c) a (planOf c a bytes flags) sum)
      (Check.fresh c (cacheOf c) a (planOf c a bytes flags) sum) g s := by
  have orderly := housed.orderly
  obtain ⟨name, hasName⟩ := covered.named
  unfold Check.fresh at room ⊢
  refine .bind (E := fun _ => Any) grown (Paired.along ((paired_build orderly rested.2 rested.1 housed.source
    housed.irDir rfl covered.compiled).adapt fun _ _ _ _ => trivial) grown) ?_ fun _ _ _ any => any
  rintro _ _ v t ⟨rfl, rfl, isPlan⟩ grown ran
  rw [exec_bind_ok ran] at room
  have coveredToo : Covered b c k a v.toPlan := isPlan ▸ covered
  by_cases success : v.success
  · simp only [success, Bool.not_true, Bool.false_eq_true, if_false] at room ⊢
    refine .bind (E := fun _ => Any) grown (Paired.along ((paired_classify orderly rested.2 rested.1
      housed.temporary (show v.toPlan.irPath.fileName? = some name by rw [isPlan]; exact hasName)
      coveredToo.shown coveredToo.crash housed.assertions).adapt fun _ _ _ _ => trivial) grown) ?_
      fun _ _ _ any => any
    rintro _ verdict _ t ⟨rfl, rfl⟩ grown ran
    rw [exec_bind_ok ran, exec_bind, exec_report] at room
    refine .bind (E := fun _ => Any) grown (Paired.along ((paired_report rested _ _ sum).imp
      (fun _ _ _ same => same) fun _ _ _ _ => trivial) grown) ?_ fun _ _ _ any => any
    rintro f _ next t ⟨rested, rfl⟩ grown ran
    have settles (verdict : Classification) : Paired b k Summed (fun _ => Any)
        (do
          Check.settle c (cacheOf c) a v verdict
          return next)
        (do
          Check.settle c (cacheOf c) a v verdict
          return next) f :=
      .then (E := Any) (paired_settle orderly coveredToo verdict) (fun _ _ _ => .pure ⟨rested, rfl⟩)
        fun _ _ any => any
    cases verdict with
    | interesting =>
      rcases room with stored | ⟨u, isOk, same⟩
      · exact Paired.along (paired_reduce housed rested coveredToo (isPlan ▸ stored) next) grown
      · have more := grows_reduce v _ u isOk
        simp only [Summary.record] at more
        omega
    | uninteresting => exact Paired.along (settles _) grown
    | uncompilable => exact Paired.along (settles _) grown
  · simp only [success, Bool.not_false, if_true]
    refine Paired.along (.then (E := Any) ((paired_store orderly covered _).adapt fun _ _ _ any => any)
      (fun _ _ _ => ?_) fun _ _ any => any) grown
    exact (paired_report rested _ _ sum).imp (fun _ _ _ same => same) fun _ _ _ _ => trivial

/-- Whether what reductions of a program may touch is claimed. -/
def Roomy (b : Bench) (c : Config) (k : Claims) (a : Artifact) : Prop :=
  ∀ flags ∈ flagSets c a, ∀ bytes executable, k.origin = some (.file bytes executable) →
    Stored b c k a (planOf c a bytes flags)

/-- A variant is checked with the same result in both states. -/
theorem along_variant (housed : Housed b c k a) (rested : Rested g) (grown : Grown s.tree.node?)
    {flags : List String} (among : flags ∈ flagSets c a) (sum : Summary)
    (room : Roomy b c k a ∨ Quiet sum (exec b.host s (Check.variant c (cacheOf c) a flags sum)).1) :
    Alongside b k Summed (fun _ => Any) (Check.variant c (cacheOf c) a flags sum)
      (Check.variant c (cacheOf c) a flags sum) g s := by
  unfold Check.variant at room ⊢
  refine .bind (E := fun _ => Any) grown (Paired.along (.lift twin_isCancelled) grown) ?_ fun _ _ _ any => any
  rintro _ _ _ t ⟨rfl, rfl, rfl⟩ grown ran
  rw [exec_bind_ok ran] at room
  simp only [Bool.false_eq_true, if_false] at room ⊢
  refine .bind (E := fun _ => Any) grown (Paired.along ((paired_plan housed.source _ flags).adapt
    fun _ _ _ _ => trivial) grown) ?_ fun _ _ _ any => any
  rintro _ _ p t ⟨rfl, rfl, bytes, executable, origin, rfl⟩ grown ran
  rw [exec_bind_ok ran] at room
  have covered := housed.covered flags among bytes executable origin
  refine .bind (E := fun _ => Any) grown (Paired.along (.lift (twin_lookup covered)) grown) ?_
    fun _ _ _ any => any
  rintro _ found _ t ⟨rfl, rfl⟩ grown ran
  rw [exec_bind_ok ran] at room
  cases found with
  | some verdict =>
    exact Paired.along ((paired_report rested _ _ _).imp (fun _ _ _ same => same) fun _ _ _ _ => trivial) grown
  | none =>
    exact along_fresh housed rested grown covered sum
      (room.imp_left fun roomy => roomy flags among bytes executable origin)

theorem along_each (housed : Housed b c k a) (rested : Rested g) (grown : Grown s.tree.node?)
    {sets : List (List String)} (among : ∀ flags ∈ sets, flags ∈ flagSets c a) (sum : Summary)
    (room : Roomy b c k a ∨ Quiet sum (exec b.host s (Check.each c (cacheOf c) a sets sum)).1) :
    Alongside b k Summed (fun _ => Any) (Check.each c (cacheOf c) a sets sum)
      (Check.each c (cacheOf c) a sets sum) g s := by
  induction sets generalizing g s sum with
  | nil => exact Paired.along (.pure ⟨rested, rfl⟩) grown
  | cons flags rest ih =>
    have roomToo := room.imp_right quiet_variant
    unfold Check.each
    refine .bind (E := fun _ => Any) grown (along_variant housed rested grown (among flags (by simp)) sum
      (roomToo.imp_right And.left)) ?_ fun _ _ _ any => any
    rintro f _ next t ⟨rested, rfl⟩ grown ran
    exact ih rested grown (fun flags more => among flags (List.mem_cons_of_mem _ more)) next
      (roomToo.imp_right fun quiet => quiet.2 next t ran)

end Alongside

end BugHunt.Proofs.TwinChecks
