import BugHunt.Proofs.CacheTransparency
import BugHunt.Proofs.Readiness
/-!
Checks that are interrupted and taken up again. An interrupted check says so or is none the worse for
it; what it leaves is on the way to where it would have ended, and a later check counts what it would
have counted.
-/

namespace BugHunt.Proofs.Resuming
open Trees Texts Names Places Runs Bench Growth Outcomes Building Judging Caching Keeping Reducing
open Asking Toolless Tallying Interrupts FailedReduction Collecting Leftovers Passages Succeeding
open Advancing Readiness

variable {b : Bench} {c : Config} {s : State} {i : Interrupts b} {a : Artifact} {source : Bytes}
  {flags : List String} {sets : List (List String)} {told : String → Option Classification}
  {u v t : View}

/-! ## One variant -/

/-- The markers of two views are the same. -/
def SameMarkers (b : Bench) (c : Config) (v t : View) : Prop :=
  ∀ {key ending verdict}, Stem (utf8 key) → Cache.markerEnding? verdict = some ending →
    t (markerPlace b c key ending) = v (markerPlace b c key ending)

theorem SameMarkers.unmarked (markers : SameMarkers b c v t)
    (unmarked : ¬ Marked b c (planOf c a source flags).key v) :
    ¬ Marked b c (planOf c a source flags).key t := by
  rintro ⟨verdict, ending, ends, there⟩
  exact unmarked ⟨verdict, ending, ends, markers (key_stem ..) ends ▸ there⟩

/-- How a check of a variant leaves the files that is cut short. -/
structure Stopped (b : Bench) (c : Config) (told : String → Option Classification) (a : Artifact)
    (source : Bytes) (flags : List String) (v : View) (e : PipelineError) (t : View) : Prop where
  interrupt : e.isInterrupt
  passage : Passage b c a source [flags] v t
  sound : Sound b c told t
  markers : SameMarkers b c v t

/-- What is cut short leaves the cache as it was. -/
theorem stopped_of_halted {e : PipelineError} (halted : Halted b c a source flags v e t)
    (sound : Sound b c told v) : Stopped b c told a source flags v e t where
  interrupt := halted.interrupt
  passage := halted.passage
  sound := sound.of_slots fun q slot => .inl (halted.cache q slot)
  markers stem ends := halted.cache _ (.marker stem ends)

/-- What has been done before counts as well. -/
theorem Stopped.after {e : PipelineError} (stopped : Stopped b c told a source flags v e t)
    (grounds : Grounds b c) (passage : Passage b c a source [flags] u v) (markers : SameMarkers b c u v) :
    Stopped b c told a source flags u e t where
  interrupt := stopped.interrupt
  passage := passage.trans grounds stopped.passage
  sound := stopped.sound
  markers stem ends := (stopped.markers stem ends).trans (markers stem ends)

/-- The verdict that is told of a variant is that on its IR. -/
theorem reached_standing {bytes : Bytes} (underway : Underway b c told a source v)
    (standing : Standing b c a source flags bytes v)
    (tells : told (planOf c a source flags).key = reached b c a flags source) :
    reached b c a flags source = verdict? (judged b c (irKind a) bytes) := by
  by_cases isSource : a.isSource
  · have place : b.place (planOf c a source flags).irPath = irPlace b c (planOf c a source flags).key :=
      (irPath_spec isSource rfl).1
    obtain ⟨other, executable, isFile, judgedAs⟩ := underway.sound.ir (key_stem ..)
      (show v (irPlace b c (planOf c a source flags).key) ≠ none from place ▸ standing.there)
    obtain ⟨own, isOwn⟩ := standing
    rw [place, show v (irPlace b c (planOf c a source flags).key) = _ from isFile] at isOwn
    obtain ⟨rfl, -⟩ := Node.file.inj (Option.some.inj isOwn)
    rw [← tells, irKind, if_pos isSource]
    exact judgedAs.symm
  · have ir : a.isSource = false := by simpa using isSource
    rw [standing.own underway ir, reached, irKind, if_neg isSource, if_neg isSource]

/-- A verdict that is marked is settled without a tool. -/
theorem settle_advances {verdict : Classification} {ending : String} (grounds : Grounds b c)
    (underway : Underway b c told a source s.tree.node?)
    (unmarked : ¬ Marked b c (planOf c a source flags).key s.tree.node?)
    (ends : Cache.markerEnding? verdict = some ending) (sum : Summary) :
    Heeds i s (do
        Check.settle c (cacheOf c) a (pairOf c a source flags).variant verdict
        return sum : Checking Summary)
      (fun r t => Passage b c a source [flags] s.tree.node? t.tree.node? ∧ ∃ sum', r = .ok sum')
      fun e t => Stopped b c told a source flags s.tree.node? e t.tree.node? := by
  obtain ⟨t, ran, settles⟩ := settle_settles grounds underway unmarked ends
  refine .toolless (.bind ((within_settle _ _ _ _ _).mono toolless_of_discreet) fun _ => .pure _) ?_
  rw [exec_bind_ok ran]
  exact ⟨settles, _, rfl⟩

/-- IR that is there is judged, and what comes of it settled. -/
theorem judging_advances {bytes : Bytes} (clear : Clear b c)
    (underway : Underway b c told a source s.tree.node?)
    (standing : Standing b c a source flags bytes s.tree.node?)
    (unmarked : ¬ Marked b c (planOf c a source flags).key s.tree.node?)
    (tells : told (planOf c a source flags).key = reached b c a flags source) (sum : Summary) :
    Heeds i s (do
        let verdict ← (Oracle.classify c (planOf c a source flags).irPath).adapt .oracle
        let s ← Check.report c (planOf c a source flags).irPath.name verdict sum
        match verdict with
        | .interesting => Check.reduce c a (pairOf c a source flags).variant s
        | verdict =>
          Check.settle c (cacheOf c) a (pairOf c a source flags).variant verdict
          return s : Checking Summary)
      (fun r t => Passage b c a source [flags] s.tree.node? t.tree.node? ∧
        ((∃ sum', r = .ok sum') ↔ Feasible b c a source flags bytes s.tree.node?))
      fun e t => Stopped b c told a source flags s.tree.node? e t.tree.node? := by
  have judges : Heeds i s ((Oracle.classify c (planOf c a source flags).irPath).adapt PipelineError.oracle)
      (fun r t => ∃ r', r = r'.mapError PipelineError.oracle ∧
        Noted b c a source flags bytes s.tree.node? t.tree.node? ∧
        Judges b c a source flags bytes s.tree.node? t.tree.node? r')
      fun e t => Halted b c a source flags s.tree.node? e t.tree.node? := by
    refine .adapt ((classify_noted clear underway standing).mono (fun r t _ holds => ⟨r, rfl, holds⟩)
      fun e t left => ⟨left.1, left.2.passage clear.toSited underway standing,
        fun q => left.2.slot underway standing⟩)
  refine judges.bind (fun _ _ halted => stopped_of_halted halted underway.sound) (fun e t failed => ?_)
    fun verdict t ran holds => ?_
  · obtain ⟨r', isError, noted, judges⟩ := failed
    cases r' with
    | ok verdict => cases isError
    | error e' =>
      refine ⟨noted.passage clear.toSited underway standing, ?_⟩
      constructor
      · rintro ⟨sum', never⟩
        cases never
      · intro feasible
        exact absurd ⟨feasible.temporary, feasible.reported⟩ judges
  · obtain ⟨r', isOk, noted, judges⟩ := holds
    cases r' with
    | error e => cases isOk
    | ok verdict' =>
      obtain rfl := Except.ok.inj isOk
      obtain ⟨temporary, reported, isVerdict, recorded⟩ := judges
      have passage := noted.passage clear.toSited underway standing
      have grown : Grown t.tree.node? := exec_grown underway.grown ran
      have sound : Sound b c told t.tree.node? :=
        underway.sound.of_slots fun q slot => .inl (noted.slot underway standing slot)
      have underway' := underway.next clear.toSited passage sound grown
      have standing' := noted.standing clear.toSited underway standing
      have markers : SameMarkers b c s.tree.node? t.tree.node? :=
        fun stem ends => noted.slot underway standing (.marker stem ends)
      have unmarked' := markers.unmarked unmarked
      have feasible : Feasible b c a source flags bytes s.tree.node? ↔ (verdict = .interesting →
          Disposable b c (pairOf c a source flags) (some bytes) t.tree.node?) := by
        rw [noted.disposable clear underway standing recorded]
        constructor
        · rintro ⟨-, -, settleable⟩ rfl
          exact settleable isVerdict
        · intro settleable
          exact ⟨temporary, reported, fun isInteresting =>
            settleable (Option.some.inj (isVerdict.symm.trans isInteresting))⟩
      refine .step (.bind (.monadLift (asks_request trivial)) fun _ => .pure _)
        (fun e u never => ?_) fun sum' u said => ?_
      · rw [exec_report] at never
        cases congrArg Prod.fst never
      · rw [exec_report] at said
        obtain rfl : sum.record verdict = sum' := Except.ok.inj (congrArg Prod.fst said)
        obtain rfl : t = u := congrArg Prod.snd said
        rw [feasible]
        cases verdict with
        | interesting =>
          have interesting : reached b c a flags source = some .interesting :=
            (reached_standing underway standing tells).trans isVerdict
          refine (reduce_collects clear underway' standing' interesting (passage.steady temporary) _).mono
            (fun r u _ holds => ?_) fun e u halted =>
              (stopped_of_halted halted sound).after clear.toGrounds passage markers
          refine ⟨passage.trans clear.toGrounds holds.1, holds.2.trans ?_⟩
          exact ⟨fun disposable _ => disposable, fun disposable => disposable rfl⟩
        | uninteresting | uncompilable =>
          refine (settle_advances clear.toGrounds underway' unmarked' rfl _).mono
            (fun r u _ holds => ⟨passage.trans clear.toGrounds holds.1, ?_⟩)
            fun e u stopped => stopped.after clear.toGrounds passage markers
          exact iff_of_true holds.2 nofun

/-- A variant without a marker is built, judged and settled if it can be. -/
theorem fresh_advances (clear : Clear b c) (underway : Underway b c told a source s.tree.node?)
    (unmarked : ¬ Marked b c (planOf c a source flags).key s.tree.node?)
    (tells : told (planOf c a source flags).key = reached b c a flags source) (sum : Summary) :
    Heeds i s (Check.fresh c (cacheOf c) a (planOf c a source flags) sum)
      (fun r t => Passage b c a source [flags] s.tree.node? t.tree.node? ∧
        ((∃ sum', r = .ok sum') ↔ Able b c a source flags s.tree.node?))
      fun e t => Stopped b c told a source flags s.tree.node? e t.tree.node? := by
  obtain ⟨r, t, ran, readied, outcome⟩ := build_readied underway flags
  have sound : Sound b c told t.tree.node? := by
    obtain ⟨r', t', ran', held, -⟩ := @build_held b c s told a flags source _ underway.sound rfl
      underway.named underway.content tells
    obtain ⟨-, rfl⟩ := Prod.mk.inj (ran'.symm.trans ran)
    exact held.sound
  have passage : Passage b c a source [flags] s.tree.node? t.tree.node? := readied.passage
  have underway' := underway.next clear.toSited passage sound (exec_grown underway.grown ran)
  have markers : SameMarkers b c s.tree.node? t.tree.node? := fun _ _ => readied.marker _ _
  have unmarked' := markers.unmarked unmarked
  have building : Heeds i s
      ((Compile.build c (cacheOf c).irDir a (planOf c a source flags)).adapt PipelineError.compile)
      (fun result w => result = r.mapError PipelineError.compile ∧ w = t)
      fun e w => Stopped b c told a source flags s.tree.node? e w.tree.node? := by
    refine .adapt ((build_heeds rfl underway.irDir).mono (fun result w ran' _ => ?_) fun e w left => ?_)
    · obtain ⟨rfl, rfl⟩ := Prod.mk.inj (ran.symm.trans ran')
      exact ⟨rfl, rfl⟩
    · exact ⟨left.1, left.2 ▸ .refl _, left.2 ▸ underway.sound, fun _ _ => by rw [left.2]⟩
  unfold Check.fresh Able
  refine building.bind (fun _ _ stopped => stopped) (fun e w failed => ?_) fun variant w _ made => ?_
  · obtain ⟨isError, rfl⟩ := failed
    cases made : built b c a source flags s.tree.node? with
    | impossible => exact ⟨passage, fun ⟨_, never⟩ => (by cases never), fun never => never.elim⟩
    | failed =>
      rw [made] at outcome
      rw [outcome] at isError
      cases isError
    | bitcode bytes =>
      rw [made] at outcome
      rw [outcome.1] at isError
      cases isError
  · obtain ⟨isOk, rfl⟩ := made
    cases made : built b c a source flags s.tree.node? with
    | impossible =>
      rw [made] at outcome
      obtain ⟨e, rfl⟩ := outcome
      cases isOk
    | failed =>
      rw [made] at outcome
      subst outcome
      obtain rfl := Except.ok.inj isOk
      have ends : Cache.markerEnding? .uncompilable = some "nocompile" := rfl
      obtain ⟨u, stored, elsewhere, there, plain⟩ := store_marks underway' unmarked' ends
      refine .toolless (.bind (.adapt ((within_store _ _ _).mono toolless_of_discreet)) fun _ =>
        .bind (.bind (.monadLift (asks_request trivial)) fun _ => .pure _) fun _ => .pure _) ?_
      simp only [Bool.not_false, if_true]
      rw [exec_bind, exec_adapt, stored]
      refine ⟨passage.trans clear.toGrounds (marked_passage clear.toGrounds ends
        (free_of_unmarked unmarked' ends) elsewhere there plain), ?_⟩
      exact ⟨fun _ => trivial, fun _ => ⟨_, rfl⟩⟩
    | bitcode bytes =>
      rw [made] at outcome
      obtain ⟨rfl, standing⟩ := outcome
      obtain rfl := Except.ok.inj isOk
      refine (judging_advances clear underway' standing unmarked' tells sum).mono
        (fun r u _ holds => ⟨passage.trans clear.toGrounds holds.1, ?_⟩)
        fun e u stopped => stopped.after clear.toGrounds passage markers
      exact holds.2.trans (readied.feasible clear.toGrounds bytes)

/-- A check of a variant goes on if the variant is ready, and heeds interrupts. -/
theorem variant_advances (clear : Clear b c) (underway : Underway b c told a source s.tree.node?)
    (tells : told (planOf c a source flags).key = reached b c a flags source) (sum : Summary) :
    Heeds i s (Check.variant c (cacheOf c) a flags sum)
      (fun r t => Passage b c a source [flags] s.tree.node? t.tree.node? ∧ Sound b c told t.tree.node? ∧
        ((∃ sum', r = .ok sum') ↔ Ready b c a source flags s.tree.node?))
      fun e t => Stopped b c told a source flags s.tree.node? e t.tree.node? := by
  have sounds (r : Except PipelineError Summary) (t : State)
      (ran : exec b.host s (Check.variant c (cacheOf c) a flags sum) = (r, t)) :
      Sound b c told t.tree.node? := by
    obtain ⟨r', t', ran', held, -⟩ := variant_held clear.toGrounds underway.sound underway.rooted
      underway.grown underway.isRead tells sum
    obtain ⟨-, rfl⟩ := Prod.mk.inj (ran'.symm.trans ran)
    exact held.sound
  have advances : Heeds i s (Check.variant c (cacheOf c) a flags sum)
      (fun r t => Passage b c a source [flags] s.tree.node? t.tree.node? ∧
        ((∃ sum', r = .ok sum') ↔ Ready b c a source flags s.tree.node?))
      fun e t => Stopped b c told a source flags s.tree.node? e t.tree.node? := by
    unfold Check.variant
    refine .watching (fun _ _ => rfl) ⟨rfl, .refl _, underway.sound, fun _ _ => rfl⟩ ?_
    simp only [Bool.false_eq_true, if_false]
    have planned : exec b.host s (Compile.plan c (cacheOf c).irDir a flags) =
        (.ok (planOf c a source flags), s) := by
      rw [exec_plan, underway.isRead]
      rfl
    refine .step (.adapt ((within_plan ..).mono toolless_of_discreet)) (fun e t failed => ?_)
      fun plan t ran => ?_
    · rw [exec_adapt, planned] at failed
      cases congrArg Prod.fst failed
    rw [exec_adapt, planned] at ran
    obtain rfl : planOf c a source flags = plan := Except.ok.inj (congrArg Prod.fst ran)
    obtain rfl : s = t := congrArg Prod.snd ran
    obtain ⟨found, looked, finds⟩ := @lookup_spec b c s (planOf c a source flags).key (key_stem ..)
    refine .step (.lift ((asks_lookup ..).mono toolless_of_discreet)) (fun e t failed => ?_)
      fun answer t ran => ?_
    · rw [exec_lift, looked] at failed
      cases congrArg Prod.fst failed
    rw [exec_lift, looked] at ran
    obtain rfl : found = answer := Except.ok.inj (congrArg Prod.fst ran)
    obtain rfl : s = t := congrArg Prod.snd ran
    cases found with
    | some verdict =>
      obtain ⟨ending, ends, there⟩ := finds
      refine .toolless (.bind (.monadLift (asks_request trivial)) fun _ => .pure _) ⟨.refl _, ?_⟩
      exact ⟨fun _ => .inl ⟨verdict, ending, ends, there⟩, fun _ => ⟨_, rfl⟩⟩
    | none =>
      have unmarked : ¬ Marked b c (planOf c a source flags).key s.tree.node? := by
        rintro ⟨verdict, ending, ends, there⟩
        exact there (finds ending verdict ends)
      refine (fresh_advances clear underway unmarked tells sum).mono (fun _ _ _ holds =>
        ⟨holds.1, holds.2.trans ⟨.inr, fun ready => ready.resolve_left unmarked⟩⟩) fun _ _ stopped => stopped
  exact advances.mono (fun r t ran holds => ⟨holds.1, sounds r t ran, holds.2⟩) fun _ _ stopped => stopped

/-! ## All variants -/

/-- What follows from the key of a variant: the verdict on it, and what it is compiled to. -/
structure Keyed (b : Bench) (c : Config) (told : String → Option Classification) (a : Artifact)
    (source : Bytes) (sets : List (List String)) : Prop where
  tells : ∀ flags ∈ sets, told (planOf c a source flags).key = reached b c a flags source
  alike : Alike b c a source sets

theorem Keyed.tail {first : List String} (keyed : Keyed b c told a source (first :: sets)) :
    Keyed b c told a source sets where
  tells flags among := keyed.tells flags (List.mem_cons_of_mem _ among)
  alike flags among other amongToo :=
    keyed.alike flags (List.mem_cons_of_mem _ among) other (List.mem_cons_of_mem _ amongToo)

/-- A check of variants goes on to its end if they are all ready at its beginning. -/
theorem each_ready (clear : Clear b c) (again : a.isSource ∨ sets.length ≤ 1)
    (keyed : Keyed b c told a source sets) (underway : Underway b c told a source s.tree.node?)
    (sum : Summary) :
    (∃ sum', (exec b.host s (Check.each c (cacheOf c) a sets sum)).1 = .ok sum') ↔
      ∀ flags ∈ sets, Ready b c a source flags s.tree.node? := by
  induction sets generalizing s sum with
  | nil => exact ⟨fun _ _ never => (List.not_mem_nil never).elim, fun _ => ⟨sum, rfl⟩⟩
  | cons flags rest ih =>
    have calm := (variant_advances (i := noInterrupts b) clear underway
      (keyed.tells flags List.mem_cons_self) sum).calm
    unfold Check.each
    rw [exec_bind, List.forall_mem_cons]
    generalize ran : exec b.host s (Check.variant c (cacheOf c) a flags sum) = ended at calm ⊢
    obtain ⟨r, t⟩ := ended
    obtain ⟨passage, sound, ready⟩ := calm
    cases r with
    | error e =>
      constructor
      · rintro ⟨_, never⟩
        cases never
      · intro all
        obtain ⟨_, never⟩ := ready.mpr all.1
        cases never
    | ok next =>
      have was := ready.mp ⟨next, rfl⟩
      have underway' := underway.next clear.toSited passage sound (exec_grown underway.grown ran)
      have againRest : a.isSource ∨ rest.length ≤ 1 := by
        refine again.imp_right fun short => ?_
        simp only [List.length_cons] at short
        omega
      refine (ih againRest keyed.tail underway' next).trans ⟨fun all => ⟨was, fun other among => ?_⟩,
        fun all other among => ?_⟩
      · have isSource : a.isSource := by
          refine again.resolve_right fun short => ?_
          simp only [List.length_cons] at short
          have := List.length_pos_of_mem among
          omega
        exact ready_before (all other among) clear underway isSource passage
          (keyed.tells flags List.mem_cons_self)
          (keyed.alike other (List.mem_cons_of_mem _ among) flags List.mem_cons_self) was
      · refine ready_stays (all.2 other among) clear passage fun first alone same => ?_
        obtain rfl := List.mem_singleton.mp alone
        exact keyed.alike first List.mem_cons_self other (List.mem_cons_of_mem _ among) same

/-- A check of variants that is cut short has come some part of the way. -/
theorem each_advances (clear : Clear b c) (keyed : Keyed b c told a source sets)
    (underway : Underway b c told a source s.tree.node?) (sum : Summary) :
    Heeds i s (Check.each c (cacheOf c) a sets sum)
      (fun _ t => Passage b c a source sets s.tree.node? t.tree.node? ∧ Sound b c told t.tree.node?)
      fun e t => PipelineError.isInterrupt e ∧ Passage b c a source sets s.tree.node? t.tree.node? ∧
        Sound b c told t.tree.node? := by
  induction sets generalizing s sum with
  | nil => exact .toolless (.pure _) ⟨.refl _, underway.sound⟩
  | cons flags rest ih =>
    have begins {t : View} (passage : Passage b c a source [flags] s.tree.node? t) :
        Passage b c a source (flags :: rest) s.tree.node? t := passage.mono fun other among => by
      obtain rfl := List.mem_singleton.mp among
      exact List.mem_cons_self
    unfold Check.each
    refine (variant_advances clear underway (keyed.tells flags List.mem_cons_self) sum).bind
      (fun _ _ stopped => ⟨stopped.interrupt, begins stopped.passage, stopped.sound⟩)
      (fun _ _ holds => ⟨begins holds.1, holds.2.1⟩) fun next t ran holds => ?_
    have underway' := underway.next clear.toSited holds.1 holds.2.1 (exec_grown underway.grown ran)
    have goesOn {u : View} (passage : Passage b c a source rest t.tree.node? u) :
        Passage b c a source (flags :: rest) s.tree.node? u :=
      (begins holds.1).trans clear.toGrounds (passage.mono fun _ => List.mem_cons_of_mem _)
    exact (ih keyed.tail underway' next).mono (fun _ _ _ ends => ⟨goesOn ends.1, ends.2⟩)
      fun _ _ left => ⟨left.1, goesOn left.2.1, left.2.2⟩

/-- Whether the markers of one view are among those of another. -/
def Fewer (b : Bench) (c : Config) (v t : View) : Prop :=
  ∀ {key ending verdict}, Stem (utf8 key) → Cache.markerEnding? verdict = some ending →
    v (markerPlace b c key ending) ≠ none → t (markerPlace b c key ending) ≠ none

theorem fewer_of_passage (passage : Passage b c a source sets v t) : Fewer b c v t :=
  fun _ _ there => passage.stays there fun _ same => irPlace_ne_markerPlace _ _ _ same.symm

/-- A check that is cut short leaves no marker that it would not have left. -/
theorem each_fewer (clear : Clear b c) (keyed : Keyed b c told a source sets)
    (underway : Underway b c told a source s.tree.node?) (sum : Summary) :
    Heeds i s (Check.each c (cacheOf c) a sets sum) (fun _ _ => True) fun _ t =>
      Fewer b c t.tree.node? (exec b.host s (Check.each c (cacheOf c) a sets sum)).2.tree.node? := by
  induction sets generalizing s sum with
  | nil => exact .toolless (.pure _) trivial
  | cons flags rest ih =>
    have whole := (each_advances (i := noInterrupts b) clear keyed underway sum).calm.1
    unfold Check.each at whole ⊢
    refine (variant_advances clear underway (keyed.tells flags List.mem_cons_self) sum).bind
      (fun _ t stopped => ?_) (fun _ _ _ => trivial) fun next t ran holds => ?_
    · intro key ending verdict stem ends there
      rw [stopped.markers stem ends] at there
      exact fewer_of_passage whole stem ends there
    · have underway' := underway.next clear.toSited holds.1 holds.2.1 (exec_grown underway.grown ran)
      rw [exec_bind_ok ran]
      exact ih keyed.tail underway' next

/-! ## A whole check -/

/-- The program that a check reads, and its bytes. -/
def Checks (b : Bench) (s : State) (path : Path) (a : Artifact) (source : Bytes) : Prop :=
  Artifact.ofPath? path = some a ∧ b.readAt s a.path = .ok source

/-- What may have changed after a check: directories lead to the cache or, for an interesting variant,
to the output; markers, compiled IR, sentinels and what is collected are those of the program's own
variants; and workspaces are kept when debugging. So no staged IR is left behind, no directory for a
minimizer, and without debugging no workspace. -/
inductive Remains (b : Bench) (c : Config) (s : State) (path : Path) (t : View) (q : Place) : Prop
  | cache (free : s.tree.node? q = none) (made : t q = some .directory) (way : Approach b c q)
  | output {a : Artifact} {source : Bytes} {flags : List String} (checks : Checks b s path a source)
      (among : flags ∈ flagSets c a) (interesting : reached b c a flags source = some .interesting)
      (free : s.tree.node? q = none) (made : t q = some .directory) (way : q <+: b.place c.outputRoot)
  | own {a : Artifact} {source : Bytes} (checks : Checks b s path a source)
      (trace : Trace b c a source (flagSets c a) q) (noDirectory : t.directory q = false)
  | workspace {a : Artifact} {source : Bytes} (checks : Checks b s path a source)
      (free : s.tree.node? q = none) (scratch : Scratch b c a source q)

/-- A state that a check leaves which a later check can start from: the cache is true, what has changed
is accounted for, and the later check counts what a check counts that is not interrupted. -/
structure Resumable (b : Bench) (c : Config) (told : String → Option Classification) (s : State)
    (path : Path) (t : State) : Prop where
  sound : Sound b c told t.tree.node?
  grown : Grown t.tree.node?
  remains : ∀ q, t.tree.node? q ≠ s.tree.node? q → Remains b c s path t.tree.node? q
  again : ∀ sum, (exec b.host s (Check.program c path)).1 = .ok sum →
    ∃ sum', (exec b.host t (Check.program c path)).1 = .ok sum' ∧ counts sum' = counts sum

theorem underway_of_read (sound : Sound b c told s.tree.node?) (grown : Grown s.tree.node?)
    (irDir : View.directory s.tree.node? (b.place (cacheOf c).irDir))
    (resultsDir : View.directory s.tree.node? (b.place (cacheOf c).resultsDir))
    (isRead : b.readAt s a.path = .ok source) : Underway b c told a source s.tree.node? where
  sound := sound
  grown := grown
  irDir := irDir
  resultsDir := resultsDir
  named := (readAt_ok isRead).1
  program := content_eq_some.mp (readAt_ok isRead).2

/-- A cache that is open can be opened again. -/
theorem open_again (irDir : View.directory s.tree.node? (b.place (cacheOf c).irDir))
    (resultsDir : View.directory s.tree.node? (b.place (cacheOf c).resultsDir)) :
    exec b.host s (Cache.open c.cacheRoot) = (.ok (cacheOf c), s) := by
  unfold Cache.open
  change exec b.host s (do
    Action.orFail (Program.createDirectories (cacheOf c).irDir) _
    Action.orFail (Program.createDirectories (cacheOf c).resultsDir) _
    return cacheOf c) = _
  rw [exec_bind, exec_orFail, run_createDirectories, createDirectories_of_directory irDir]
  simp only [Bench.change, mapError_ok]
  rw [exec_bind, exec_orFail, run_createDirectories, createDirectories_of_directory resultsDir]
  rfl

/-- A check after another one counts what the other one has counted, be that cut short or not. -/
theorem variants_again (clear : Clear b c) (keyed : Keyed b c told a source (flagSets c a))
    (underway : Underway b c told a source s.tree.node?) {t : State} (grown : Grown t.tree.node?)
    (passage : Passage b c a source (flagSets c a) s.tree.node? t.tree.node?)
    (sound : Sound b c told t.tree.node?) {sum : Summary}
    (isOk : (exec b.host s (Check.variants c (cacheOf c) a)).1 = .ok sum) :
    ∃ sum', (exec b.host t (Check.program c a.path)).1 = .ok sum' ∧ counts sum' = counts sum := by
  have underway' := underway.next clear.toSited passage sound grown
  have ready := (each_ready clear (flagSets_again c a) keyed underway .zero).mp ⟨sum, isOk⟩
  have readyStill (flags : List String) (among : flags ∈ flagSets c a) :
      Ready b c a source flags t.tree.node? :=
    ready_stays (ready flags among) clear passage fun other amongToo same =>
      keyed.alike other amongToo flags among same
  obtain ⟨sum', isOk'⟩ := (each_ready clear (flagSets_again c a) keyed underway' .zero).mpr readyStill
  change (exec b.host t (Check.variants c (cacheOf c) a)).1 = .ok sum' at isOk'
  have tells {u : State} (isRead : b.readAt u a.path = .ok source) (other : Bytes)
      (readToo : b.readAt u a.path = .ok other) : Tells b c told a other := by
    obtain rfl := Except.ok.inj (isRead.symm.trans readToo)
    exact keyed.tells
  obtain ⟨r, w, ran, -, tallied⟩ := variants_held clear.toGrounds underway.sound underway.rooted
    underway.grown (tells underway.isRead)
  obtain ⟨r', w', ran', -, tallied'⟩ := variants_held clear.toGrounds sound underway'.rooted grown
    (tells underway'.isRead)
  rw [ran] at isOk
  rw [ran'] at isOk'
  have keys : keysOf b c t a = keysOf b c s a := by
    unfold keysOf
    rw [underway.isRead, underway'.isRead]
  rw [keys] at tallied'
  refine ⟨sum', ?_, tallied'.unique tallied isOk' isOk⟩
  rw [program_of_some (ofPath?_path a), exec_bind, exec_adapt,
    open_again underway'.irDir underway'.resultsDir]
  exact normalized_ok.mpr (by rw [ran', isOk'])

/-- A check of a program that cannot be read changes nothing. -/
theorem variants_unread {cause : Failure} (unread : b.readAt s a.path = .error cause) :
    Heeds i s (Check.variants c (cacheOf c) a) (fun _ t => t = s)
      fun e t => PipelineError.isInterrupt e ∧ t = s := by
  have one (flags : List String) (sum : Summary) : Heeds i s (Check.variant c (cacheOf c) a flags sum)
      (fun r t => t = s ∧ ∃ e, r = .error e) fun e t => PipelineError.isInterrupt e ∧ t = s := by
    unfold Check.variant
    refine .watching (fun _ _ => rfl) ⟨rfl, rfl⟩ ?_
    simp only [Bool.false_eq_true, if_false]
    have failed : exec b.host s (Compile.plan c (cacheOf c).irDir a flags) =
        (.error (.files a.path cause), s) := by
      rw [exec_plan, unread]
      rfl
    refine .step (.adapt ((within_plan ..).mono toolless_of_discreet)) (fun e t ran => ?_)
      fun plan t ran => ?_
    · rw [exec_adapt, failed] at ran
      exact ⟨(congrArg Prod.snd ran).symm, e, rfl⟩
    · rw [exec_adapt, failed] at ran
      cases congrArg Prod.fst ran
  unfold Check.variants
  cases flagSets c a with
  | nil => exact .toolless (.pure _) rfl
  | cons flags rest =>
    unfold Check.each
    refine (one flags .zero).bind (fun _ _ left => left) (fun _ _ failed => failed.1) fun _ _ _ never => ?_
    obtain ⟨_, _, isError⟩ := never
    cases isError

theorem normalize_of_interrupt {e : PipelineError} (interrupt : e.isInterrupt) :
    e.normalize = .interrupted := by
  rw [PipelineError.normalize, if_pos interrupt]

theorem variants_resumes (clear : Clear b c) (keyed : Keyed b c told a source (flagSets c a))
    (underway : Underway b c told a source s.tree.node?) :
    Heeds i s (Check.variants c (cacheOf c) a).normalized
      (fun _ t => Passage b c a source (flagSets c a) s.tree.node? t.tree.node? ∧
        Sound b c told t.tree.node? ∧ Grown t.tree.node?)
      fun e t => e = .interrupted ∧ Fewer b c t.tree.node?
          (exec b.host s (Check.variants c (cacheOf c) a).normalized).2.tree.node? ∧
        Passage b c a source (flagSets c a) s.tree.node? t.tree.node? ∧
        Sound b c told t.tree.node? ∧ Grown t.tree.node? := by
  have advances := ((each_advances (i := i) clear keyed underway .zero).and
    (each_fewer clear keyed underway .zero)).grown underway.grown
  refine .adapt (advances.mono (fun _ _ _ holds => ⟨holds.1.1.1, holds.1.1.2, holds.2⟩) fun e t left => ?_)
  obtain ⟨⟨⟨interrupt, passage, sound⟩, fewer⟩, grown⟩ := left
  refine ⟨normalize_of_interrupt interrupt, ?_, passage, sound, grown⟩
  rw [Checking.normalized, exec_adapt]
  exact fewer

theorem remains_of_opened {path : Path} {o : State} {t : View} {q : Place}
    (opened : Opened b c s.tree.node? o.tree.node?) (same : t q = o.tree.node? q)
    (changed : t q ≠ s.tree.node? q) : Remains b c s path t q := by
  rw [same] at changed
  refine .cache ?_ (same.trans (opened.new q changed)) (opened.way q changed)
  exact Decidable.byContradiction fun there => changed (opened.kept q there)

/-- Of what has changed in a check, all is accounted for. -/
theorem remains_of_passage {path : Path} {o : State} {t : View} (checks : Checks b s path a source)
    (opened : Opened b c s.tree.node? o.tree.node?)
    (passage : Passage b c a source (flagSets c a) o.tree.node? t) {q : Place}
    (changed : t q ≠ s.tree.node? q) : Remains b c s path t q := by
  have freeBefore (free : o.tree.node? q = none) : s.tree.node? q = none := by
    refine Decidable.byContradiction fun there => ?_
    rw [opened.kept q there] at free
    exact there free
  by_cases same : t q = o.tree.node? q
  · exact remains_of_opened opened same changed
  · cases passage.touched q same with
    | opened among interesting _ free made way =>
      exact .output checks among interesting (freeBefore free) made way
    | written trace _ after => exact .own checks trace after
    | scratched _ free scratch => exact .workspace checks (freeBefore free) scratch

/-- Once the cache is open, a check may be interrupted anywhere and done again. -/
theorem opened_resumes {o : State} (clear : Clear b c) (sound : Sound b c told o.tree.node?)
    (grown : Grown o.tree.node?) (opened : Opened b c s.tree.node? o.tree.node?)
    (irDir : View.directory o.tree.node? (b.place (cacheOf c).irDir))
    (resultsDir : View.directory o.tree.node? (b.place (cacheOf c).resultsDir))
    (whole : exec b.host s (Check.program c a.path) =
      exec b.host o (Check.variants c (cacheOf c) a).normalized)
    (keyed : ∀ source, Checks b s a.path a source → Keyed b c told a source (flagSets c a)) :
    Heeds i o (Check.variants c (cacheOf c) a).normalized
      (fun _ t => Resumable b c told s a.path t)
      fun e t => e = .interrupted ∧
        Fewer b c t.tree.node? (exec b.host s (Check.program c a.path)).2.tree.node? ∧
        Resumable b c told s a.path t := by
  rw [whole]
  cases isRead : b.readAt o a.path with
  | error cause =>
    have stays : Resumable b c told s a.path o := by
      refine ⟨sound, grown, fun q => remains_of_opened opened rfl, fun sum isOk => ⟨sum, ?_, rfl⟩⟩
      rw [program_of_some (ofPath?_path a), exec_bind, exec_adapt, open_again irDir resultsDir]
      rw [whole] at isOk
      exact isOk
    refine .adapt ((variants_unread isRead).mono (fun _ _ _ same => same ▸ stays) fun e t left => ?_)
    obtain ⟨interrupt, rfl⟩ := left
    refine ⟨normalize_of_interrupt interrupt, ?_, stays⟩
    rw [Checking.normalized, exec_adapt]
    have unchanged := (variants_unread (i := noInterrupts b) (c := c) isRead).calm
    rw [unchanged]
    intro _ _ _ _ _ there
    exact there
  | ok source =>
    have checks : Checks b s a.path a source :=
      ⟨ofPath?_path a, (opened.readAt_iff _ _).mp isRead⟩
    have underway : Underway b c told a source o.tree.node? :=
      underway_of_read sound grown irDir resultsDir isRead
    have goesOn {t : State} (passage : Passage b c a source (flagSets c a) o.tree.node? t.tree.node?)
        (sound : Sound b c told t.tree.node?) (grown : Grown t.tree.node?) :
        Resumable b c told s a.path t := by
      refine ⟨sound, grown, fun q => remains_of_passage checks opened passage, fun sum isOk => ?_⟩
      rw [whole] at isOk
      exact variants_again clear (keyed source checks) underway grown passage sound
        (normalized_ok.mp isOk)
    exact (variants_resumes clear (keyed source checks) underway).mono
      (fun _ _ _ holds => goesOn holds.1 holds.2.1 holds.2.2)
      fun _ _ left => ⟨left.1, left.2.1, goesOn left.2.2.1 left.2.2.2.1 left.2.2.2.2⟩

theorem program_resumes {path : Path} (clear : Clear b c) (sound : Sound b c told s.tree.node?)
    (grown : Grown s.tree.node?)
    (keyed : ∀ a source, Checks b s path a source → Keyed b c told a source (flagSets c a)) :
    Heeds i s (Check.program c path) (fun _ t => Resumable b c told s path t)
      fun e t => e = .interrupted ∧
        Fewer b c t.tree.node? (exec b.host s (Check.program c path)).2.tree.node? ∧
        Resumable b c told s path t := by
  cases isProgram : Artifact.ofPath? path with
  | none =>
    rw [program_of_none isProgram]
    refine .toolless (.throw _) ⟨sound, grown, fun q changed => absurd rfl changed, fun sum isOk => ?_⟩
    rw [program_of_none isProgram] at isOk
    cases isOk
  | some a =>
    obtain rfl := path_of_ofPath? isProgram
    obtain ⟨r, o, ran, opened, opens⟩ := @open_spec b c s
    have soundThen := sound.of_slots fun q slot => .inl (opened.slots q slot)
    have grownThen := exec_grown grown ran
    have goes : Check.program c a.path = _ := program_of_some isProgram
    have asks : Within Toolless ((Cache.open c.cacheRoot).adapt PipelineError.cache) :=
      .adapt ((within_open _).mono toolless_of_discreet)
    cases r with
    | error e =>
      have whole : exec b.host s (Check.program c a.path) = (.error (.cache e), o) := by
        rw [goes, exec_bind, exec_adapt, ran]
        rfl
      have failed : Resumable b c told s a.path o := by
        refine ⟨soundThen, grownThen, fun q => remains_of_opened opened rfl, fun sum isOk => ?_⟩
        rw [whole] at isOk
        cases isOk
      rw [goes]
      refine .step asks (fun e' t ran' => ?_) fun cache t ran' => ?_
      · rw [exec_adapt, ran] at ran'
        obtain rfl : o = t := congrArg Prod.snd ran'
        exact failed
      · rw [exec_adapt, ran] at ran'
        cases congrArg Prod.fst ran'
    | ok cache =>
      obtain ⟨rfl, irDir, resultsDir⟩ := opens cache rfl
      have whole : exec b.host s (Check.program c a.path) =
          exec b.host o (Check.variants c (cacheOf c) a).normalized := by
        rw [goes, exec_bind, exec_adapt, ran]
        rfl
      have resumes := opened_resumes (i := i) clear soundThen grownThen opened irDir resultsDir whole
        fun source => keyed a source
      rw [goes] at resumes ⊢
      refine .step asks (fun e' t ran' => ?_) fun cache t ran' => ?_
      · rw [exec_adapt, ran] at ran'
        cases congrArg Prod.fst ran'
      rw [exec_adapt, ran] at ran'
      obtain rfl : cacheOf c = cache := Except.ok.inj (congrArg Prod.fst ran')
      obtain rfl : o = t := congrArg Prod.snd ran'
      exact resumes

/-! ## Histories -/

/-- How a check that may have been interrupted compares with one that is not. -/
structure Resumes (b : Bench) (c : Config) (told : String → Option Classification) (s : State)
    (path : Path) (r : Except PipelineError Summary) (t : State) : Prop
    extends Resumable b c told s path t where
  result : r = .error .interrupted ∨ exec b.host s (Check.program c path) = (r, t)
  markers : Fewer b c t.tree.node? (exec b.host s (Check.program c path)).2.tree.node?

theorem program_compares {path : Path} (clear : Clear b c) (sound : Sound b c told s.tree.node?)
    (grown : Grown s.tree.node?)
    (keyed : ∀ a source, Checks b s path a source → Keyed b c told a source (flagSets c a))
    (i : Interrupts b) (n : Nat) :
    Resumes b c told s path (exec (interrupting b i) (s, n) (Check.program c path)).1
      (exec (interrupting b i) (s, n) (Check.program c path)).2.1 := by
  obtain ⟨calm, disturbed⟩ := program_resumes (i := i) clear sound grown keyed
  obtain ⟨m, same | ⟨e, t, ran, rfl, fewer, resumable⟩⟩ := disturbed n
  · rw [same]
    exact ⟨calm, .inr rfl, fun _ _ there => there⟩
  · rw [ran]
    exact ⟨resumable, .inl rfl, fewer⟩

/-- The states that a history leads to which starts with an empty cache. Files change, but for those
that a check looks for in the cache, the cache is emptied, and programs are checked, be that
interrupted or not. -/
inductive Led (b : Bench) (c : Config) (told : String → Option Classification) : State → Prop
  | start {s : State} (blank : Blank b c s.tree.node?) (grown : Grown s.tree.node?) : Led b c told s
  | edit {s t : State} (before : Led b c told s)
      (spared : ∀ q, Slot b c q → t.tree.node? q = s.tree.node? q) (grown : Grown t.tree.node?) :
      Led b c told t
  | reset {s : State} (before : Led b c told s) : Led b c told (exec b.host s (cacheOf c).reset).2
  | check {s : State} (before : Led b c told s) (path : Path)
      (keyed : ∀ a source, Checks b s path a source → Keyed b c told a source (flagSets c a))
      (i : Interrupts b) (n : Nat) :
      Led b c told (exec (interrupting b i) (s, n) (Check.program c path)).2.1

/-- The cache is true wherever a history leads. -/
theorem led_sound (clear : Clear b c) (history : Led b c told s) :
    Sound b c told s.tree.node? ∧ Grown s.tree.node? := by
  induction history with
  | start blank grown => exact ⟨blank.sound, grown⟩
  | edit _ spared grown ih => exact ⟨ih.1.of_slots fun q slot => .inl (spared q slot), grown⟩
  | reset _ ih =>
    obtain ⟨r, t, ran, rfl | blank⟩ := @reset_spec b c _
    · rw [ran]
      exact ih
    · have grown := exec_grown ih.2 ran
      rw [ran]
      exact ⟨blank.sound, grown⟩
  | check _ path keyed i n ih =>
    have compares := program_compares clear ih.1 ih.2 keyed i n
    exact ⟨compares.sound, compares.grown⟩

/-- Wherever a history leads and whenever a check is interrupted, it says that it was or comes to what
it comes to without interrupts. The markers that it leaves are among those that it would leave, what
else it leaves is accounted for, and a later check counts the same verdicts. -/
theorem interrupted_check_resumes (clear : Clear b c) (history : Led b c told s) {path : Path}
    (keyed : ∀ a source, Checks b s path a source → Keyed b c told a source (flagSets c a))
    (i : Interrupts b) (n : Nat) :
    Resumes b c told s path (exec (interrupting b i) (s, n) (Check.program c path)).1
      (exec (interrupting b i) (s, n) (Check.program c path)).2.1 := by
  obtain ⟨sound, grown⟩ := led_sound clear history
  exact program_compares clear sound grown keyed i n

/-! ### A check whose analysis is killed -/

open CacheTransparency

/-- The analysis is killed when it has written a relation without an end. -/
def killedAnalysis : Interrupts (desk halfTools) where
  seen _ := false
  killed n := if n = 25 then
    some { halfTools with analyse := fun _ _ _ => ⟨.hung, [(utf8 "assert_a.csv.gz", [0x1f, 0x8b])]⟩ }
    else none
  unfinished n tools killed := by
    split at killed
    · obtain rfl := Option.some.inj killed
      exact fun _ unwritten => unwritten
    · cases killed

theorem outside_clear : Clear (desk halfTools) outside where
  toGrounds := outside_settled.toGrounds
  plain debug := by cases debug

theorem cProgram_kind : Kind.ofPath? cProgram = some .cSource := by decide +kernel

def cArtifact : Artifact := ⟨cProgram, .cSource, cProgram_kind⟩

/-- What follows from the key of the one variant of the C program. -/
theorem cProgram_keyed {c : Config}
    (tells : Tells (desk halfTools) c halfTold cArtifact [])
    (single : flagSets c cArtifact = [["-O0"]]) (a : Artifact)
    (source : Bytes) (checks : Checks (desk halfTools) twoPrograms cProgram a source) :
    Keyed (desk halfTools) c halfTold a source (flagSets c a) := by
  obtain ⟨isProgram, isRead⟩ := checks
  obtain rfl : cArtifact = a :=
    Option.some.inj ((ofPath?_path cArtifact).symm.trans isProgram)
  have empty : (desk halfTools).readAt twoPrograms cProgram = .ok [] :=
    readAt_of_content (by decide) (by decide)
  obtain rfl : [] = source := Except.ok.inj (empty.symm.trans isRead)
  refine ⟨tells, ?_⟩
  rw [single]
  intro flags among other amongToo _
  obtain rfl := List.mem_singleton.mp among
  obtain rfl := List.mem_singleton.mp amongToo
  rfl

/-- The state that the check of the C program is left in. -/
def cutShort : Except PipelineError Summary × State × Nat :=
  exec (interrupting (desk halfTools) killedAnalysis) (twoPrograms, 0) (Check.program outside cProgram)

theorem killed_analysis_resumes :
    cutShort.1 = .error .interrupted ∧
      Resumes (desk halfTools) outside halfTold twoPrograms cProgram cutShort.1 cutShort.2.1 ∧
      ∃ sum, (exec (desk halfTools).host cutShort.2.1 (Check.program outside cProgram)).1 = .ok sum ∧
        counts sum = (1, 0, 0) := by
  have tells : Tells (desk halfTools) outside halfTold cArtifact [] := by
    unfold Tells
    decide +kernel
  have keyed := cProgram_keyed tells (by decide)
  have resumes := interrupted_check_resumes outside_clear (.start twoPrograms_blank twoPrograms_grown)
    keyed killedAnalysis 0
  obtain ⟨sum, isOk, same⟩ := resumes.again ⟨1, 0, 0, 0, 1⟩ (ok_of_toOption (by decide +kernel))
  exact ⟨by decide +kernel, resumes, sum, isOk, same⟩

/-! ### An output directory in the place of a marker -/

/-- With this configuration what is kept of the C program lies where it would be remembered that the
program does not compile. -/
def onMarker : Config := { outside with
  outputRoot := ((cacheOf outside).markerPath?
    (planOf outside cArtifact [] ["-O0"]).key .uncompilable).getD "/w/out" }

/-- A run that learns of an interrupt from a request on. -/
def trippedBefore (request : Nat) : Interrupts (desk halfTools) where
  seen n := decide (request ≤ n)
  killed _ := none
  unfinished _ _ never := by cases never

def wholeCheck (s : State) : Except PipelineError Summary × State :=
  exec (desk halfTools).host s (Check.program onMarker cProgram)

def trippedCheck (request : Nat) : Except PipelineError Summary × State × Nat :=
  exec (interrupting (desk halfTools) (trippedBefore request)) (twoPrograms, 0)
    (Check.program onMarker cProgram)

/-- What a later check counts depends there on how far the interrupted one has come. If the output
directory has been made by then, it is not what the interrupted check would have counted; if it has
not, it is not what a check would count that comes after an uninterrupted one. -/
theorem interrupt_shows_on_marker :
    (¬ ∀ (b : Bench) (c : Config) (told : String → Option Classification) (s : State) (path : Path)
        (i : Interrupts b) (sum again : Summary), Led b c told s →
        (∀ a source, Checks b s path a source → Keyed b c told a source (flagSets c a)) →
        (exec (interrupting b i) (s, 0) (Check.program c path)).1 = .error .interrupted →
        (exec b.host (exec (interrupting b i) (s, 0) (Check.program c path)).2.1
          (Check.program c path)).1 = .ok again →
        (exec b.host s (Check.program c path)).1 = .ok sum → counts again = counts sum) ∧
    ¬ ∀ (b : Bench) (c : Config) (told : String → Option Classification) (s : State) (path : Path)
        (i : Interrupts b) (sum again : Summary), Led b c told s →
        (∀ a source, Checks b s path a source → Keyed b c told a source (flagSets c a)) →
        (exec (interrupting b i) (s, 0) (Check.program c path)).1 = .error .interrupted →
        (exec b.host (exec (interrupting b i) (s, 0) (Check.program c path)).2.1
          (Check.program c path)).1 = .ok again →
        (exec b.host (exec b.host s (Check.program c path)).2 (Check.program c path)).1 = .ok sum →
        counts again = counts sum := by
  have history : Led (desk halfTools) onMarker halfTold twoPrograms :=
    .start (blank_of_nodes (by decide)) twoPrograms_grown
  have tells : Tells (desk halfTools) onMarker halfTold cArtifact [] := by
    unfold Tells
    decide +kernel
  have keyed := cProgram_keyed tells (by decide)
  have uninterrupted : (wholeCheck twoPrograms).1.toOption = some ⟨1, 0, 0, 0, 1⟩ ∧
      (wholeCheck (wholeCheck twoPrograms).2).1.toOption = some ⟨0, 0, 1, 1, 0⟩ := by decide +kernel
  -- request 24 comes after the output directory is made, and request 0 before
  have late : (trippedCheck 24).1 = .error .interrupted ∧
      (wholeCheck (trippedCheck 24).2.1).1.toOption = some ⟨0, 0, 1, 1, 0⟩ := by decide +kernel
  have early : (trippedCheck 0).1 = .error .interrupted ∧
      (wholeCheck (trippedCheck 0).2.1).1.toOption = some ⟨1, 0, 0, 0, 1⟩ := by decide +kernel
  constructor
  · intro like
    have same := like (desk halfTools) onMarker halfTold twoPrograms cProgram (trippedBefore 24) _ _
      history keyed late.1 (ok_of_toOption late.2) (ok_of_toOption uninterrupted.1)
    exact absurd same (by decide)
  · intro like
    have same := like (desk halfTools) onMarker halfTold twoPrograms cProgram (trippedBefore 0) _ _
      history keyed early.1 (ok_of_toOption early.2) (ok_of_toOption uninterrupted.2)
    exact absurd same (by decide)

end BugHunt.Proofs.Resuming
