import BugHunt.Proofs.Sparing
/-!
What a check takes away. It removes the staging files and scratch directories that it drew, the copy
that it was to reduce a source in, and of the cache nothing but markers and the compiled IR of the
variants that it planned.
-/

namespace BugHunt.Proofs.Removals
open Asking Courses Custody Reducing Sparing StageOrder Stages Toolless

variable {c : Config} {cache : Cache} {a : Artifact} {xs : List Exchange} {p : Plan}

/-- Whether a variant was planned, from content that was read. -/
def Drafted (c : Config) (cache : Cache) (a : Artifact) (xs : List Exchange) (p : Plan) : Prop :=
  ∃ flags ∈ flagSets c a, ∃ content, ⟨.file (.read a.path), .ok content⟩ ∈ xs ∧
    p = Plan.ofContent c.extraArgs cache.irDir a flags content

/-- The requests that take nothing away. -/
def TakesNothing : Request → Prop
  | .file (.remove _) | .file (.removeTree _) => False
  | _ => True

/-- What a check may ask, as to removals, by what it was answered before. -/
inductive May (c : Config) (cache : Cache) (a : Artifact) (xs : List Exchange) : Request → Prop
  | other {r : Request} (takesNothing : TakesNothing r) : May c cache a xs r
  | staging {p : Plan} {file : Path} (drafted : Drafted c cache a xs p)
    (drawn : ⟨.temporaryFile cache.irDir s!".{p.key}." ".bc", .ok file⟩ ∈ xs) :
    May c cache a xs (.file (.remove file))
  | scratch {first last : String} {directory : Path}
    (drawn : ⟨.temporaryDirectory first last, .ok directory⟩ ∈ xs) :
    May c cache a xs (.file (.removeTree directory))
  | copy (isSource : a.isSource) (made : ⟨.file (.copy a.path (sourcePath c a)), .ok ()⟩ ∈ xs) :
    May c cache a xs (.file (.remove (sourcePath c a)))
  | marker {p : Plan} {verdict : Classification} {path : Path} (drafted : Drafted c cache a xs p)
    (isMarker : cache.markerPath? p.key verdict = some path) : May c cache a xs (.file (.remove path))
  | compiled {p : Plan} (isSource : a.isSource) (tidies : c.debug = false)
    (drafted : Drafted c cache a xs p) : May c cache a xs (.file (.remove p.irPath))

/-- A check is held to all that it was answered. -/
def discipline (c : Config) (cache : Cache) (a : Artifact) : Discipline (List Exchange) where
  may := May c cache a
  after xs r answer := xs ++ [⟨r, answer⟩]

theorem hold_eq (xs ys : List Exchange) : hold (discipline c cache a) xs ys = xs ++ ys := by
  induction ys generalizing xs with
  | nil => exact (List.append_nil xs).symm
  | cons x ys ih => exact (ih (xs ++ [x])).trans (by rw [List.append_assoc, List.singleton_append])

/-- An answer is held from when it is given. -/
theorem mem_after {r : Request} {answer : r.Answer} {ys : List Exchange}
    (later : (discipline c cache a).after xs r answer <+: ys) : ⟨r, answer⟩ ∈ ys :=
  later.subset (List.mem_append_right _ (List.mem_singleton_self _))

theorem Drafted.later (drafted : Drafted c cache a xs p) {ys : List Exchange} (later : xs <+: ys) :
    Drafted c cache a ys p := by
  obtain ⟨flags, among, content, read, same⟩ := drafted
  exact ⟨flags, among, content, later.subset read, same⟩

/-! ## Stages that take nothing away -/

theorem takesNothing_looking (r : Request) (looking : Looking r) : TakesNothing r := by
  cases r with
  | file request => cases request <;> trivial
  | _ => trivial

theorem takesNothing_running {command : Command} {memory : Option Nat} (r : Request)
    (running : Running command memory r) : TakesNothing r := by
  cases running <;> trivial

theorem classifyIn_takes_nothing (w : Workspace) (ir : Path) :
    Within TakesNothing (Oracle.classifyIn c w ir) :=
  classifyIn_within c takesNothing_looking w ir
    (assemble_within c takesNothing_looking _ _ trivial takesNothing_running)
    (fun _ => takesNothing_running) takesNothing_running (fun _ => trivial) fun _ _ => trivial

theorem reduceIr_takes_nothing (ir : Path) : Within TakesNothing (Reduce.reduceIr c ir) := by
  have assembled : Within TakesNothing (Compile.assemble c (reducedIrPath c ir) (outputDirectory c)) :=
    assemble_within c takesNothing_looking _ _ trivial takesNothing_running
  unfold Reduce.reduceIr
  refine .bind (.monadLift (asks_request trivial)) fun found => ?_
  split
  · exact .bind (.monadLift (asks_request trivial)) fun _ => .pure _
  · exact .bind (.monadLift (asks_request trivial)) fun _ =>
      .bind (within_minimize c _ _ takesNothing_running) fun _ =>
        .bind assembled.adapt fun _ => .pure _

/-! ## Actions that take away what they may -/

/-- What is held only grows. -/
theorem abides_later {Q : α → List Exchange → Prop} {program : Program α}
    (abides : Abides (discipline c cache a) Q xs program) :
    Abides (discipline c cache a) (fun value ys => xs <+: ys ∧ Q value ys) xs program := by
  induction program generalizing xs with
  | done value => exact ⟨List.prefix_refl xs, abides⟩
  | ask r next ih =>
    exact ⟨abides.1, fun answer => (ih answer (abides.2 answer)).mono fun _ _ ends =>
      ⟨(List.prefix_append ..).trans ends.1, ends.2⟩⟩

theorem abides_of_asks {program : Program α} (asks : Asks TakesNothing program) :
    Abides (discipline c cache a) (fun _ _ => True) xs program := by
  induction program generalizing xs with
  | done value => trivial
  | ask r next ih => exact ⟨.other asks.1, fun answer => ih answer (asks.2 answer)⟩

/-- What holds of the value that an action comes to. -/
def OnSuccess (Q : α → List Exchange → Prop) : Except ε α → List Exchange → Prop
  | .ok value, ys => Q value ys
  | .error _, _ => True

/-- Whether an action takes away only what it may, and comes to a value as `Q` says. -/
def Tidy (c : Config) (cache : Cache) (a : Artifact) (xs : List Exchange) (Q : α → List Exchange → Prop)
    (action : Action ε α) : Prop :=
  Heeds (discipline c cache a) (OnSuccess Q) xs action

/-- That nothing is asked of a value. -/
def Anything (_ : α) (_ : List Exchange) : Prop := True

theorem onSuccess_anything (result : Except ε α) (ys : List Exchange) : OnSuccess Anything result ys := by
  cases result <;> trivial

section Rules

variable {Q : α → List Exchange → Prop} {R : β → List Exchange → Prop}

theorem Tidy.of_within {action : Action ε α} (within : Within TakesNothing action) :
    Tidy c cache a xs Anything action :=
  (abides_of_asks within).mono fun _ _ _ => onSuccess_anything _ _

theorem Tidy.pure {value : α} (holds : Q value xs) : Tidy c cache a xs Q (pure value : Action ε α) := holds

theorem Tidy.throw {e : ε} : Tidy c cache a xs Q (throw e : Action ε α) := trivial

theorem Tidy.bind {action : Action ε α} {f : α → Action ε β} (first : Tidy c cache a xs Q action)
    (second : ∀ value ys, xs <+: ys → Q value ys → Tidy c cache a ys R (f value)) :
    Tidy c cache a xs R (action >>= f) := by
  refine Heeds.bind ((abides_later first).mono fun result ys ends => ?_)
  cases result with
  | ok value => exact second value ys ends.1 ends.2
  | error e => trivial

theorem Tidy.adapt {action : Action ε α} {g : ε → φ} (tidy : Tidy c cache a xs Q action) :
    Tidy c cache a xs Q (action.adapt g) := by
  refine Heeds.adapt (Abides.mono tidy fun result ys holds => ?_)
  cases result <;> exact holds

theorem Tidy.attempt {action : Action φ α} (tidy : Tidy c cache a xs Q action) :
    Tidy c cache a xs Anything (ExceptT.lift action.run : Action ε (Except φ α)) :=
  Abides.bind (Abides.mono tidy fun _ _ _ => trivial)

theorem Tidy.cleaningUp {action : Action ε α} {cleanup : Except ε α → Program Unit}
    (tidy : Tidy c cache a xs Q action)
    (cleans : ∀ result ys, xs <+: ys → Abides (discipline c cache a) (fun _ _ => True) ys (cleanup result)) :
    Tidy c cache a xs Anything (action.cleaningUp cleanup) :=
  Heeds.cleaningUp ((abides_later tidy).mono fun result ys ends =>
    (cleans result ys ends.1).mono fun _ _ _ => onSuccess_anything _ _)

end Rules

/-! ## The stages of a check -/

theorem plan_tidy {flags : List String} (among : flags ∈ flagSets c a) :
    Tidy c cache a xs (fun p ys => Drafted c cache a ys p) (Compile.plan c cache.irDir a flags) := by
  refine Heeds.tries ⟨.other trivial, fun (content : Except Failure Bytes) => ?_⟩
  cases content with
  | ok content => exact ⟨flags, among, content, mem_after (List.prefix_refl _), rfl⟩
  | error cause => trivial

theorem build_tidy (drafted : Drafted c cache a xs p) :
    Tidy c cache a xs (fun v _ => v.toPlan = p) (Compile.build c cache.irDir a p) := by
  have staged (staging : Path) : Within TakesNothing (Compile.intoStaging c a p staging) :=
    intoStaging_within c takesNothing_looking a p staging takesNothing_running trivial
  unfold Compile.build
  split
  · exact .pure rfl
  · refine Heeds.asks (.other trivial) fun (found : Bool) => ?_
    cases found with
    | true => exact .pure rfl
    | false =>
      refine Heeds.tries ⟨.other trivial, fun (made : Except Failure Unit) => ?_⟩
      cases made with
      | error cause => trivial
      | ok value =>
        refine Heeds.tries ⟨.other trivial, fun (drawn : Except Failure Path) => ?_⟩
        cases drawn with
        | error cause => trivial
        | ok file =>
          refine Tidy.bind (.cleaningUp (.of_within (staged file)) fun result ys later => ?_)
            fun _ _ _ _ => .pure rfl
          unfold Compile.discardStaging
          split
          · trivial
          · refine ⟨.staging (drafted.later ?_) (mem_after later), fun _ => trivial⟩
            exact ((List.prefix_append ..).trans ((List.prefix_append ..).trans
              (List.prefix_append ..))).trans later

theorem discard_abides {w : Workspace} {first last : String} (retain : Bool)
    (drawn : ⟨.temporaryDirectory first last, .ok w.root⟩ ∈ xs) :
    Abides (discipline c cache a) (fun _ _ => True) xs (w.discard retain) := by
  unfold Workspace.discard
  split
  · trivial
  · exact ⟨.scratch drawn, fun _ => trivial⟩

theorem create_tidy (name : String) : Tidy c cache a xs
    (fun w ys => ⟨.temporaryDirectory name ".scratch", .ok w.root⟩ ∈ ys) (Workspace.create name) := by
  refine Heeds.tries ⟨.other trivial, fun (drawn : Except Failure Path) => ?_⟩
  cases drawn with
  | error cause => trivial
  | ok root =>
    have among : (⟨.temporaryDirectory name ".scratch", Except.ok root⟩ : Exchange) ∈
        xs ++ [⟨.temporaryDirectory name ".scratch", Except.ok root⟩] := by simp
    have furnished (w : Workspace) : Within TakesNothing (do
        Action.orFail (Program.createDirectory w.facts) id
        Action.orFail (Program.createDirectory w.results) id : Action Failure Unit) :=
      .bind (.orFail (asks_request trivial)) fun _ => .orFail (asks_request trivial)
    refine Tidy.bind (.cleaningUp (.of_within (furnished ⟨root⟩)) fun result ys later => ?_)
      fun _ ys later _ => .pure (later.subset among)
    cases result with
    | ok value => trivial
    | error cause => exact discard_abides (w := ⟨root⟩) false (later.subset among)

theorem classify_tidy (ir : Path) : Tidy c cache a xs Anything (Oracle.classify c ir) :=
  .bind (.adapt (create_tidy _)) fun w _ _ drawn =>
    .cleaningUp (.of_within (classifyIn_takes_nothing w ir)) fun _ _ later =>
      discard_abides c.debug (later.subset drawn)

theorem removeIfPresent_tidy {path : Path} (may : May c cache a xs (.file (.remove path))) :
    Tidy c cache a xs Anything (Cache.removeIfPresent path) := by
  refine ⟨may, fun (answer : Except Failure Unit) => ?_⟩
  cases answer <;> exact onSuccess_anything _ _

theorem store_tidy (drafted : Drafted c cache a xs p) (verdict : Classification) :
    Tidy c cache a xs Anything (cache.store p.key verdict) := by
  unfold Cache.store
  split
  · rename_i marker other isMarker isOther
    obtain ⟨verdict', -, isOther⟩ := Option.bind_eq_some_iff.mp isOther
    refine Heeds.tries ⟨.other trivial, fun (touched : Except Failure Unit) => ?_⟩
    cases touched with
    | error cause => trivial
    | ok value => exact removeIfPresent_tidy (.marker (drafted.later (List.prefix_append ..)) isOther)
  · exact .throw

theorem settle_tidy {v : Variant} (drafted : Drafted c cache a xs v.toPlan) (verdict : Classification) :
    Tidy c cache a xs Anything (Check.settle c cache a v verdict) := by
  unfold Check.settle
  refine .bind (.adapt (store_tidy drafted verdict)) fun _ ys later _ => ?_
  split
  · rename_i compiled
    obtain ⟨isSource, tidies⟩ : a.isSource ∧ c.debug = false := by simpa using compiled
    exact .adapt (removeIfPresent_tidy (.compiled isSource tidies (drafted.later later)))
  · exact .pure trivial

theorem reduceCopy_tidy (isSource : a.isSource)
    (made : ⟨.file (.copy a.path (sourcePath c a)), .ok ()⟩ ∈ xs) (directory : Path) :
    Tidy c cache a xs Anything
      (Reduce.reduceCopy c a (outputDirectory c) (sourcePath c a) directory) := by
  have minimized (command : Command) : Within TakesNothing (Reduce.minimize c command a.path) :=
    within_minimize c command a.path takesNothing_running
  unfold Reduce.reduceCopy
  refine Tidy.bind (.of_within (.orFail (asks_request trivial))) fun _ ys written _ =>
    .bind (.of_within (.orFail (asks_request trivial))) fun _ zs runnable _ =>
      .bind (.of_within (.monadLift (asks_request trivial))) fun _ us logged _ =>
        .cleaningUp (.of_within (minimized _)) fun result vs later => ?_
  cases result with
  | ok value => trivial
  | error e =>
    have since : xs <+: vs := ((written.trans runnable).trans logged).trans later
    exact ⟨.copy isSource (since.subset made), fun _ => trivial⟩

theorem reduceSource_tidy (isSource : a.isSource) :
    Tidy c cache a xs Anything (Reduce.reduceSource c a) := by
  unfold Reduce.reduceSource
  refine Heeds.asks (.other trivial) fun (found : Bool) => ?_
  cases found with
  | true =>
    exact Tidy.bind (.of_within (.monadLift (asks_request trivial))) fun _ _ _ _ => .pure trivial
  | false =>
    refine Heeds.tries ⟨.other trivial, fun (copied : Except Failure Unit) => ?_⟩
    cases copied with
    | error cause => trivial
    | ok value =>
      refine Heeds.tries ⟨.other trivial, fun (drawn : Except Failure Path) => ?_⟩
      cases drawn with
      | error cause => trivial
      | ok directory =>
        refine Tidy.bind (.cleaningUp (reduceCopy_tidy isSource ?_ directory) fun _ ys later => ?_)
          fun _ _ _ _ => .pure trivial
        · exact mem_after (List.prefix_append ..)
        · exact ⟨.scratch (mem_after later), fun _ => trivial⟩

theorem dispatch_tidy (v : Variant) : Tidy c cache a xs Anything (Reduce.dispatch c a v) := by
  have kept : Within TakesNothing (keeping c v) :=
    within_keeping c v trivial takesNothing_running takesNothing_looking fun _ => trivial
  rw [dispatch_eq]
  refine .bind (.of_within (.orFail (asks_request trivial))) fun _ _ _ _ => ?_
  refine Tidy.bind (.of_within kept) fun _ _ _ _ => ?_
  unfold reducing Backend.of
  cases isSource : a.isSource with
  | true => exact reduceSource_tidy isSource
  | false => exact .of_within (reduceIr_takes_nothing v.irPath)

theorem report_takes_nothing (name : String) (verdict : Classification) (s : Summary) :
    Within TakesNothing (Check.report c name verdict s) :=
  .bind (.monadLift (asks_request trivial)) fun _ => .pure _

theorem reduce_tidy (v : Variant) (s : Summary) : Tidy c cache a xs Anything (Check.reduce c a v s) := by
  unfold Check.reduce
  refine .bind (.attempt (dispatch_tidy v)) fun result _ _ _ => ?_
  split
  · exact .bind (.of_within (.monadLift (asks_request trivial))) fun _ _ _ _ => .pure trivial
  · exact .bind (.of_within (.monadLift (asks_request trivial))) fun _ _ _ _ => .pure trivial
  · exact .throw

theorem fresh_tidy (drafted : Drafted c cache a xs p) (s : Summary) :
    Tidy c cache a xs Anything (Check.fresh c cache a p s) := by
  unfold Check.fresh
  refine .bind (.adapt (build_tidy drafted)) fun v ys built planned => ?_
  obtain rfl : v.toPlan = p := planned
  have drafted := drafted.later built
  split
  · exact .bind (.adapt (store_tidy drafted _)) fun _ _ _ _ =>
      .bind (.of_within (report_takes_nothing _ _ s)) fun _ _ _ _ => .pure trivial
  · refine .bind (.adapt (classify_tidy _)) fun verdict zs judged _ =>
      .bind (.of_within (report_takes_nothing ..)) fun s us told _ => ?_
    split
    · exact reduce_tidy v s
    · exact .bind (settle_tidy (drafted.later (judged.trans told)) _) fun _ _ _ _ => .pure trivial

theorem variant_tidy {flags : List String} (among : flags ∈ flagSets c a) (s : Summary) :
    Tidy c cache a xs Anything (Check.variant c cache a flags s) := by
  unfold Check.variant
  refine .bind (.of_within (.monadLift (asks_request trivial))) fun cancelled _ _ _ => ?_
  dsimp only
  split
  · exact .throw
  · refine .bind (.adapt (plan_tidy among)) fun p ys _ drafted =>
      .bind (.of_within (.lift ((lookup_looks cache p.key).mono takesNothing_looking)))
        fun found zs looked _ => ?_
    split
    · exact .of_within (report_takes_nothing ..)
    · exact fresh_tidy (drafted.later looked) s

theorem each_tidy {sets : List (List String)} (among : ∀ flags ∈ sets, flags ∈ flagSets c a) (s : Summary) :
    Tidy c cache a xs Anything (Check.each c cache a sets s) := by
  induction sets generalizing xs s with
  | nil => exact .pure trivial
  | cons flags rest ih =>
    exact .bind (variant_tidy (among flags List.mem_cons_self) s) fun s ys _ _ =>
      ih (fun flags later => among flags (List.mem_cons_of_mem _ later)) s

/-- Whatever it is answered, a check asks for no removal but of what it has made itself, of markers, and
of the compiled IR of its variants. -/
theorem variants_course {result : Except PipelineError Summary}
    (course : Course (Check.variants c cache a).run xs result) (before : List Exchange) (x : Exchange)
    (after : List Exchange) (split : xs = before ++ x :: after) : May c cache a before x.request := by
  have tidy : Tidy c cache a [] Anything (Check.variants c cache a) := each_tidy (fun _ => id) _
  have asked := (abides_course tidy course).2 before x after split
  rwa [hold_eq] at asked

end BugHunt.Proofs.Removals
