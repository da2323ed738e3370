import BugHunt.Proofs.CacheTransparency
import BugHunt.Proofs.Collecting
import BugHunt.Proofs.Crews
import BugHunt.Proofs.Scanning
import BugHunt.Proofs.TwinChecks
/-!
Checks that several workers carry out side by side. Where no check reads what another writes, each
comes to what it comes to alone, in whatever order the workers take their steps.
-/

namespace BugHunt.Proofs.Independence
open Trees Texts Names Places Runs Bench Growth Judging Reducing Caching Tallying Collecting Groupings Scanning
open Mirroring Twins TwinStages TwinChecks Crews
open CacheTransparency (halfTools outside)

variable {b : Bench} {c : Config} {s : State} {a : Artifact}

/-! ## What the check of a program claims -/

/-- The plans for the variants of a program, as its bytes are now. -/
def plansOf (b : Bench) (c : Config) (s : State) (a : Artifact) : List Plan :=
  match s.tree.node? (b.place a.path) with
  | some (.file bytes _) => (flagSets c a).map (planOf c a bytes)
  | _ => []

/-- The places in the cache that belong to a variant. -/
def cachedPlaces (b : Bench) (c : Config) (a : Artifact) (p : Plan) : List Place :=
  (if a.isSource then [b.place p.irPath] else []) ++
    ([.uninteresting, .uncompilable].filterMap ((cacheOf c).markerPath? p.key)).map b.place

def crashPlaces (b : Bench) (p : Plan) : List Place :=
  [crashPlace b p.irPath .factGeneration, crashPlace b p.irPath .analysis]

/-- The entries of the output directory that belong to a variant that is reduced. -/
def outputPlaces (b : Bench) (c : Config) (a : Artifact) (p : Plan) : List Place :=
  [b.place (keptPath c p), b.place ((keptPath c p).withExtension "ll")] ++
    if a.isSource then [b.place (copyPath c a)]
    else [b.place (TwinChecks.reducedPath c p), b.place (assembledPath c p)]

/-- What the check of a program comes to alone. -/
def alone (b : Bench) (c : Config) (s : State) (a : Artifact) : Scan.Part × State :=
  ((Scan.pool c (cacheOf c)).job a).run b.host s

/-- Whether a check may have something to reduce: it finds something, or does not come to its
end. -/
def reduces : Scan.Part → Bool
  | .ok sum => sum.foundInteresting
  | .error _ => true

/-- What the check of a program reads and writes. -/
def claimsOf (b : Bench) (c : Config) (s : State) (a : Artifact) : Claims :=
  let plans := plansOf b c s a
  let files := plans.flatMap (cachedPlaces b c a)
  let marks := plans.flatMap (crashPlaces b)
  { source := b.place a.path
    origin := s.tree.node? (b.place a.path)
    files
    marks
    outputs := if reduces (alone b c s a).1 then plans.flatMap (outputPlaces b c a) else []
    floors := b.place b.temporary :: b.place (cacheOf c).irDir :: (files ++ marks).map List.dropLast
    way := b.place c.outputRoot }

section Plans

variable {flags : List String} {bytes : Bytes} {executable : Bool}

theorem mem_plansOf (among : flags ∈ flagSets c a)
    (isFile : s.tree.node? (b.place a.path) = some (.file bytes executable)) :
    planOf c a bytes flags ∈ plansOf b c s a := by
  unfold plansOf
  rw [isFile]
  exact List.mem_map_of_mem among

theorem covered_claimsOf (isPlan : planOf c a bytes flags ∈ plansOf b c s a) :
    Covered b c (claimsOf b c s a) a (planOf c a bytes flags) where
  compiled isSource := List.mem_flatMap.mpr ⟨_, isPlan, by simp [cachedPlaces, isSource]⟩
  given ir := congrArg b.place (Building.irPath_of_ir ir)
  named := (⟨a, ⟨planOf c a bytes flags, true⟩, flags, bytes, rfl⟩ : Pair c).named
  marker verdict path isMarker := by
    refine List.mem_flatMap.mpr ⟨_, isPlan, List.mem_append_right _ (List.mem_map_of_mem ?_)⟩
    refine List.mem_filterMap.mpr ⟨verdict, ?_, isMarker⟩
    cases verdict with
    | interesting => cases isMarker
    | uninteresting => simp
    | uncompilable => simp
  crash stage := by
    refine List.mem_flatMap.mpr ⟨_, isPlan, ?_⟩
    cases stage with
    | factGeneration => simp [crashPlaces]
    | analysis => simp [crashPlaces]

theorem stored_claimsOf {p : Plan} (isPlan : p ∈ plansOf b c s a)
    (reduced : reduces (alone b c s a).1) : Stored b c (claimsOf b c s a) a p := by
  have among {q : Place} (own : q ∈ outputPlaces b c a p) : q ∈ (claimsOf b c s a).outputs := by
    simp only [claimsOf, reduced, if_true]
    exact List.mem_flatMap.mpr ⟨p, isPlan, own⟩
  constructor
  case kept => exact among (by simp [outputPlaces])
  case text => exact among (by simp [outputPlaces])
  case reduced => exact fun ir => among (by simp [outputPlaces, ir])
  case assembled => exact fun ir => among (by simp [outputPlaces, ir])
  case copied => exact fun isSource => among (by simp [outputPlaces, isSource])

end Plans

/-! ## One check among others -/

/-- A configuration for checks: assertions are named by file names, and neither the names of
temporary files nor the way to the output directory lead through the directory of markers. -/
structure Ordinary (b : Bench) (c : Config) : Prop extends Sited b c where
  assertions : ∀ relation ∈ c.assertions, Proper (utf8 relation)
  markers : Plain b (b.place (cacheOf c).resultsDir)
  outside : ¬ b.place (cacheOf c).resultsDir <+: b.place c.outputRoot

/-- Whether the claims of a check are in order, the directories are there that it needs, and its
crash reports do not lie among the markers. -/
structure Tidy (b : Bench) (c : Config) (s : State) (a : Artifact) : Prop where
  orderly : Orderly b (claimsOf b c s a)
  floors : ∀ d ∈ (claimsOf b c s a).floors, View.directory s.tree.node? d
  crashes : ∀ q ∈ (claimsOf b c s a).marks, ¬ b.place (cacheOf c).resultsDir <+: q

theorem housed_claimsOf (ordinary : Ordinary b c) (tidy : Tidy b c s a) :
    Housed b c (claimsOf b c s a) a where
  toSited := ordinary.toSited
  orderly := tidy.orderly
  assertions := ordinary.assertions
  source := rfl
  way := rfl
  temporary := by simp [claimsOf]
  irDir := by simp [claimsOf]
  covered _ among _ _ isFile := covered_claimsOf (mem_plansOf among isFile)

theorem mirror_start (tidy : Tidy b c s a) : Mirror b (claimsOf b c s a) idle s s where
  alike :=
    { origin := rfl
      same := fun _ _ => rfl
      marks := fun _ _ => rfl
      floors := fun d floor => ⟨tidy.floors d floor, tidy.floors d floor⟩
      blocked := fun _ _ => rfl
      opened := fun isOpen => by cases isOpen
      scratch := fun _ known => by cases known }
  waiting _ known := by cases known

theorem Alongside.normalized {k : Claims} {A : Notes → α → β → Prop} {a : Checking α} {a' : Checking β}
    {g : Notes} (h : Alongside b k A (fun _ => Any) a a' g s) :
    Alongside b k A (fun _ => Any) a.normalized a'.normalized g s := by
  unfold Alongside Checking.normalized
  refine Along.bind h fun f result' related => ?_
  cases ran : (@Program.run State (Except PipelineError α) b.host s a).1 with
  | ok x =>
    rw [ran] at related
    cases result' with
    | ok y => exact ⟨_, f, rfl, .refl f, related⟩
    | error e' => exact related.elim
  | error e =>
    rw [ran] at related
    cases result' with
    | ok y => exact related.elim
    | error e' => exact ⟨_, f, rfl, .refl f, trivial⟩

/-- Results that are the same but for the wording of errors. -/
def SameParts : Agreement Scan.Part := Match Summed fun _ => Any

theorem SameParts.toOption {g : Notes} {x y : Scan.Part} (same : SameParts g x y) :
    y.toOption = x.toOption := by
  match x, y with
  | .ok sum, .ok sum' => exact congrArg some same.2
  | .error e, .error e' => rfl
  | .ok sum, .error e' => exact same.elim
  | .error e, .ok sum' => exact same.elim

theorem roomy_or_quiet (b : Bench) (c : Config) (s : State) (a : Artifact) :
    Roomy b c (claimsOf b c s a) a ∨
      Quiet .zero (exec b.host s (Check.each c (cacheOf c) a (flagSets c a) .zero)).1 := by
  by_cases reduced : reduces (alone b c s a).1
  · exact .inl fun flags among bytes executable isFile => stored_claimsOf (mem_plansOf among isFile) reduced
  · right
    have result : (alone b c s a).1 =
        (exec b.host s (Check.variants c (cacheOf c) a).normalized).1 := rfl
    rw [result, Checking.normalized, exec_adapt] at reduced
    change Quiet .zero (exec b.host s (Check.variants c (cacheOf c) a)).1
    cases ran : exec b.host s (Check.variants c (cacheOf c) a) with
    | mk result t =>
      rw [ran] at reduced
      cases result with
      | ok sum =>
        have none : ¬ sum.foundInteresting := reduced
        refine ⟨sum, rfl, ?_⟩
        show sum.interesting = 0
        simpa [Summary.foundInteresting] using none
      | error e => exact absurd rfl reduced

/-- The check of a program, before it begins. -/
def memberOf (b : Bench) (c : Config) (s : State) (a : Artifact) : Member Scan.Part where
  claims := claimsOf b c s a
  alone := alone b c s a
  program := (Scan.pool c (cacheOf c)).job a
  notes := idle

/-- The check of a program goes its way among others as it does alone. -/
theorem follows_start (ordinary : Ordinary b c) (tidy : Tidy b c s a) (grown : Grown s.tree.node?) :
    Follows b SameParts (memberOf b c s a) s := by
  refine ⟨tidy.orderly, (Scan.pool c (cacheOf c)).job a, s, grown, rfl, ?_, mirror_start tidy⟩
  exact Alongside.normalized (along_each (housed_claimsOf ordinary tidy) ⟨rfl, rfl⟩ grown
    (fun _ among => among) .zero (roomy_or_quiet b c s a))

/-! ## All checks -/

/-- Programs of whose checks none reads what another writes. -/
def Separate (b : Bench) (c : Config) (s : State) (programs : List Artifact) : Prop :=
  programs.Pairwise fun a a' => Apart (claimsOf b c s a) (claimsOf b c s a') ∧
    Apart (claimsOf b c s a') (claimsOf b c s a)

variable {programs : List Artifact} {ms : List (Member Scan.Part)} {t u : State}

theorem crew_start (ordinary : Ordinary b c) (grown : Grown s.tree.node?)
    (tidy : ∀ a ∈ programs, Tidy b c s a) (separate : Separate b c s programs) :
    Crew b SameParts s.tree.node? (programs.map (memberOf b c s)) s where
  grown := grown
  follows := by
    intro m among
    obtain ⟨a, isProgram, rfl⟩ := List.mem_map.mp among
    exact follows_start ordinary (tidy a isProgram) grown
  beside := by
    refine List.pairwise_map.mpr (separate.imp ?_)
    rintro a a' ⟨mine, theirs⟩
    exact ⟨⟨rfl, mine, nofun⟩, ⟨rfl, theirs, nofun⟩⟩
  elsewhere _ _ _ := rfl

/-- The results of members that are done are those that their checks come to alone. -/
theorem values_of_done {values : List Scan.Part} (follows : ∀ m ∈ ms, Follows b SameParts m t)
    (isDone : ms.map Member.program = values.map .done) :
    values.map Except.toOption = ms.map fun m => m.alone.1.toOption := by
  induction ms generalizing values with
  | nil =>
    obtain rfl := List.map_eq_nil_iff.mp isDone.symm
    rfl
  | cons m rest ih =>
    obtain ⟨value, values, rfl, first, later⟩ := List.map_eq_cons_iff.mp isDone.symm
    obtain ⟨⟨f, same⟩, -⟩ := (follows m List.mem_cons_self).ended first.symm
    rw [List.map_cons, List.map_cons, SameParts.toOption same,
      ih (fun m among => follows m (List.mem_cons_of_mem _ among)) later.symm]

/-- What is known of the files when all checks are done. -/
structure Settled (b : Bench) (c : Config) (s : State) (programs : List Artifact) (t : State) :
    Prop where
  own : ∀ a ∈ programs, ∀ q ∈ (claimsOf b c s a).files ++ (claimsOf b c s a).outputs,
    t.tree.node? q = (alone b c s a).2.tree.node? q
  rest : ∀ q, Plain b q → ¬ q <+: b.place c.outputRoot →
    (∀ a ∈ programs, q ∉ (claimsOf b c s a).written) → t.tree.node? q = s.tree.node? q

theorem settled_of_done {values : List Scan.Part} (crew : Crew b SameParts s.tree.node? ms t)
    (isDone : ms.map Member.program = values.map .done)
    (errands : (ms.map Member.toErrand).Perm ((programs.map (memberOf b c s)).map Member.toErrand)) :
    Settled b c s programs t where
  own := by
    intro a among q claimed
    have isErrand : (memberOf b c s a).toErrand ∈ ms.map Member.toErrand :=
      errands.mem_iff.mpr (List.mem_map_of_mem (List.mem_map_of_mem among))
    obtain ⟨m, among, same⟩ := List.mem_map.mp isErrand
    have program : m.program ∈ values.map Program.done := isDone ▸ List.mem_map_of_mem among
    obtain ⟨value, -, ended⟩ := List.mem_map.mp program
    obtain ⟨-, mirror⟩ := (crew.follows m among).ended ended.symm
    have claims : m.claims = claimsOf b c s a := congrArg Errand.claims same
    have result : m.alone = alone b c s a := congrArg Errand.alone same
    rw [claims, result] at mirror
    exact mirror.alike.same q (List.mem_cons_of_mem _ claimed)
  rest := by
    intro q plain aside unwritten
    refine crew.elsewhere q plain ?_
    rintro ⟨m, among, reaches⟩
    have isErrand := errands.mem_iff.mp (List.mem_map_of_mem among)
    obtain ⟨n, isMember, same⟩ := List.mem_map.mp isErrand
    obtain ⟨a, isProgram, rfl⟩ := List.mem_map.mp isMember
    have claims : m.claims = claimsOf b c s a := (congrArg Errand.claims same).symm
    rw [claims] at reaches
    rcases reaches with written | on
    · exact unwritten a isProgram written
    · exact aside on

/-- Two runs of all checks leave the same, but for crash reports, temporary files and the way to the
output directory. -/
theorem Settled.same (settled : Settled b c s programs t) (settledToo : Settled b c s programs u)
    {q : Place} (plain : Plain b q) (aside : ¬ q <+: b.place c.outputRoot)
    (unmarked : ∀ a ∈ programs, q ∉ (claimsOf b c s a).marks) : t.tree.node? q = u.tree.node? q := by
  by_cases owned : ∃ a ∈ programs, q ∈ (claimsOf b c s a).files ++ (claimsOf b c s a).outputs
  · obtain ⟨a, among, own⟩ := owned
    rw [settled.own a among q own, settledToo.own a among q own]
  · have unwritten : ∀ a ∈ programs, q ∉ (claimsOf b c s a).written := by
      intro a among written
      simp only [Claims.written, List.mem_append] at written
      rcases written with (file | mark) | output
      · exact owned ⟨a, among, List.mem_append_left _ file⟩
      · exact unmarked a among mark
      · exact owned ⟨a, among, List.mem_append_right _ output⟩
    rw [settled.rest q plain aside unwritten, settledToo.rest q plain aside unwritten]

/-! ## Side by side and one by one -/

/-- The checks of programs by a number of workers: their results, in the order in which they end, and
the state that they leave. -/
def sideBySide (b : Bench) (c : Config) (s : State) (workers : Nat) (programs : List Artifact) :
    List Scan.Part × State :=
  (({ Scan.pool c (cacheOf c) with workers } : Pool Scan.Part).run ⟨programs, []⟩ [] []).run b.host s

/-- The checks of programs one after another, whatever they come to. -/
def oneByOne (b : Bench) (c : Config) (s : State) (programs : List Artifact) :
    List Scan.Part × State :=
  (programs.mapM (Scan.pool c (cacheOf c)).job).run b.host s

/-- What the checks of programs come to alone, but for the wording of errors. -/
def results (b : Bench) (c : Config) (s : State) (programs : List Artifact) : List (Option Summary) :=
  programs.map fun a => (alone b c s a).1.toOption

theorem results_of_done {values : List Scan.Part} {checked : List Artifact}
    (follows : ∀ m ∈ ms, Follows b SameParts m t) (isDone : ms.map Member.program = values.map .done)
    (errands : ms.map Member.toErrand = (checked.map (memberOf b c s)).map Member.toErrand) :
    values.map Except.toOption = results b c s checked := by
  have same := congrArg (List.map fun errand : Errand Scan.Part => errand.alone.1.toOption) errands
  rw [List.map_map, List.map_map, List.map_map] at same
  exact (values_of_done follows isDone).trans same

theorem oneByOne_results (crew : Crew b SameParts s.tree.node? (programs.map (memberOf b c s)) s) :
    (oneByOne b c s programs).1.map Except.toOption = results b c s programs ∧
      Settled b c s programs (oneByOne b c s programs).2 := by
  have pending : (programs.map (memberOf b c s)).map Member.program =
      programs.map (Scan.pool c (cacheOf c)).job := List.map_map
  rw [← List.append_nil (programs.map (memberOf b c s))] at crew
  obtain ⟨finished, errands, isDone, after⟩ := crew.mapM programs pending
  rw [List.append_nil] at after
  exact ⟨results_of_done after.follows isDone errands, settled_of_done after isDone (.of_eq errands)⟩

theorem sideBySide_results (crew : Crew b SameParts s.tree.node? (programs.map (memberOf b c s)) s)
    {n : Nat} (workers : 0 < n) : ∃ checked, checked.Subperm programs ∧
      (sideBySide b c s n programs).1.map Except.toOption = results b c s checked ∧
      ((∀ part ∈ (sideBySide b c s n programs).1, part.isFailure = false) →
        checked.Perm programs ∧ Settled b c s programs (sideBySide b c s n programs).2) := by
  have staffed : Staffed b SameParts s.tree.node? { Scan.pool c (cacheOf c) with workers := n }
      ⟨programs, []⟩ [] [] [] (programs.map (memberOf b c s)) [] [] s :=
    ⟨rfl, List.map_map, rfl, rfl, by simpa using crew⟩
  obtain ⟨parts, t, ran, dismissed⟩ := staffed.run
  obtain ⟨left, done, isDone, errands, after, all⟩ := dismissed.members
  rw [List.nil_append, List.append_nil, List.append_nil] at errands
  have ranToo : sideBySide b c s n programs = (parts, t) := ran
  rw [ranToo]
  -- The members have changed places; so do the programs.
  have ordered : Relation.Comp (fun members programs => members = programs.map fun a =>
      (memberOf b c s a).toErrand) List.Perm ((left ++ done).map Member.toErrand) programs := by
    rw [List.eq_map_comp_perm]
    rwa [List.map_map] at errands
  obtain ⟨order, isOrder, sameOrder⟩ := ordered
  rw [List.map_append] at isOrder
  obtain ⟨unchecked, checked, rfl, isLeft, isChecked⟩ := List.append_eq_map_iff.mp isOrder
  refine ⟨checked, (List.sublist_append_right ..).subperm.trans sameOrder.subperm, ?_, ?_⟩
  · refine results_of_done (fun m among => after.follows m (List.mem_append_right _ among)) isDone ?_
    rw [← isChecked, List.map_map]
    rfl
  · intro calm
    obtain rfl := all workers calm
    obtain rfl := List.map_eq_nil_iff.mp isLeft
    exact ⟨sameOrder, settled_of_done after isDone errands⟩

/-- No temporary file is named as a marker is. -/
theorem not_drawable_marker {key ending : String} {verdict : Classification}
    (isEnding : Cache.markerEnding? verdict = some ending) :
    ¬ Drawable b (utf8 (key ++ "." ++ ending)) := by
  rintro ⟨t, before, after, framing, same⟩
  have chars := congrArg String.toList (utf8_injective same)
  have last := congrArg List.getLast? chars
  simp only [String.toList_append] at chars last
  have clash {sign mark : Char} (ends : after.toList.getLast? = some sign)
      (marks : ending.toList.getLast? = some mark) : mark = sign := by
    simp only [List.getLast?_append, ends, marks, Option.some_or] at last
    exact Option.some.inj last
  have unlike {sign : Char} (ends : after.toList.getLast? = some sign) : sign = 'g' ∨ sign = 'e' := by
    cases verdict with
    | interesting => cases isEnding
    | uninteresting =>
      obtain rfl := Option.some.inj isEnding
      exact .inl (clash ends (by decide)).symm
    | uncompilable =>
      obtain rfl := Option.some.inj isEnding
      exact .inr (clash ends (by decide)).symm
  cases framing with
  | staging key => exact absurd (unlike (by decide : ".bc".toList.getLast? = some 'c')) (by decide)
  | workspace name =>
    exact absurd (unlike (by decide : ".scratch".toList.getLast? = some 'h')) (by decide)
  | script =>
    have dot : '.' ∈ "pareduce-creduce".toList ++ (b.draw t "pareduce-creduce" "").toList ++ "".toList := by
      rw [← chars]
      simp
    rcases List.mem_append.mp dot with front | none
    · rcases List.mem_append.mp front with sign | drawn
      · exact absurd sign (by decide)
      · exact absurd (b.draw_sign t _ _ '.' drawn) (by decide)
    · exact absurd none (by decide)

/-- Where no check reads what another writes, any number of workers, in whatever order they take
their steps, come to results that the checks come to alone, as the checks one after another do: they
come to the same sum or to none, and with it to the same files and markers, but for crash reports,
temporary files and the way to the output directory. -/
theorem fan_out_independent (ordinary : Ordinary b c) (grown : Grown s.tree.node?)
    (tidy : ∀ a ∈ programs, Tidy b c s a) (separate : Separate b c s programs)
    {n : Nat} (workers : 0 < n) :
    (∃ checked, checked.Subperm programs ∧
      (sideBySide b c s n programs).1.map Except.toOption = results b c s checked) ∧
    (oneByOne b c s programs).1.map Except.toOption = results b c s programs ∧
    ∀ sum, (Scan.total (sideBySide b c s n programs).1 = .ok sum ↔
        Scan.total (oneByOne b c s programs).1 = .ok sum) ∧
      (Scan.total (oneByOne b c s programs).1 = .ok sum →
        (∀ q, Plain b q → ¬ q <+: b.place c.outputRoot →
          (∀ a ∈ programs, q ∉ (claimsOf b c s a).marks) →
          (sideBySide b c s n programs).2.tree.node? q = (oneByOne b c s programs).2.tree.node? q) ∧
        ∀ key ending verdict, Cache.markerEnding? verdict = some ending →
          (sideBySide b c s n programs).2.tree.node? (markerPlace b c key ending) =
            (oneByOne b c s programs).2.tree.node? (markerPlace b c key ending)) := by
  have crew := crew_start ordinary grown tidy separate
  obtain ⟨inOrder, settledToo⟩ := oneByOne_results crew
  obtain ⟨checked, among, isChecked, whole⟩ := sideBySide_results crew workers
  -- A sum of either means that nothing stopped the workers.
  have perm (calm : ∀ part ∈ (sideBySide b c s n programs).1, part.isFailure = false) :
      ((sideBySide b c s n programs).1.map Except.toOption).Perm
        ((oneByOne b c s programs).1.map Except.toOption) := by
    rw [isChecked, inOrder]
    exact (whole calm).1.map _
  have calm {sum : Summary} (sums : Sums (oneByOne b c s programs).1 sum) :
      ∀ part ∈ (sideBySide b c s n programs).1, part.isFailure = false := by
    obtain ⟨summaries, isOrder, -⟩ := sums_iff.mp sums
    intro part found
    have option : part.toOption ∈ results b c s programs := by
      have own : part.toOption ∈ results b c s checked := isChecked ▸ List.mem_map_of_mem found
      obtain ⟨a, isChecked, same⟩ := List.mem_map.mp own
      exact same ▸ List.mem_map_of_mem (among.subset isChecked)
    rw [← inOrder, isOrder] at option
    obtain ⟨summary, -, same⟩ := List.mem_map.mp option
    cases part with
    | ok sum => rfl
    | error e => cases same
  refine ⟨⟨checked, among, isChecked⟩, inOrder, fun sum => ⟨?_, fun total => ?_⟩⟩
  · rw [total_ok, total_ok]
    exact ⟨fun sums => sums.perm_options (perm (going_of_sums sums)),
      fun sums => sums.perm_options (perm (calm sums)).symm⟩
  · have settled := (whole (calm (total_ok.mp total))).2
    refine ⟨fun q plain aside unmarked => settled.same settledToo plain aside unmarked, ?_⟩
    intro key ending verdict isEnding
    refine settled.same settledToo ?_ ?_ ?_
    · intro name drawable found
      rcases List.mem_append.mp found with above | own
      · exact ordinary.markers name drawable above
      · rw [List.mem_singleton.mp own] at drawable
        exact not_drawable_marker isEnding drawable
    · exact fun on => ordinary.outside ((List.prefix_append ..).trans on)
    · exact fun a isProgram mark => (tidy a isProgram).crashes _ mark (List.prefix_append ..)

/-! ## Two programs, two workers -/

/-- Whether a name looks like that of a temporary file. -/
def looksTemporary (name : Bytes) : Bool :=
  (utf8 ".scratch").isSuffixOf name || (utf8 "pareduce-creduce").isPrefixOf name ||
    (utf8 ".").isPrefixOf name && (utf8 ".bc").isSuffixOf name

theorem isSuffixOf_append (before after : String) :
    (utf8 after).isSuffixOf (utf8 (before ++ after)) := by
  rw [utf8_append, List.isSuffixOf_iff_suffix]
  exact List.suffix_append ..

theorem isPrefixOf_append (before after : String) :
    (utf8 before).isPrefixOf (utf8 (before ++ after)) := by
  rw [utf8_append, List.isPrefixOf_iff_prefix]
  exact List.prefix_append ..

theorem looksTemporary_of_drawable {name : Bytes} (drawable : Drawable b name) :
    looksTemporary name := by
  obtain ⟨t, before, after, framing, rfl⟩ := drawable
  unfold looksTemporary
  cases framing with
  | staging key =>
    have dotFirst : s!".{key}." ++ b.draw t s!".{key}." ".bc" ++ ".bc" =
        "." ++ (key ++ "." ++ b.draw t s!".{key}." ".bc" ++ ".bc") := by
      simp only [String.append_assoc, toString]
    have front := isPrefixOf_append "." (key ++ "." ++ b.draw t s!".{key}." ".bc" ++ ".bc")
    rw [← dotFirst] at front
    rw [front, isSuffixOf_append _ ".bc", Bool.and_self, Bool.or_true]
  | workspace before => rw [isSuffixOf_append _ ".scratch", Bool.true_or, Bool.true_or]
  | script =>
    rw [String.append_assoc, isPrefixOf_append "pareduce-creduce", Bool.or_true, Bool.true_or]

theorem plain_of_names {p : Place} (names : ∀ name ∈ p, looksTemporary name = false) : Plain b p := by
  intro name drawable found
  have unlike := names name found
  rw [looksTemporary_of_drawable drawable] at unlike
  cases unlike

theorem orderly_of_names {k : Claims} (readOnly : k.source ∉ k.written)
    (unread : ∀ q ∈ k.marks, q ∉ k.files ∧ q ∉ k.outputs)
    (aside : ∀ q ∈ k.source :: k.written, ¬ q <+: k.way)
    (level : ∀ q ∈ k.files ++ k.marks, q.dropLast ∈ k.floors)
    (entries : ∀ q ∈ k.outputs, q.dropLast = k.way)
    (names : ∀ q ∈ k.places, ∀ name ∈ q, looksTemporary name = false) : Orderly b k :=
  ⟨readOnly, unread, aside, level, entries,
    fun name drawable q among => plain_of_names (names q among) name drawable⟩

/-- A bench on which the workers take their steps in a given order. -/
def takingTurns (tools : Toolbox) (turn : Nat → Nat) : Bench := { desk tools with turn }

/-- A program in C and one in C++, and a cache that knows neither. -/
def twoSources : State where
  tree := ⟨[([utf8 "w"], .directory), ([utf8 "tmp"], .directory),
    ([utf8 "w", utf8 "cache"], .directory), ([utf8 "w", utf8 "cache", utf8 "ir"], .directory),
    ([utf8 "w", utf8 "cache", utf8 "results"], .directory),
    ([utf8 "w", utf8 "main.c"], .file (utf8 "int x;") false),
    ([utf8 "w", utf8 "lib.cpp"], .file (utf8 "class y;") false)]⟩
  started := []
  turns := 0

def cSource : Artifact := ⟨"/w/main.c", .cSource, by decide +kernel⟩
def cxxSource : Artifact := ⟨"/w/lib.cpp", .cxxSource, by decide +kernel⟩

/-- The workers change after every step. -/
def byTurns : Bench := takingTurns halfTools id

/-- What the check of a source with one variant claims. -/
def sourceClaims (source key : String) (outputs : List Place) : Claims :=
  let ir : Place := [utf8 "w", utf8 "cache", utf8 "ir"]
  let results : Place := [utf8 "w", utf8 "cache", utf8 "results"]
  { source := [utf8 "w", utf8 source]
    origin := twoSources.tree.node? [utf8 "w", utf8 source]
    files := [ir ++ [utf8 (key ++ ".bc")], results ++ [utf8 (key ++ ".uninteresting")],
      results ++ [utf8 (key ++ ".nocompile")]]
    marks := [ir ++ [utf8 (key ++ ".factgen-crash")], ir ++ [utf8 (key ++ ".analysis-crash")]]
    outputs
    floors := [[utf8 "tmp"], ir, ir, results, results, ir, ir]
    way := [utf8 "w", utf8 "out"] }

def cClaims : Claims :=
  sourceClaims "main.c" "main.-O0.519c7790e4d8b9f5"
    [[utf8 "w", utf8 "out", utf8 "interesting-main.-O0.519c7790e4d8b9f5.bc"],
      [utf8 "w", utf8 "out", utf8 "interesting-main.-O0.519c7790e4d8b9f5.ll"],
      [utf8 "w", utf8 "out", utf8 "source-reduced-main.c"]]

def cxxClaims : Claims := sourceClaims "lib.cpp" "lib.-O0.d2892b743af5c349" []

theorem claimsOf_sources : claimsOf byTurns outside twoSources cSource = cClaims ∧
    claimsOf byTurns outside twoSources cxxSource = cxxClaims := by
  have cPlans : plansOf byTurns outside twoSources cSource =
      [⟨"/w/cache/ir/main.-O0.519c7790e4d8b9f5.bc", ["-O0"], "main.-O0.519c7790e4d8b9f5"⟩] := by
    decide +kernel
  have cxxPlans : plansOf byTurns outside twoSources cxxSource =
      [⟨"/w/cache/ir/lib.-O0.d2892b743af5c349.bc", ["-O0"], "lib.-O0.d2892b743af5c349"⟩] := by
    decide +kernel
  have cReduces : reduces (alone byTurns outside twoSources cSource).1 = true := by decide +kernel
  have cxxReduces : reduces (alone byTurns outside twoSources cxxSource).1 = false := by
    decide +kernel
  unfold claimsOf cClaims cxxClaims sourceClaims
  rw [cPlans, cReduces, cxxPlans, cxxReduces, Claims.mk.injEq, Claims.mk.injEq]
  decide +kernel

theorem outside_ordinary : Ordinary byTurns outside where
  home := by decide
  absolute := by decide
  assertions := by
    intro relation among
    obtain rfl := List.mem_singleton.mp among
    exact ⟨by decide, by decide, by decide, by decide⟩
  markers := plain_of_names (by decide)
  outside := by decide

theorem sources_tidy : ∀ a ∈ [cSource, cxxSource], Tidy byTurns outside twoSources a := by
  obtain ⟨cSame, cxxSame⟩ := claimsOf_sources
  simp only [List.forall_mem_cons, List.not_mem_nil, false_imp_iff, implies_true, and_true]
  refine ⟨⟨?_, ?_, ?_⟩, ⟨?_, ?_, ?_⟩⟩
  · rw [cSame]
    exact orderly_of_names (by decide) (by decide) (by decide) (by decide) (by decide) (by decide)
  · rw [cSame]
    decide
  · rw [cSame]
    decide
  · rw [cxxSame]
    exact orderly_of_names (by decide) (by decide) (by decide) (by decide) (by decide) (by decide)
  · rw [cxxSame]
    decide
  · rw [cxxSame]
    decide

theorem sources_separate : Separate byTurns outside twoSources [cSource, cxxSource] := by
  unfold Separate
  rw [List.pairwise_pair, claimsOf_sources.1, claimsOf_sources.2]
  exact ⟨⟨by decide, by decide⟩, ⟨by decide, by decide⟩⟩

/-- Two workers that change after every step: one program is interesting, and its reduction fails;
the other does not compile. -/
theorem two_workers_count_alike :
    Separate byTurns outside twoSources [cSource, cxxSource] ∧
      Scan.total (sideBySide byTurns outside twoSources 2 [cSource, cxxSource]).1 =
        .ok ⟨1, 0, 1, 0, 1⟩ :=
  ⟨sources_separate,
    ((fan_out_independent outside_ordinary (grown_of_nodes (by decide)) sources_tidy
      sources_separate (by decide : 0 < 2)).2.2 ⟨1, 0, 1, 0, 1⟩).1.mpr
      (ok_of_toOption (by decide +kernel))⟩

/-! ## One program twice -/

/-- The results of a pool on a bench that comes to its end in so many turns. -/
def drive (b : Bench) (pool : Pool α) :
    Nat → List Artifact → List (Program α) → List α → State → Option (List α)
  | 0, _, _, _, _ => none
  | turns + 1, ready, running, results, s =>
    if running.length < pool.workers ∧ !ready.isEmpty then
      drive b pool turns ready.tail (running ++ ready.head?.toList.map pool.job) results s
    else
      let taken := b.turn s.turns % running.length
      let s := { s with turns := s.turns + 1 }
      match running[taken]? with
      | none => some results
      | some (.done result) =>
        drive b pool turns (if pool.stops result then [] else ready) (running.eraseIdx taken)
          (results ++ [result]) s
      | some (.ask request next) =>
        let (answer, s) := b.host request s
        drive b pool turns ready (running.set taken (next answer)) results s

theorem run_of_drive {pool : Pool α} {turns : Nat} {ready : List Artifact}
    {running : List (Program α)} {results parts : List α} {s : State}
    (driven : drive b pool turns ready running results s = some parts) :
    ((pool.run ⟨ready, []⟩ running results).run b.host s).1 = parts := by
  induction turns generalizing ready running results s with
  | zero => cases driven
  | succ turns ih =>
    unfold drive at driven
    rw [Pool.run.eq_def]
    by_cases room : running.length < pool.workers ∧ !ready.isEmpty
    · rw [if_pos room] at driven
      rw [if_pos (by simpa [Supply.isEmpty] using room)]
      cases ready with
      | nil => simp at room
      | cons a ready => exact ih driven
    · rw [if_neg room] at driven
      rw [if_neg (by simpa [Supply.isEmpty] using room)]
      by_cases none : running.length = 0
      · rw [dif_pos none]
        obtain rfl := List.eq_nil_of_length_eq_zero none
        exact Option.some.inj driven
      · have inRange := Nat.mod_lt (b.turn s.turns) (Nat.pos_of_ne_zero none)
        rw [dif_neg none]
        simp only [Program.run, host]
        split
        · rename_i result taken
          have found := List.getElem?_eq_some_iff.mpr ⟨inRange, taken⟩
          simp only [found] at driven
          split
          · rename_i stops
            simp only [stops, if_true] at driven
            exact ih driven
          · rename_i goesOn
            simp only [goesOn] at driven
            exact ih driven
        · rename_i request next taken
          have found := List.getElem?_eq_some_iff.mpr ⟨inRange, taken⟩
          simp only [found] at driven
          exact ih driven

/-- A compressed table without rows. -/
def emptyTable : Bytes :=
  [0x1f, 0x8b, 0x08, 0, 0, 0, 0, 0, 0, 0xff, 0x03, 0, 0, 0, 0, 0, 0, 0, 0, 0]

/-- Tools that find nothing wrong with a program, but fail where there is no IR to read. -/
def calmTools : Toolbox where
  starts _ _ := true
  streams _ := ([], [])
  compile _ _ _ := ⟨.ended (.exited 0), some bitcodeMagic⟩
  convert _ _ := ⟨.ended (.exited 1), none⟩
  facts _ _ ir := ⟨.ended (.exited (if ir.isSome then 0 else 1)), []⟩
  analyse _ _ _ := ⟨.ended (.exited 0), [(utf8 "assert_unique_repr.csv.gz", emptyTable)]⟩
  minimizeIr _ _ := (.exited 1, none)
  minimizeSource _ _ := (.exited 1, none)

/-- One program in two directories. -/
def twins : State where
  tree := ⟨[([utf8 "w"], .directory), ([utf8 "tmp"], .directory),
    ([utf8 "w", utf8 "cache"], .directory), ([utf8 "w", utf8 "cache", utf8 "ir"], .directory),
    ([utf8 "w", utf8 "cache", utf8 "results"], .directory),
    ([utf8 "w", utf8 "c"], .directory), ([utf8 "w", utf8 "d"], .directory),
    ([utf8 "w", utf8 "c", utf8 "main.c"], .file (utf8 "int x;") false),
    ([utf8 "w", utf8 "d", utf8 "main.c"], .file (utf8 "int x;") false)]⟩
  started := []
  turns := 0

def firstTwin : Artifact := ⟨"/w/c/main.c", .cSource, by decide +kernel⟩
def secondTwin : Artifact := ⟨"/w/d/main.c", .cSource, by decide +kernel⟩

/-- The second worker checks its program while the first waits to have its IR judged. -/
def overtaking : Bench := takingTurns calmTools fun n => if n < 14 then 0 else 1

/-- Checks that share a key may come to nothing side by side where they come to a sum one by one: one
drops the compiled IR that the other has found and not read yet. -/
theorem twins_depend_on_order :
    (Scan.total (oneByOne overtaking outside twins [firstTwin, secondTwin]).1).toOption =
        some ⟨0, 2, 0, 1, 0⟩ ∧
      (Scan.total (sideBySide overtaking outside twins 2 [firstTwin, secondTwin]).1).toOption =
        none := by
  refine ⟨by decide +kernel, ?_⟩
  have driven : ((drive overtaking { Scan.pool outside (cacheOf outside) with workers := 2 } 100
      [firstTwin, secondTwin] [] [] twins).map fun parts => (Scan.total parts).toOption) =
      some none := by decide +kernel
  obtain ⟨parts, driven, stopped⟩ := Option.map_eq_some_iff.mp driven
  have ran : (sideBySide overtaking outside twins 2 [firstTwin, secondTwin]).1 = parts :=
    run_of_drive driven
  rw [ran, stopped]

end BugHunt.Proofs.Independence
