import BugHunt.Proofs.Exclusion
/-!
Which relation decides. A relation that is not there comes before anything that the others hold;
if all are there, the first one whose first read is not a clean end decides. Nothing but what these
looks show has a part in it.
-/

namespace BugHunt.Proofs.Precedence
open Runs Exclusion

/-- What there is to see of a relation: whether it is a regular file, and what reading its first
byte gives. -/
structure Sight where
  present : Bool
  first : Except Failure (Option UInt8)

def Sight.Missing (seen : Sight) : Prop := seen.present = false

/-- Whether the first read ends in anything but a clean end of nothing. -/
def Sight.Unclean (seen : Sight) : Prop := seen.first ≠ .ok none

instance (seen : Sight) : Decidable seen.Missing := inferInstanceAs (Decidable (_ = _))

theorem Sight.not_missing {seen : Sight} : ¬ seen.Missing ↔ seen.present :=
  iff_of_eq (Bool.not_eq_false _)

section Looks

variable (host : Host σ) (s : σ) (directory : Path)

/-- What a host shows of a relation in a directory. -/
def sight (relation : String) : Sight where
  present := ((Program.isFile (directory / relation)).run host s).1
  first := ((Program.read (directory / relation)).run host s).1.bind Gzip.firstRead

/-- Looking at a relation, and reading it, changes nothing. -/
structure Still (relation : String) : Prop where
  isFile : ((Program.isFile (directory / relation)).run host s).2 = s
  read : ((Program.read (directory / relation)).run host s).2 = s

end Looks

theorem still_bench (b : Bench) (s : Bench.State) (directory : Path) (relation : String) :
    Still b.host s directory relation := ⟨rfl, rfl⟩

/-- What the relations come to. -/
inductive Finding where
  | missing (relation : String)
  | unreadable (relation : String) (cause : Failure)
  | violated (relation : String)
  | allEmpty

/-- The finding as the answer of a scan of a directory. -/
def Finding.answer (directory : Path) : Finding → Except OracleError Scan
  | missing relation => .error (.missingAssertion relation directory)
  | unreadable relation cause => .error (.decompress (directory / relation) cause)
  | violated relation => .ok (.violated relation)
  | allEmpty => .ok .allEmpty

/-- A relation of a list that is the first with a property; the list may hold it again later. -/
def First (P : Sight → Prop) (seen : String → Sight) (relations : List String)
    (relation : String) : Prop :=
  ∃ before after, relations = before ++ relation :: after ∧ P (seen relation) ∧
    ∀ r ∈ before, ¬ P (seen r)

/-- Which finding the sights of the relations call for. -/
inductive Decides (seen : String → Sight) (relations : List String) : Finding → Prop
  | missing {relation : String} (first : First Sight.Missing seen relations relation) :
    Decides seen relations (.missing relation)
  | unreadable {relation : String} {cause : Failure}
    (present : ∀ r ∈ relations, (seen r).present)
    (first : First Sight.Unclean seen relations relation)
    (fails : (seen relation).first = .error cause) :
    Decides seen relations (.unreadable relation cause)
  | violated {relation : String} {byte : UInt8} (present : ∀ r ∈ relations, (seen r).present)
    (first : First Sight.Unclean seen relations relation)
    (yields : (seen relation).first = .ok (some byte)) :
    Decides seen relations (.violated relation)
  | allEmpty (present : ∀ r ∈ relations, (seen r).present)
    (clean : ∀ r ∈ relations, (seen r).first = .ok none) : Decides seen relations .allEmpty

/-! ## First places -/

section Firsts

variable {P : Sight → Prop} {seen seen' : String → Sight} {relations : List String}
  {relation other : String}

theorem first_iff_find? [DecidablePred P] :
    First P seen relations relation ↔ relations.find? (fun r => P (seen r)) = some relation := by
  rw [List.find?_eq_some_iff_append]
  constructor
  · rintro ⟨before, after, rfl, holds, none⟩
    exact ⟨by simpa using holds, before, after, rfl, by simpa using none⟩
  · rintro ⟨holds, before, after, rfl, none⟩
    exact ⟨before, after, rfl, by simpa using holds, by simpa using none⟩

theorem First.unique (first : First P seen relations relation)
    (also : First P seen relations other) : relation = other := by
  classical
  exact Option.some.inj ((first_iff_find?.mp first).symm.trans (first_iff_find?.mp also))

theorem First.holds (first : First P seen relations relation) :
    relation ∈ relations ∧ P (seen relation) := by
  obtain ⟨before, after, rfl, holds, -⟩ := first
  exact ⟨by simp, holds⟩

theorem First.head (holds : P (seen relation)) : First P seen (relation :: relations) relation :=
  ⟨[], relations, rfl, holds, nofun⟩

theorem First.cons (passed : ¬ P (seen other)) (first : First P seen relations relation) :
    First P seen (other :: relations) relation := by
  obtain ⟨before, after, rfl, holds, none⟩ := first
  exact ⟨other :: before, after, rfl, holds, List.forall_mem_cons.mpr ⟨passed, none⟩⟩

theorem First.congr (same : ∀ r ∈ relations, seen' r = seen r)
    (first : First P seen relations relation) : First P seen' relations relation := by
  obtain ⟨before, after, rfl, holds, none⟩ := first
  refine ⟨before, after, rfl, ?_, fun r among => ?_⟩
  · rw [same relation (by simp)]
    exact holds
  · rw [same r (by simp [among])]
    exact none r among

theorem First.not_missing (first : First Sight.Missing seen relations relation)
    (present : ∀ r ∈ relations, (seen r).present) : False :=
  Sight.not_missing.mpr (present relation first.holds.1) first.holds.2

theorem First.not_clean (first : First Sight.Unclean seen relations relation)
    (clean : ∀ r ∈ relations, (seen r).first = .ok none) : False :=
  first.holds.2 (clean relation first.holds.1)

/-- The sights call for one finding only. -/
theorem Decides.unique {finding finding' : Finding} (decides : Decides seen relations finding)
    (also : Decides seen relations finding') : finding = finding' := by
  cases decides with
  | missing first =>
    cases also with
    | missing first' => rw [first.unique first']
    | unreadable present | violated present | allEmpty present =>
      exact (first.not_missing present).elim
  | unreadable present first fails =>
    cases also with
    | missing first' => exact (first'.not_missing present).elim
    | unreadable _ first' fails' =>
      obtain rfl := first.unique first'
      rw [Except.error.inj (fails.symm.trans fails')]
    | violated _ first' yields =>
      obtain rfl := first.unique first'
      cases fails.symm.trans yields
    | allEmpty _ clean => exact (first.not_clean clean).elim
  | violated present first yields =>
    cases also with
    | missing first' => exact (first'.not_missing present).elim
    | unreadable _ first' fails =>
      obtain rfl := first.unique first'
      cases fails.symm.trans yields
    | violated _ first' => rw [first.unique first']
    | allEmpty _ clean => exact (first.not_clean clean).elim
  | allEmpty present clean =>
    cases also with
    | missing first' => exact (first'.not_missing present).elim
    | unreadable _ first' | violated _ first' => exact (first'.not_clean clean).elim
    | allEmpty => rfl

/-- Only what is seen of the relations in the list counts. -/
theorem Decides.congr {finding : Finding} (same : ∀ r ∈ relations, seen' r = seen r)
    (decides : Decides seen relations finding) : Decides seen' relations finding := by
  have every {Q : Sight → Prop} (all : ∀ r ∈ relations, Q (seen r)) :
      ∀ r ∈ relations, Q (seen' r) := by
    intro r among
    rw [same r among]
    exact all r among
  have still {relation : String} (first : First Sight.Unclean seen relations relation) :
      (seen' relation).first = (seen relation).first :=
    congrArg Sight.first (same relation first.holds.1)
  cases decides with
  | missing first => exact .missing (first.congr same)
  | unreadable present first fails =>
    exact .unreadable (every (Q := (·.present)) present) (first.congr same)
      ((still first).trans fails)
  | violated present first yields =>
    exact .violated (every (Q := (·.present)) present) (first.congr same)
      ((still first).trans yields)
  | allEmpty present clean =>
    exact .allEmpty (every (Q := (·.present)) present) (every (Q := (·.first = .ok none)) clean)

/-- A clean relation in front leaves the decision to the others. -/
theorem Decides.cons {finding : Finding} (present : (seen relation).present)
    (clean : (seen relation).first = .ok none) (decides : Decides seen relations finding) :
    Decides seen (relation :: relations) finding := by
  have passed : ¬ (seen relation).Unclean := fun unclean => unclean clean
  cases decides with
  | missing first => exact .missing (first.cons (Sight.not_missing.mpr present))
  | unreadable others first fails =>
    exact .unreadable (List.forall_mem_cons.mpr ⟨present, others⟩) (first.cons passed) fails
  | violated others first yields =>
    exact .violated (List.forall_mem_cons.mpr ⟨present, others⟩) (first.cons passed) yields
  | allEmpty others all =>
    exact .allEmpty (List.forall_mem_cons.mpr ⟨present, others⟩)
      (List.forall_mem_cons.mpr ⟨clean, all⟩)

end Firsts

/-! ## Scans -/

section Scans

variable {host : Host σ} {s : σ} {directory : Path} {relations : List String}

/-- The first pass looks at each relation, up to one that is not there. -/
theorem run_firstMissing (still : ∀ r ∈ relations, Still host s directory r) :
    (Relations.firstMissing directory relations).run host s =
      (relations.find? fun r => (sight host s directory r).Missing, s) := by
  induction relations with
  | nil => rfl
  | cons relation rest ih =>
    rw [List.forall_mem_cons] at still
    have look : (Program.isFile (directory / relation)).run host s =
        ((sight host s directory relation).present, s) := Prod.ext rfl still.1.isFile
    unfold Relations.firstMissing
    rw [run_bind, look, List.find?_cons]
    by_cases missing : (sight host s directory relation).Missing
    · rw [decide_eq_true missing, if_neg (by rw [missing]; exact Bool.false_ne_true)]
      rfl
    · rw [decide_eq_false missing, if_pos (Sight.not_missing.mp missing)]
      exact ih still.2

/-- The second pass reads each relation, up to one whose first read is not clean. -/
theorem exec_firstViolated (still : ∀ r ∈ relations, Still host s directory r)
    (present : ∀ r ∈ relations, (sight host s directory r).present) :
    ∃ finding, Decides (sight host s directory) relations finding ∧
      exec host s (Relations.firstViolated directory relations) = (finding.answer directory, s) := by
  induction relations with
  | nil => exact ⟨.allEmpty, .allEmpty (List.forall_mem_nil _) (List.forall_mem_nil _), rfl⟩
  | cons relation rest ih =>
    have seen : (sight host s directory relation).first =
        ((Program.read (directory / relation)).run host s).1.bind Gzip.firstRead := rfl
    have read : (Program.read (directory / relation)).run host s =
        (((Program.read (directory / relation)).run host s).1, s) :=
      Prod.ext rfl (still relation (by simp)).read
    generalize ((Program.read (directory / relation)).run host s).1 = answer at seen read
    unfold Relations.firstViolated
    dsimp only
    rw [exec_bind, exec_orFail, read]
    have unclean {first : Except Failure (Option UInt8)}
        (yields : (sight host s directory relation).first = first) (other : first ≠ .ok none) :
        First Sight.Unclean (sight host s directory) (relation :: rest) relation :=
      .head fun clean => other (yields.symm.trans clean)
    cases answer with
    | error cause => exact ⟨_, .unreadable present (unclean seen fun same => by cases same) seen, rfl⟩
    | ok content =>
      simp only [mapError_ok]
      replace seen : (sight host s directory relation).first = Gzip.firstRead content := seen
      cases first : Gzip.firstRead content with
      | error cause =>
        rw [first] at seen
        exact ⟨_, .unreadable present (unclean seen (by simp)) seen, rfl⟩
      | ok byte =>
        rw [first] at seen
        cases byte with
        | some byte => exact ⟨_, .violated present (unclean seen (by simp)) seen, rfl⟩
        | none =>
          rw [List.forall_mem_cons] at still present
          obtain ⟨finding, decides, ran⟩ := ih still.2 present.2
          exact ⟨finding, decides.cons present.1 seen, ran⟩

theorem exec_scan (still : ∀ r ∈ relations, Still host s directory r) :
    ∃ finding, Decides (sight host s directory) relations finding ∧
      exec host s (Relations.scan relations directory) = (finding.answer directory, s) := by
  unfold Relations.scan
  rw [exec_bind, exec_monadLift, run_firstMissing still]
  cases missing : relations.find? fun r => (sight host s directory r).Missing with
  | some relation => exact ⟨.missing relation, .missing (first_iff_find?.mpr missing), rfl⟩
  | none =>
    refine exec_firstViolated still fun r among => ?_
    have passed := List.find?_eq_none.mp missing r among
    exact Sight.not_missing.mp (by simpa using passed)

/-- A scan answers with the one finding that the sights of the relations call for, and leaves the
host as it was. A scan of another directory that shows the same comes to the same finding. -/
theorem scan_decided (still : ∀ r ∈ relations, Still host s directory r) :
    ∃ finding, Decides (sight host s directory) relations finding ∧
      (∀ other, Decides (sight host s directory) relations other → other = finding) ∧
      exec host s (Relations.scan relations directory) = (finding.answer directory, s) ∧
      ∀ {τ : Type} (host' : Host τ) (s' : τ) (directory' : Path),
        (∀ r ∈ relations, Still host' s' directory' r) →
        (∀ r ∈ relations, sight host' s' directory' r = sight host s directory r) →
        exec host' s' (Relations.scan relations directory') = (finding.answer directory', s') := by
  obtain ⟨finding, decides, ran⟩ := exec_scan still
  refine ⟨finding, decides, fun other also => also.unique decides, ran, ?_⟩
  intro τ host' s' directory' still' same
  obtain ⟨finding', decides', ran'⟩ := exec_scan still'
  rw [ran', decides'.unique (decides.congr same)]

/-- Two directories with a torn relation in each. -/
def torn : Bench.State where
  tree := ⟨[([utf8 "old"], .directory), ([utf8 "old", utf8 "torn"], .file [] false),
    ([utf8 "new"], .directory), ([utf8 "new", utf8 "torn"], .file [] false),
    ([utf8 "new", utf8 "other"], .file [0x1F] false)]⟩
  started := []
  turns := 0

/-- A relation that is not there comes before one in front of it that cannot be read, in both. -/
theorem gone_before_torn :
    let host := (Bench.desk noTools).host
    let relations := ["torn", "gone", "torn"]
    (∀ r ∈ relations, Still host torn "/old" r) ∧ (∀ r ∈ relations, Still host torn "/new" r) ∧
      exec host torn (Relations.scan relations "/old") =
        (.error (.missingAssertion "gone" "/old"), torn) ∧
      exec host torn (Relations.scan relations "/new") =
        (.error (.missingAssertion "gone" "/new"), torn) := by
  intro host relations
  have still (directory : Path) : ∀ r ∈ relations, Still host torn directory r :=
    fun r _ => still_bench _ torn directory r
  obtain ⟨finding, -, only, ran, again⟩ := scan_decided (still "/old")
  have gone : First Sight.Missing (sight host torn "/old") relations "gone" := by
    refine ⟨["torn"], ["torn"], rfl, by decide, ?_⟩
    rw [List.forall_mem_singleton]
    decide
  obtain rfl := only _ (.missing gone)
  refine ⟨still _, still _, ran, again host torn "/new" (still _) ?_⟩
  simp only [relations, List.forall_mem_cons]
  exact ⟨rfl, rfl, rfl, nofun⟩

end Scans
end BugHunt.Proofs.Precedence
