import Mathlib.Logic.Function.Basic
import BugHunt.Proofs.Custody
import BugHunt.Proofs.SideBySide
import BugHunt.Proofs.Yard
/-!
Drafts of compiled IR: the staging files of builds into one directory, side by side in a yard. What
a build holds is its own, whatever the other builds and their compilers do.
-/

namespace BugHunt.Proofs.Drafts
open Trees Texts Names Places Runs Bench Building SideBySide Custody Yard

/-- A source to build, with the flags and the bytes that its plan is made of. -/
structure Job where
  config : Config
  artifact : Artifact
  isSource : artifact.isSource
  flags : List String
  content : Bytes

namespace Job

variable (b : Bench) (outDir : Path) (job : Job)

def plan : Plan := Plan.ofContent job.config.extraArgs outDir job.artifact job.flags job.content

def program : Program (Except CompileError Variant) :=
  (Compile.build job.config outDir job.artifact (job.plan outDir)).run

def command (file : Path) : Command :=
  Compile.command job.config job.artifact (job.plan outDir).flags file

def irPlace : Place := b.place (job.plan outDir).irPath

end Job

variable {b : Bench} {outDir : Path} {jobs : List Job} {job : Job} {y z : Yard.State} {q : Place}
  {file : Path}

/-! ## Final names and staging names -/

theorem irPlace_eq : job.irPlace b outDir =
    b.place outDir ++ [utf8 ((job.plan outDir).key ++ "." ++ "bc")] :=
  place_irPath job.isSource

/-- Whether a place has the name of a staging file of a job. -/
def Drafted (b : Bench) (outDir : Path) (job : Job) (q : Place) : Prop :=
  ∃ drawn, isDrawn drawn ∧
    q = b.place outDir ++ [utf8 (s!".{(job.plan outDir).key}." ++ drawn ++ ".bc")]

/-- What follows the last dot follows from the whole. -/
theorem after_last_dot {xs ys last tail : List Char} (clean : '.' ∉ last) (cleanToo : '.' ∉ tail)
    (same : xs ++ '.' :: last = ys ++ '.' :: tail) : last = tail := by
  rcases List.append_eq_append_iff.mp same with ⟨zs, rfl, rest⟩ | ⟨zs, rfl, rest⟩
  · cases zs with
    | nil => exact (List.cons.inj rest).2
    | cons z zs =>
      have longer : last = zs ++ '.' :: tail := (List.cons.inj rest).2
      exact absurd (by simp [longer]) clean
  · cases zs with
    | nil => exact (List.cons.inj rest).2.symm
    | cons z zs =>
      have longer : tail = zs ++ '.' :: last := (List.cons.inj rest).2
      exact absurd (by simp [longer]) cleanToo

/-- A staging name is the final name of no key: where it has six letters, a key has the sixteen of
its digest. -/
theorem Drafted.ne_ir (drafted : Drafted b outDir job q) (other : Job) :
    q ≠ other.irPlace b outDir := by
  obtain ⟨drawn, isDrawn, rfl⟩ := drafted
  simp only [Yard.isDrawn, Bool.and_eq_true, decide_eq_true_eq, List.all_eq_true] at isDrawn
  obtain ⟨six, signs⟩ := isDrawn
  rw [irPlace_eq]
  intro same
  have names := utf8_injective (List.singleton_inj.mp (List.append_cancel_left same))
  rw [Job.plan, Job.plan, VariantKeys.key_eq _ _ other.artifact] at names
  generalize (Plan.ofContent job.config.extraArgs outDir job.artifact job.flags job.content).key =
    key at names
  generalize VariantKeys.label other.artifact other.flags = label at names
  generalize VariantKeys.material other.config.extraArgs other.artifact other.flags other.content =
    material at names
  have chars : (('.' :: key.toList) ++ '.' :: drawn.toList) ++ ".bc".toList =
      (label.toList ++ '.' :: (Plan.shortDigest material).toList) ++ ".bc".toList := by
    simpa using congrArg String.toList names
  have noDot {text : String} (signs : ∀ c ∈ text.toList, c.isAlphanum) : '.' ∉ text.toList :=
    fun found => absurd (signs '.' found) (by decide)
  have same := after_last_dot (noDot signs) (noDot fun c found => mem_shortDigest found)
    (List.append_cancel_right chars)
  have long := shortDigest_length material
  rw [← same, String.length_toList, six] at long
  cases long

/-! ## What is held in the yard -/

/-- Whether a place lies in the directory of the builds. -/
def Inside (b : Bench) (outDir : Path) (q : Place) : Prop :=
  ∃ name rest, q = b.place outDir ++ name :: rest

theorem irPlace_inside (job : Job) : Inside b outDir (job.irPlace b outDir) := ⟨_, [], irPlace_eq⟩

theorem Drafted.inside (drafted : Drafted b outDir job q) : Inside b outDir q := by
  obtain ⟨drawn, -, rfl⟩ := drafted
  exact ⟨_, [], rfl⟩

/-- Whether a place is the final one of a job and holds all that a compiler of that job has left
that exited with 0, and this is bitcode. -/
def Whole (b : Bench) (outDir : Path) (jobs : List Job) (y : Yard.State) (q : Place) : Prop :=
  ∃ bytes executable, y.tree.node? q = some (.file bytes executable) ∧ isBitcode bytes ∧
    ∃ job ∈ jobs, job.irPlace b outDir = q ∧ ∃ file, (job.command outDir file, some bytes) ∈ y.finished

theorem Whole.kept (whole : Whole b outDir jobs y q) (same : z.tree.node? q = y.tree.node? q)
    (finished : y.finished ⊆ z.finished) : Whole b outDir jobs z q := by
  obtain ⟨bytes, executable, found, magic, job, among, place, file, run⟩ := whole
  exact ⟨bytes, executable, same ▸ found, magic, job, among, place, file, finished run⟩

theorem Whole.not_drafted (whole : Whole b outDir jobs y q) : ¬ Drafted b outDir job q := by
  obtain ⟨-, -, -, -, other, -, rfl, -⟩ := whole
  exact fun drafted => drafted.ne_ir other rfl

/-- A staging file of a job. Its compiler may have deleted it. -/
structure Draft (b : Bench) (outDir : Path) (job : Job) (y : Yard.State) (file : Path) : Prop where
  named : endsIdle file = false
  drafted : Drafted b outDir job (b.place file)
  given : b.place file ∈ y.given
  plain : View.directory y.tree.node? (b.place file) = false

/-- What is behind a hold in the yard. -/
def Held (b : Bench) (outDir : Path) (jobs : List Job) (job : Job) (y : Yard.State) : Hold → Prop
  | .nothing => True
  | .there => Whole b outDir jobs y (job.irPlace b outDir)
  | .staging file => Draft b outDir job y file
  | .working file child =>
    Draft b outDir job y file ∧ (child.id, job.command outDir file) ∈ y.running
  | .whole file => Draft b outDir job y file ∧ ∀ bytes executable,
    y.tree.node? (b.place file) = some (.file bytes executable) →
      (job.command outDir file, some bytes) ∈ y.finished
  | .approved file => Draft b outDir job y file ∧ ∃ bytes executable,
    y.tree.node? (b.place file) = some (.file bytes executable) ∧ isBitcode bytes ∧
      (job.command outDir file, some bytes) ∈ y.finished

theorem Held.draft {h : Hold} (held : Held b outDir jobs job y h) (isFile : h.file? = some file) :
    Draft b outDir job y file := by
  cases h with
  | nothing => cases isFile
  | there => cases isFile
  | staging f =>
    obtain rfl := Option.some.inj isFile
    exact held
  | working f child =>
    obtain rfl := Option.some.inj isFile
    exact held.1
  | whole f =>
    obtain rfl := Option.some.inj isFile
    exact held.1
  | approved f =>
    obtain rfl := Option.some.inj isFile
    exact held.1

/-- A hold is left alone by what does not touch its file, its compiler or the IR of its job. -/
theorem Held.kept {h : Hold} (held : Held b outDir jobs job y h)
    (own : ∀ file, h.file? = some file →
      View.directory z.tree.node? (b.place file) = false ∧
        ((∀ child, h ≠ .working file child) →
          z.tree.node? (b.place file) = y.tree.node? (b.place file)))
    (ir : Whole b outDir jobs y (job.irPlace b outDir) → Whole b outDir jobs z (job.irPlace b outDir))
    (finished : y.finished ⊆ z.finished) (given : y.given ⊆ z.given)
    (running : ∀ file child, h = .working file child →
      (child.id, job.command outDir file) ∈ y.running → (child.id, job.command outDir file) ∈ z.running) :
    Held b outDir jobs job z h := by
  have draft {file : Path} (isFile : h.file? = some file) : Draft b outDir job z file :=
    ⟨(held.draft isFile).named, (held.draft isFile).drafted, given (held.draft isFile).given,
      (own file isFile).1⟩
  cases h with
  | nothing => trivial
  | there => exact ir held
  | staging f => exact draft rfl
  | working f child => exact ⟨draft rfl, running f child rfl held.2⟩
  | whole f =>
    refine ⟨draft rfl, fun bytes executable found => finished (held.2 bytes executable ?_)⟩
    rw [← (own f rfl).2 (by simp)]
    exact found
  | approved f =>
    obtain ⟨bytes, executable, found, magic, run⟩ := held.2
    refine ⟨draft rfl, bytes, executable, ?_, magic, finished run⟩
    rw [(own f rfl).2 (by simp)]
    exact found

/-- What holds in the yard at any time: every build has what it holds, no two hold one file or one
compiler, and in the directory is nothing but whole IR and what builds hold. -/
structure Sound (b : Bench) (outDir : Path) (jobs : List Job) (holds : Nat → Hold)
    (y : Yard.State) : Prop where
  held : ∀ {i job}, jobs[i]? = some job → Held b outDir jobs job y (holds i)
  idle : ∀ {i}, jobs[i]? = none → holds i = .nothing
  apart : ∀ {i j f g}, i ≠ j → (holds i).file? = some f → (holds j).file? = some g →
    b.place f ≠ b.place g
  alone : ∀ {i j f g child}, holds i = .working f child → holds j = .working g child → i = j
  entries : ∀ {q}, Inside b outDir q → y.tree.node? q ≠ none →
    Whole b outDir jobs y q ∨ ∃ i f, (holds i).file? = some f ∧ q = b.place f
  runners : ∀ {id command}, (id, command) ∈ y.running →
    ∃ i job f, jobs[i]? = some job ∧ holds i = .working f ⟨id⟩ ∧ command = job.command outDir f
  young : ∀ {id command}, (id, command) ∈ y.running → id < y.started
  given : ∀ {q}, q ∈ y.given → ∃ job ∈ jobs, Drafted b outDir job q

variable {holds : Nat → Hold} {i : Nat}

theorem Sound.owner (sound : Sound b outDir jobs holds y) (isFile : (holds i).file? = some file) :
    ∃ job, jobs[i]? = some job ∧ Draft b outDir job y file := by
  cases found : jobs[i]? with
  | none =>
    rw [sound.idle found] at isFile
    cases isFile
  | some job => exact ⟨job, rfl, (sound.held found).draft isFile⟩

/-- The command that a build's compiler was started by. -/
theorem Sound.command (sound : Sound b outDir jobs holds y) (isJob : jobs[i]? = some job)
    {child : Child} (working : holds i = .working file child) {command : Command}
    (running : (child.id, command) ∈ y.running) : command = job.command outDir file := by
  obtain ⟨j, other, g, isOther, workingToo, rfl⟩ := sound.runners running
  obtain rfl := sound.alone working workingToo
  obtain rfl := Option.some.inj (isJob.symm.trans isOther)
  obtain rfl : file = g := by simpa [working] using workingToo
  rfl

/-! ## Compilers at work -/

theorem output_command (job : Job) (file : Path) :
    output? b (job.command outDir file) = some (b.place file) := by
  unfold output?
  rw [Job.command, Outcomes.compile_call]
  rfl

/-- What a compiler leaves in its output, or that it deletes it, touches nothing else. -/
theorem Sound.scribbled (sound : Sound b outDir jobs holds y) {child : Child}
    (working : holds i = .working file child) {t : FileTree}
    (elsewhere : ∀ q, q ≠ b.place file → t.node? q = y.tree.node? q)
    (plain : View.directory t.node? (b.place file) = false) :
    Sound b outDir jobs holds { y with tree := t } := by
  have isFile : (holds i).file? = some file := by rw [working]; rfl
  obtain ⟨own, -, draft⟩ := sound.owner isFile
  have final (job : Job) : t.node? (job.irPlace b outDir) = y.tree.node? (job.irPlace b outDir) :=
    elsewhere _ (draft.drafted.ne_ir job).symm
  refine { sound with held := fun {j job} isJob => ?_, entries := fun {q} inside there => ?_ }
  · refine (sound.held isJob).kept (fun g isOther => ?_) (fun whole => whole.kept (final job) (by simp))
      (by simp) (by simp) fun _ _ _ => id
    by_cases same : j = i
    · subst same
      obtain rfl := Option.some.inj (isFile.symm.trans isOther)
      exact ⟨plain, fun notWorking => absurd working (notWorking child)⟩
    · have other := elsewhere _ (sound.apart same isOther isFile)
      refine ⟨?_, fun _ => other⟩
      rw [View.directory, other]
      exact ((sound.held isJob).draft isOther).plain
  · by_cases same : q = b.place file
    · exact .inr ⟨i, file, isFile, same⟩
    · have kept : t.node? q = y.tree.node? q := elsewhere q same
      rcases sound.entries inside (kept ▸ there) with whole | held
      · exact .inl (whole.kept kept (by simp))
      · exact .inr held

theorem mem_of_lookup {entries : List (Nat × Command)} {id : Nat} {command : Command}
    (found : entries.lookup id = some command) : (id, command) ∈ entries := by
  obtain ⟨before, after, rfl, -⟩ := List.lookup_eq_some_iff.mp found
  simp

/-- Work of a compiler is done on the file that some build holds for it, or on none. -/
theorem Sound.leave_cases (sound : Sound b outDir jobs holds y) (work : Nat × Option Bytes) :
    leave b y.running y.tree work = y.tree ∨ ∃ i file child, holds i = .working file child ∧
      (∀ q, q ≠ b.place file →
        (leave b y.running y.tree work).node? q = y.tree.node? q) ∧
      View.directory (leave b y.running y.tree work).node? (b.place file) = false := by
  obtain ⟨id, written⟩ := work
  cases found : y.running.lookup id with
  | none => exact .inl (by simp [leave, found])
  | some command =>
    obtain ⟨i, job, file, isJob, working, rfl⟩ := sound.runners (mem_of_lookup found)
    have draft := (sound.held isJob).draft (show (holds i).file? = some file by rw [working]; rfl)
    have output := @output_command b outDir job file
    cases written with
    | some bytes =>
      have tree : leave b y.running y.tree (id, some bytes) =
          Bench.put y.tree (b.place file) (some bytes) := by
        simp [leave, found, output]
      rw [tree]
      refine .inr ⟨i, file, _, working, fun q other => Outcomes.put_other _ other, ?_⟩
      cases free : View.writable y.tree.node? (b.place file) with
      | true =>
        rw [View.directory, Outcomes.put_written free]
        rfl
      | false => simpa [Bench.put, write_error bytes free, Except.toOption] using draft.plain
    | none =>
      have tree : leave b y.running y.tree (id, none) =
          (remove y.tree (b.place file)).toOption.getD y.tree := by
        simp [leave, found, output]
      rw [tree]
      rcases remove_spec draft.plain with ⟨u, removed, change, gone⟩ | ⟨cause, refused, -, -⟩
      · rw [removed]
        refine .inr ⟨i, file, _, working, change.elsewhere, ?_⟩
        exact View.directory_of_none gone
      · rw [refused]
        exact .inl rfl

theorem Sound.left (sound : Sound b outDir jobs holds y) (work : Nat × Option Bytes) :
    Sound b outDir jobs holds { y with tree := leave b y.running y.tree work } ∧
      ∀ job : Job, (leave b y.running y.tree work).node? (job.irPlace b outDir) =
        y.tree.node? (job.irPlace b outDir) := by
  rcases sound.leave_cases work with same | ⟨i, file, child, working, elsewhere, plain⟩
  · rw [same]
    exact ⟨sound, fun _ => rfl⟩
  · obtain ⟨_, -, draft⟩ := sound.owner (show (holds i).file? = some file by rw [working]; rfl)
    exact ⟨sound.scribbled working elsewhere plain,
      fun job => elsewhere _ (draft.drafted.ne_ir job).symm⟩

/-- Time goes by. -/
theorem Sound.later (sound : Sound b outDir jobs holds y) (time : Nat) :
    Sound b outDir jobs holds { y with time } := by
  refine { sound with held := fun {i job} isJob => ?_, entries := fun {q} inside there => ?_ }
  · exact (sound.held isJob).kept
      (fun _ isFile => ⟨((sound.held isJob).draft isFile).plain, fun _ => rfl⟩)
      (fun whole => whole.kept rfl (by simp)) (by simp) (by simp) fun _ _ _ => id
  · exact (sound.entries inside there).imp_left fun whole => whole.kept rfl (by simp)

/-- The compilers may go on with their work at any time. They touch no compiled IR. -/
theorem Sound.worked (sound : Sound b outDir jobs holds y) :
    Sound b outDir jobs holds (y.worked b) ∧
      ∀ job : Job, (y.worked b).tree.node? (job.irPlace b outDir) =
        y.tree.node? (job.irPlace b outDir) := by
  have all (works : List (Nat × Option Bytes)) (t : FileTree)
      (sound : Sound b outDir jobs holds { y with tree := t }) :
      Sound b outDir jobs holds { y with tree := works.foldl (leave b y.running) t } ∧
        ∀ job : Job, (works.foldl (leave b y.running) t).node? (job.irPlace b outDir) =
          t.node? (job.irPlace b outDir) := by
    induction works generalizing t with
    | nil => exact ⟨sound, fun _ => rfl⟩
    | cons work rest ih =>
      obtain ⟨first, same⟩ := sound.left work
      obtain ⟨others, sameToo⟩ := ih _ first
      exact ⟨others, fun job => (sameToo job).trans (same job)⟩
  obtain ⟨after, same⟩ := all (y.fates y.time).works y.tree sound
  exact ⟨after.later (y.time + 1), same⟩

/-! ## The answers to a build -/

/-- What an answer changes for a build: its own file, its own compiler, and the IR of its job when
this has come to be there. -/
structure Moved (b : Bench) (outDir : Path) (jobs : List Job) (job : Job) (h h' : Hold)
    (y z : Yard.State) : Prop where
  held : Held b outDir jobs job z h'
  tree : ∀ {q}, Inside b outDir q → (∀ f, h.file? = some f ∨ h'.file? = some f → q ≠ b.place f) →
    z.tree.node? q = y.tree.node? q ∨
      h' = .there ∧ q = job.irPlace b outDir ∧ Whole b outDir jobs z q
  left : ∀ {f}, h.file? = some f → h'.file? = some f ∨ z.tree.node? (b.place f) = none
  fresh : ∀ {f}, h'.file? = some f → h.file? = some f ∨ b.place f ∉ y.given
  finished : y.finished ⊆ z.finished
  given : y.given ⊆ z.given
  drawn : ∀ {q}, q ∈ z.given → q ∈ y.given ∨ Drafted b outDir job q
  hired : ∀ {id command}, (id, command) ∈ z.running →
    ((id, command) ∈ y.running ∧ ∀ f, h ≠ .working f ⟨id⟩) ∨
      ∃ f, h' = .working f ⟨id⟩ ∧ command = job.command outDir f
  kept : ∀ {id command}, (id, command) ∈ y.running →
    (id, command) ∈ z.running ∨ ∃ f, h = .working f ⟨id⟩
  child : ∀ {f child}, h' = .working f child → h = .working f child ∨ y.started ≤ child.id
  young : ∀ {id command}, (id, command) ∈ z.running → id < z.started

variable {h h' : Hold}

/-- Where no build is hurt by another, all is well after an answer to one of them. -/
theorem Sound.moved (sound : Sound b outDir jobs holds y) (isJob : jobs[i]? = some job)
    (moved : Moved b outDir jobs job (holds i) h' y z) :
    Sound b outDir jobs (Function.update holds i h') z := by
  have others {j : Nat} (other : j ≠ i) : Function.update holds i h' j = holds j :=
    Function.update_of_ne other ..
  -- the file of another build is not that of this one, neither before nor after
  have apart {j : Nat} {f g : Path} (other : j ≠ i) (isFile : (holds j).file? = some g)
      (mine : (holds i).file? = some f ∨ h'.file? = some f) : b.place g ≠ b.place f := by
    rcases mine with before | after
    · exact sound.apart other isFile before
    · rcases moved.fresh after with before | new
      · exact sound.apart other isFile before
      · obtain ⟨_, -, draft⟩ := sound.owner isFile
        exact fun same => new (same ▸ draft.given)
  have final (job' : Job) {f : Path} (mine : (holds i).file? = some f ∨ h'.file? = some f) :
      job'.irPlace b outDir ≠ b.place f := by
    rcases mine with before | after
    · exact (((sound.held isJob).draft before).drafted.ne_ir job').symm
    · exact ((moved.held.draft after).drafted.ne_ir job').symm
  constructor
  case held =>
    intro j other isOther
    by_cases same : j = i
    · subst same
      obtain rfl := Option.some.inj (isJob.symm.trans isOther)
      rw [Function.update_self]
      exact moved.held
    · rw [others same]
      refine (sound.held isOther).kept (fun g isFile => ?_) (fun whole => ?_) moved.finished
        moved.given fun g child working running => ?_
      · have draft := (sound.held isOther).draft isFile
        rcases moved.tree draft.drafted.inside fun f => apart same isFile with kept | ⟨-, -, whole⟩
        · exact ⟨by rw [View.directory, kept]; exact draft.plain, fun _ => kept⟩
        · exact absurd draft.drafted whole.not_drafted
      · rcases moved.tree (irPlace_inside other) fun f => final other with kept | ⟨-, -, now⟩
        · exact whole.kept kept moved.finished
        · exact now
      · rcases moved.kept running with still | ⟨f, mine⟩
        · exact still
        · exact absurd (sound.alone working mine) same
  case idle =>
    intro j missing
    rw [others]
    · exact sound.idle missing
    · rintro rfl
      cases isJob.symm.trans missing
  case apart =>
    intro j k f g differ isFile isOther
    by_cases mine : j = i
    · subst mine
      rw [Function.update_self] at isFile
      rw [others differ.symm] at isOther
      exact (apart differ.symm isOther (.inr isFile)).symm
    · rw [others mine] at isFile
      by_cases mineToo : k = i
      · subst mineToo
        rw [Function.update_self] at isOther
        exact apart mine isFile (.inr isOther)
      · rw [others mineToo] at isOther
        exact sound.apart differ isFile isOther
  case alone =>
    -- a compiler that has just been started has a number of its own
    have new {j : Nat} {f g : Path} {child : Child} (other : j ≠ i)
        (working : holds j = .working g child) (mine : h' = .working f child) : False := by
      rcases moved.child mine with before | late
      · exact other (sound.alone working before)
      · obtain ⟨job', isJob', -⟩ := sound.owner (show (holds j).file? = some g by rw [working]; rfl)
        have held := sound.held isJob'
        rw [working] at held
        exact absurd (sound.young held.2) (Nat.not_lt.mpr late)
    intro j k f g child working workingToo
    by_cases mine : j = i
    · by_cases mineToo : k = i
      · exact mine.trans mineToo.symm
      · subst mine
        rw [Function.update_self] at working
        rw [others mineToo] at workingToo
        exact (new mineToo workingToo working).elim
    · rw [others mine] at working
      by_cases mineToo : k = i
      · subst mineToo
        rw [Function.update_self] at workingToo
        exact (new mine working workingToo).elim
      · rw [others mineToo] at workingToo
        exact sound.alone working workingToo
  case entries =>
    intro q inside there
    by_cases mine : ∃ f, h'.file? = some f ∧ q = b.place f
    · obtain ⟨f, isFile, rfl⟩ := mine
      exact .inr ⟨i, f, by rw [Function.update_self]; exact isFile, rfl⟩
    · have notMine : ∀ f, (holds i).file? = some f ∨ h'.file? = some f → q ≠ b.place f := by
        rintro f (before | after) rfl
        · rcases moved.left before with after | gone
          · exact mine ⟨f, after, rfl⟩
          · exact there gone
        · exact mine ⟨f, after, rfl⟩
      rcases moved.tree inside notMine with kept | ⟨-, -, whole⟩
      · rcases sound.entries inside (kept ▸ there) with whole | ⟨j, f, isFile, rfl⟩
        · exact .inl (whole.kept kept moved.finished)
        · refine .inr ⟨j, f, ?_, rfl⟩
          rw [others]
          · exact isFile
          · rintro rfl
            exact notMine f (.inl isFile) rfl
      · exact .inl whole
  case runners =>
    intro id command running
    rcases moved.hired running with ⟨before, notMine⟩ | ⟨f, working, rfl⟩
    · obtain ⟨j, other, f, isOther, working, rfl⟩ := sound.runners before
      refine ⟨j, other, f, isOther, ?_, rfl⟩
      rw [others]
      · exact working
      · rintro rfl
        exact notMine f working
    · exact ⟨i, job, f, isJob, by rw [Function.update_self]; exact working, rfl⟩
  case young => exact moved.young
  case given =>
    intro q isGiven
    rcases moved.drawn isGiven with before | drafted
    · exact sound.given before
    · exact ⟨job, List.mem_of_getElem? isJob, drafted⟩

end BugHunt.Proofs.Drafts
