import BugHunt.Proofs.Drafts
import BugHunt.Proofs.Exclusion
/-!
Compiled IR is all or nothing. Builds into one directory run side by side in a yard, and whatever
fate has for their compilers, IR under its final name is all that a compiler has left that exited
with 0, and it is bitcode.
-/

namespace BugHunt.Proofs.Wholeness
open Trees Texts Names Places Runs Bench Building SideBySide Custody Yard Drafts

variable {b : Bench} {outDir : Path} {jobs : List Job} {job : Job} {y z : Yard.State} {q : Place}
  {file : Path} {h h' : Hold} {fate : Fate}

/-! ## Answers that change nothing -/

/-- The yard stays as it is, and the build has the file and the compiler that it had. -/
theorem moved_still (held : Held b outDir jobs job y h')
    (own : ∀ {f id command}, h = .working f ⟨id⟩ → (id, command) ∈ y.running →
      command = job.command outDir f)
    (young : ∀ {id command}, (id, command) ∈ y.running → id < y.started)
    (sameFile : h'.file? = h.file?) (sameChild : ∀ f child, h' = .working f child ↔ h = .working f child) :
    Moved b outDir jobs job h h' y y where
  held
  tree := fun _ _ => .inl rfl
  left := fun isFile => .inl (sameFile ▸ isFile)
  fresh := fun isFile => .inl (sameFile ▸ isFile)
  finished := List.Subset.refl _
  given := List.Subset.refl _
  drawn := .inl
  hired := by
    intro id command running
    by_cases mine : ∃ f, h = .working f ⟨id⟩
    · obtain ⟨f, working⟩ := mine
      exact .inr ⟨f, (sameChild f ⟨id⟩).mpr working, own working running⟩
    · exact .inl ⟨running, fun f working => mine ⟨f, working⟩⟩
  kept := .inl
  child := fun working => .inl ((sameChild _ _).mp working)
  young := young

/-! ## Looking and making directories -/

theorem answer_exists (p : Path) :
    answer b fate y (.file (.exists p)) = (Trees.exists y.tree (b.place p), y) := by
  show serveFile b fate y (.exists p) = _
  unfold serveFile
  cases fate.refused <;> rfl

/-- IR that a build finds is whole. -/
theorem whole_of_found {holds : Nat → Hold} (sound : Sound b outDir jobs holds y)
    (there : y.tree.node? (job.irPlace b outDir) ≠ none) :
    Whole b outDir jobs y (job.irPlace b outDir) := by
  rcases sound.entries (irPlace_inside job) there with whole | ⟨j, f, isFile, same⟩
  · exact whole
  · obtain ⟨_, -, draft⟩ := sound.owner isFile
    exact absurd same.symm (draft.drafted.ne_ir job)

theorem answer_createDirectories (p : Path) :
    (∃ cause, answer b fate y (.file (.createDirectories p)) = (.error cause, y)) ∨
      ∃ u, createDirectories y.tree (b.place p) = .ok u ∧
        answer b fate y (.file (.createDirectories p)) = (.ok (), { y with tree := u }) := by
  show (∃ cause, serveFile b fate y (.createDirectories p) = _) ∨
    ∃ u, _ ∧ serveFile b fate y (.createDirectories p) = _
  unfold serveFile
  cases fate.refused with
  | some cause => exact .inl ⟨cause, rfl⟩
  | none =>
    cases made : createDirectories y.tree (b.place p) with
    | error cause =>
      refine .inl ⟨cause, ?_⟩
      simp only [Option.bind_none, Bench.answerFile, made]
      rfl
    | ok u =>
      refine .inr ⟨u, rfl, ?_⟩
      simp only [Option.bind_none, Bench.answerFile, made]
      rfl

/-- Directories are made on the way to that of the builds, and nothing inside it. -/
theorem moved_directories {u : FileTree} (made : createDirectories y.tree (b.place outDir) = .ok u)
    (running : ∀ {id command}, (id, command) ∈ y.running → id < y.started) :
    Moved b outDir jobs job .nothing .nothing y { y with tree := u } where
  held := trivial
  tree := by
    rintro q ⟨name, rest, rfl⟩ -
    left
    by_cases same : u.node? (b.place outDir ++ name :: rest) = y.tree.node? (b.place outDir ++ name :: rest)
    · exact same
    · have short := ((createDirectories_spec made).1.new _ same).1.length_le
      simp only [List.length_append, List.length_cons] at short
      omega
  left := fun isFile => by cases isFile
  fresh := fun isFile => by cases isFile
  finished := List.Subset.refl _
  given := List.Subset.refl _
  drawn := .inl
  hired := fun running => .inl ⟨running, fun _ same => by cases same⟩
  kept := .inl
  child := fun same => by cases same
  young := running

/-! ## The staging file -/

theorem makeFile_cases (fate : Fate) (y : Yard.State) (job : Job) :
    (∃ cause, makeFile b fate y outDir s!".{(job.plan outDir).key}." ".bc" = (.error cause, y)) ∨
      ∃ file u, makeFile b fate y outDir s!".{(job.plan outDir).key}." ".bc" =
          (.ok file, { y with tree := u, given := b.place file :: y.given }) ∧
        endsIdle file = false ∧ Drafted b outDir job (b.place file) ∧ b.place file ∉ y.given ∧
        u.node? = View.put y.tree.node? (b.place file) (some (.file [] false)) := by
  unfold makeFile
  simp only
  split
  · rename_i may
    obtain ⟨isDrawn, new, free⟩ := may
    have signs : ∀ c ∈ fate.drawn.toList, c.isAlphanum := by
      simp only [Yard.isDrawn, Bool.and_eq_true, List.all_eq_true] at isDrawn
      exact isDrawn.2
    have proper := staging_frames job.config.extraArgs outDir job.artifact job.flags job.content
      fate.drawn signs
    split
    · rename_i u written
      refine .inr ⟨_, u, rfl, endsIdle_entry _ proper, ⟨fate.drawn, isDrawn, place_entry b outDir proper⟩,
        new, (write_view written).2⟩
    · exact .inl ⟨_, rfl⟩
  · exact .inl ⟨_, rfl⟩

theorem moved_drawn {u : FileTree} (named : endsIdle file = false)
    (drafted : Drafted b outDir job (b.place file)) (new : b.place file ∉ y.given)
    (view : u.node? = View.put y.tree.node? (b.place file) (some (.file [] false)))
    (young : ∀ {id command}, (id, command) ∈ y.running → id < y.started) :
    Moved b outDir jobs job .nothing (.staging file) y
      { y with tree := u, given := b.place file :: y.given } where
  held := by
    refine ⟨named, drafted, List.mem_cons_self, ?_⟩
    show View.directory u.node? (b.place file) = false
    rw [View.directory, view, View.put_self]
    rfl
  tree := by
    intro q _ other
    left
    show u.node? q = _
    rw [view, View.put_other (other file (.inr rfl))]
  left := fun isFile => by cases isFile
  fresh := by
    intro f isFile
    obtain rfl := Option.some.inj isFile
    exact .inr new
  finished := List.Subset.refl _
  given := List.subset_cons_self ..
  drawn := by
    intro q isGiven
    rcases List.mem_cons.mp isGiven with rfl | before
    · exact .inr drafted
    · exact .inl before
  hired := fun running => .inl ⟨running, fun _ same => by cases same⟩
  kept := .inl
  child := fun same => by cases same
  young := young

theorem answer_remove (fate : Fate) (draft : Draft b outDir job y file) :
    ∃ r u, answer b fate y (.file (.remove file)) = (r, { y with tree := u }) ∧
      Change (· = b.place file) y.tree.node? u.node? ∧ u.node? (b.place file) = none := by
  show ∃ r u, serveFile b fate y (.remove file) = _ ∧ _
  have served : serveFile b fate y (.remove file) =
      ((Bench.change ⟨y.tree, [], 0⟩ (remove y.tree (b.place file))).1,
        { y with tree := (Bench.change ⟨y.tree, [], 0⟩ (remove y.tree (b.place file))).2.tree }) := by
    unfold serveFile
    cases fate.refused <;> rfl
  rw [served]
  rcases remove_spec draft.plain with ⟨u, removed, change, gone⟩ | ⟨cause, refused, -, gone⟩
  · rw [removed]
    exact ⟨_, u, rfl, change, gone⟩
  · rw [refused]
    exact ⟨_, y.tree, rfl, .refl .., gone⟩

/-- A staging file that no compiler works on is gone when it has been removed. -/
theorem moved_removed {u : FileTree} (isFile : h.file? = some file)
    (resting : ∀ f child, h ≠ .working f child)
    (change : Change (· = b.place file) y.tree.node? u.node?) (gone : u.node? (b.place file) = none)
    (young : ∀ {id command}, (id, command) ∈ y.running → id < y.started) :
    Moved b outDir jobs job h .nothing y { y with tree := u } where
  held := trivial
  tree := fun _ other => .inl (change.elsewhere _ (other file (.inl isFile)))
  left := by
    intro f isOther
    obtain rfl := Option.some.inj (isFile.symm.trans isOther)
    exact .inr gone
  fresh := fun isFile => by cases isFile
  finished := List.Subset.refl _
  given := List.Subset.refl _
  drawn := .inl
  hired := fun running => .inl ⟨running, fun _ => resting _ _⟩
  kept := .inl
  child := fun same => by cases same
  young := young

/-! ## The compiler -/

theorem moved_hired (draft : Draft b outDir job y file)
    (young : ∀ {id command}, (id, command) ∈ y.running → id < y.started) :
    Moved b outDir jobs job (.staging file) (.working file ⟨y.started⟩) y
      { y with running := (y.started, job.command outDir file) :: y.running,
               started := y.started + 1 } where
  held := ⟨⟨draft.named, draft.drafted, draft.given, draft.plain⟩, List.mem_cons_self⟩
  tree := fun _ _ => .inl rfl
  left := .inl
  fresh := .inl
  finished := List.Subset.refl _
  given := List.Subset.refl _
  drawn := .inl
  hired := by
    intro id command running
    rcases List.mem_cons.mp running with same | before
    · cases same
      exact .inr ⟨file, rfl, rfl⟩
    · exact .inl ⟨before, fun _ same => by cases same⟩
  kept := fun running => .inl (List.mem_cons_of_mem _ running)
  child := by
    intro f child same
    cases same
    exact .inr (Nat.le_refl _)
  young := by
    intro id command running
    rcases List.mem_cons.mp running with same | before
    · cases same
      exact Nat.lt_succ_self _
    · exact Nat.lt_succ_of_lt (young before)

/-- A compiler is gone; what it leaves is whole if it has ended well. -/
theorem moved_let_go {child : Child} (held : Held b outDir jobs job z h')
    (isFile : h'.file? = some file) (resting : ∀ f child, h' ≠ .working f child)
    (tree : z.tree = y.tree) (finished : y.finished ⊆ z.finished) (given : z.given = y.given)
    (running : z.running = (y.without child).running) (started : z.started = y.started)
    (young : ∀ {id command}, (id, command) ∈ y.running → id < y.started) :
    Moved b outDir jobs job (.working file child) h' y z where
  held
  tree := fun _ _ => .inl (by rw [tree])
  left := fun same => .inl (same ▸ isFile)
  fresh := fun same => .inl (isFile.symm.trans same)
  finished
  given := given ▸ List.Subset.refl _
  drawn := fun isGiven => .inl (given ▸ isGiven)
  hired := by
    intro id command among
    rw [running] at among
    obtain ⟨before, other⟩ := List.mem_filter.mp among
    refine .inl ⟨before, fun f same => ?_⟩
    cases same
    simp at other
  kept := by
    intro id command before
    by_cases same : id = child.id
    · subst same
      exact .inr ⟨file, rfl⟩
    · left
      rw [running]
      exact List.mem_filter.mpr ⟨before, by simpa using same⟩
  child := fun same => absurd same (resting _ _)
  young := by
    intro id command among
    rw [running] at among
    rw [started]
    exact young (List.mem_filter.mp among).1

theorem answer_spawn (command : Command) (memory : Option Nat) :
    (∃ cause, answer b fate y (.spawn command memory) = (.error cause, y)) ∨
      answer b fate y (.spawn command memory) = (.ok ⟨y.started⟩,
        { y with running := (y.started, command) :: y.running, started := y.started + 1 }) := by
  unfold answer
  cases fate.refused with
  | some cause => exact .inl ⟨cause, rfl⟩
  | none => exact .inr rfl

theorem answer_await (child : Child) (stop : Observation → Option Ending) :
    (∃ cause, answer b fate y (.await child stop) = (.error cause, y.without child)) ∨
      (∃ status, answer b fate y (.await child stop) =
        (.ok (.exited status), y.exited b child status)) ∨
      ∃ ending, (∀ status, ending ≠ .exited status) ∧
        answer b fate y (.await child stop) = (.ok ending, y) := by
  unfold answer
  cases fate.ending with
  | error cause => exact .inl ⟨cause, rfl⟩
  | ok ending =>
    right
    cases ending with
    | exited status => exact .inl ⟨status, rfl⟩
    | cancelled => exact .inr ⟨.cancelled, by simp, rfl⟩
    | timedOut => exact .inr ⟨.timedOut, by simp, rfl⟩

/-- What is in the output of a compiler that has exited with 0 is set down. -/
theorem exited_eq {child : Child} {status : Status} {command : Command}
    (running : y.running.lookup child.id = some command) :
    y.exited b child status = { y.without child with
      finished := if status.isSuccess then
        (command, (output? b command).bind (content y.tree)) :: y.finished else y.finished } := by
  unfold State.exited
  rw [running]
  by_cases success : status.isSuccess
  · simp only [success, if_true]
  · simp only [success, Bool.false_eq_true, if_false]
    rfl

theorem lookup_of_mem {entries : List (Nat × Command)} {id : Nat} {command : Command}
    (among : (id, command) ∈ entries) : ∃ other, entries.lookup id = some other := by
  cases found : entries.lookup id with
  | some other => exact ⟨other, rfl⟩
  | none =>
    have apart := List.lookup_eq_none_iff.mp found _ among
    simp at apart

theorem moved_exited {child : Child} {status : Status}
    (held : Held b outDir jobs job y (.working file child))
    (own : ∀ {command}, (child.id, command) ∈ y.running → command = job.command outDir file)
    (young : ∀ {id command}, (id, command) ∈ y.running → id < y.started) :
    Moved b outDir jobs job (.working file child)
      (if status.isSuccess then .whole file else .staging file) y (y.exited b child status) := by
  obtain ⟨draft, running⟩ := held
  obtain ⟨command, found⟩ := lookup_of_mem running
  obtain rfl := own (mem_of_lookup found)
  rw [exited_eq found, output_command]
  have still (finished : List (Command × Option Bytes)) :
      Draft b outDir job { y.without child with finished } file :=
    ⟨draft.named, draft.drafted, draft.given, draft.plain⟩
  by_cases success : status.isSuccess
  · simp only [success, if_true]
    refine moved_let_go ⟨still _, fun bytes executable there => ?_⟩ rfl (by simp) rfl
      (List.subset_cons_self ..) rfl rfl rfl young
    have read : content y.tree (b.place file) = some bytes := by
      rw [Outcomes.content_of_node?, show y.tree.node? (b.place file) = _ from there]
    rw [Option.bind_some, read]
    exact List.mem_cons_self
  · simp only [success, Bool.false_eq_true, if_false]
    exact moved_let_go (still _) rfl (by simp) rfl (List.Subset.refl _) rfl rfl rfl young

/-! ## Reading and renaming -/

theorem answer_read (named : endsIdle file = false) :
    (∃ cause, answer b fate y (.file (.read file)) = (.error cause, y)) ∨
      ∃ bytes executable, y.tree.node? (b.place file) = some (.file bytes executable) ∧
        answer b fate y (.file (.read file)) = (.ok bytes, y) := by
  show (∃ cause, serveFile b fate y (.read file) = _) ∨
    ∃ bytes executable, _ ∧ serveFile b fate y (.read file) = _
  unfold serveFile
  cases fate.refused with
  | some cause => exact .inl ⟨cause, rfl⟩
  | none =>
    simp only [Option.bind_none, Bench.answerFile, readAt_of_endsIdle named]
    cases found : Trees.read y.tree (b.place file) with
    | error cause => exact .inl ⟨cause, rfl⟩
    | ok bytes =>
      obtain ⟨executable, there⟩ := read_eq_ok found
      exact .inr ⟨bytes, executable, there, rfl⟩

theorem answer_rename {bytes : Bytes} {executable : Bool} (target : Path)
    (there : y.tree.node? (b.place file) = some (.file bytes executable)) :
    (∃ cause, answer b fate y (.file (.rename file target)) = (.error cause, y)) ∨
      ∃ u, answer b fate y (.file (.rename file target)) = (.ok (), { y with tree := u }) ∧
        u.node? = (View.put y.tree.node? (b.place file) none).put (b.place target)
          (some (.file bytes false)) := by
  show (∃ cause, serveFile b fate y (.rename file target) = _) ∨
    ∃ u, serveFile b fate y (.rename file target) = _ ∧ _
  unfold serveFile
  cases fate.refused with
  | some cause => exact .inl ⟨cause, rfl⟩
  | none =>
    simp only [Option.bind_none, Bench.answerFile]
    cases free : View.writable y.tree.node? (b.place target) with
    | true =>
      obtain ⟨u, renamed, view⟩ := rename_ok there free
      rw [renamed]
      exact .inr ⟨u, rfl, view⟩
    | false =>
      have refused : rename y.tree (b.place file) (b.place target) =
          .error (refusal y.tree.node? (b.place target)) := by
        rw [rename, read_ok there]
        show (if _ then _ else _) = _
        rw [free]
        rfl
      rw [refused]
      exact .inl ⟨_, rfl⟩

/-- Bitcode that a compiler has left appears under the final name, and the staging file is gone. -/
theorem moved_renamed {bytes : Bytes} {u : FileTree} (isJob : job ∈ jobs)
    (draft : Draft b outDir job y file) (magic : isBitcode bytes)
    (run : (job.command outDir file, some bytes) ∈ y.finished)
    (view : u.node? = (View.put y.tree.node? (b.place file) none).put (job.irPlace b outDir)
      (some (.file bytes false)))
    (young : ∀ {id command}, (id, command) ∈ y.running → id < y.started) :
    Moved b outDir jobs job (.approved file) .there y { y with tree := u } := by
  have whole : Whole b outDir jobs { y with tree := u } (job.irPlace b outDir) := by
    refine ⟨bytes, false, ?_, magic, job, isJob, rfl, file, run⟩
    show u.node? _ = _
    rw [view, View.put_self]
  exact {
    held := whole
    tree := by
      intro q _ other
      by_cases same : q = job.irPlace b outDir
      · exact .inr ⟨rfl, same, same ▸ whole⟩
      · left
        show u.node? q = _
        rw [view, View.put_other same, View.put_other (other file (.inl rfl))]
    left := by
      intro f isFile
      obtain rfl := Option.some.inj isFile
      right
      show u.node? _ = _
      rw [view, View.put_other (draft.drafted.ne_ir job), View.put_self]
    fresh := fun isFile => by cases isFile
    finished := List.Subset.refl _
    given := List.Subset.refl _
    drawn := .inl
    hired := fun running => .inl ⟨running, fun _ same => by cases same⟩
    kept := .inl
    child := fun same => by cases same
    young := young }

/-! ## Every answer -/

/-- Whatever a build may ask, the answer does no more than is good. -/
theorem answered {holds : Nat → Hold} {i : Nat} (sound : Sound b outDir jobs holds y)
    (isJob : jobs[i]? = some job) (fate : Fate) {r : Request}
    (may : Hold.May job.config outDir job.artifact (job.plan outDir) (holds i) r) :
    Moved b outDir jobs job (holds i) ((holds i).after r (answer b fate y r).1) y
      (answer b fate y r).2 := by
  have held := sound.held isJob
  have own {f : Path} {id : Nat} {command : Command} (working : holds i = .working f ⟨id⟩)
      (running : (id, command) ∈ y.running) : command = job.command outDir f :=
    sound.command isJob working running
  have young {id : Nat} {command : Command} (running : (id, command) ∈ y.running) : id < y.started :=
    sound.young running
  generalize holds i = h at may held own
  cases may with
  | looks =>
    rw [answer_exists]
    cases there : Trees.exists y.tree (b.place (job.plan outDir).irPath) with
    | true =>
      exact moved_still (whole_of_found sound (Option.isSome_iff_ne_none.mp there)) own young rfl (by simp [Hold.after])
    | false => exact moved_still trivial own young rfl (by simp [Hold.after])
  | makesDirectories =>
    rcases answer_createDirectories outDir with ⟨cause, same⟩ | ⟨u, made, same⟩
    · rw [same]
      exact moved_still trivial own young rfl (by simp [Hold.after])
    · rw [same]
      exact moved_directories made young
  | draws =>
    have made : answer b fate y (.temporaryFile outDir s!".{(job.plan outDir).key}." ".bc") =
        makeFile b fate y outDir s!".{(job.plan outDir).key}." ".bc" := rfl
    rw [made]
    rcases makeFile_cases fate y job with ⟨cause, same⟩ | ⟨file, u, same, named, drafted, new, view⟩
    · rw [same]
      exact moved_still trivial own young rfl (by simp [Hold.after])
    · rw [same]
      exact moved_drawn named drafted new view young
  | asksCancelled file => exact moved_still held own young rfl fun _ _ => .rfl
  | starts file memory =>
    rcases answer_spawn (job.command outDir file) memory with ⟨cause, same⟩ | same
    · rw [Job.command] at same
      rw [same]
      exact moved_still held own young rfl fun _ _ => .rfl
    · rw [Job.command] at same
      rw [same]
      exact moved_hired held young
  | awaits file child stop =>
    rcases answer_await child stop with ⟨cause, same⟩ | ⟨status, same⟩ | ⟨ending, other, same⟩
    · rw [same]
      exact moved_let_go ⟨held.1.named, held.1.drafted, held.1.given, held.1.plain⟩ rfl
        (by simp [Hold.after]) rfl (List.Subset.refl _) rfl rfl rfl young
    · rw [same]
      exact moved_exited held (fun running => own rfl running) young
    · rw [same]
      cases ending with
      | exited status => exact absurd rfl (other status)
      | cancelled => exact moved_still held own young rfl fun _ _ => .rfl
      | timedOut => exact moved_still held own young rfl fun _ _ => .rfl
  | warns file child line => exact moved_still held own young rfl fun _ _ => .rfl
  | terminates file child =>
    exact moved_let_go ⟨held.1.named, held.1.drafted, held.1.given, held.1.plain⟩ rfl
      (by simp [Hold.after]) rfl (List.Subset.refl _) rfl rfl rfl young
  | collectsStaging file child => exact moved_still held own young rfl fun _ _ => .rfl
  | collects file child => exact moved_still held own young rfl fun _ _ => .rfl
  | reads file =>
    rcases answer_read held.1.named with ⟨cause, same⟩ | ⟨bytes, executable, there, same⟩
    · rw [same]
      exact moved_still held own young rfl fun _ _ => .rfl
    · rw [same]
      show Moved _ _ _ _ _ (if isBitcode bytes then .approved file else .whole file) _ _
      by_cases magic : isBitcode bytes
      · rw [if_pos magic]
        exact moved_still ⟨held.1, bytes, executable, there, magic, held.2 bytes executable there⟩ own
          young rfl (by simp)
      · rw [if_neg magic]
        exact moved_still held own young rfl fun _ _ => .rfl
  | renames file =>
    obtain ⟨draft, bytes, executable, there, magic, run⟩ := held
    rcases answer_rename (job.plan outDir).irPath there with ⟨cause, same⟩ | ⟨u, same, view⟩
    · rw [same]
      exact moved_still ⟨draft, bytes, executable, there, magic, run⟩ own young rfl fun _ _ => .rfl
    · rw [same]
      exact moved_renamed (List.mem_of_getElem? isJob) draft magic run view young
  | discardsStaging file =>
    obtain ⟨r, u, same, change, gone⟩ := answer_remove fate held
    rw [same]
    exact moved_removed rfl (by simp) change gone young
  | discards file =>
    obtain ⟨r, u, same, change, gone⟩ := answer_remove fate held.1
    rw [same]
    exact moved_removed rfl (by simp) change gone young
  | discardsApproved file =>
    obtain ⟨r, u, same, change, gone⟩ := answer_remove fate held.1
    rw [same]
    exact moved_removed rfl (by simp) change gone young

/-! ## Builds side by side -/

/-- What holds at any time: the yard is sound, and each build abides by the discipline from what it
holds. -/
def Underway (b : Bench) (outDir : Path) (jobs : List Job)
    (ps : List (Program (Except CompileError Variant))) (y : Yard.State) : Prop :=
  ps.length = jobs.length ∧ ∃ holds, Sound b outDir jobs holds y ∧
    ∀ {i job p}, jobs[i]? = some job → ps[i]? = some p →
      Abides (discipline job.config outDir job.artifact (job.plan outDir))
        (Hold.Ended (job.plan outDir)) (holds i) p

variable {ps : List (Program (Except CompileError Variant))} {i : Nat} {r : Request}
  {next : r.Answer → Program (Except CompileError Variant)}

/-- With the IR there nothing is left to ask. -/
theorem done_of_there {p : Program (Except CompileError Variant)}
    (abides : Abides (discipline job.config outDir job.artifact (job.plan outDir))
      (Hold.Ended (job.plan outDir)) .there p) : p = .done (.ok ⟨job.plan outDir, true⟩) := by
  cases p with
  | ask r next => cases abides.1
  | done result =>
    cases result with
    | error e => exact abides.elim
    | ok v =>
      obtain rfl : v = _ := abides
      rfl

/-- Every answer keeps what holds. Where it brings IR under its final name, the build is one of that
name and ends with a success. -/
theorem Underway.step (underway : Underway b outDir jobs ps y) (found : ps[i]? = some (.ask r next)) :
    Underway b outDir jobs (ps.set i (next (Yard.host b r y).1)) (Yard.host b r y).2 ∧
      ∀ other : Job, y.tree.node? (other.irPlace b outDir) = none →
        (Yard.host b r y).2.tree.node? (other.irPlace b outDir) ≠ none →
        ∃ job, jobs[i]? = some job ∧ other.irPlace b outDir = job.irPlace b outDir ∧
          next (Yard.host b r y).1 = .done (.ok ⟨job.plan outDir, true⟩) := by
  obtain ⟨length, holds, sound, abides⟩ := underway
  have inRange : i < ps.length := (List.getElem?_eq_some_iff.mp found).1
  obtain ⟨job, isJob⟩ : ∃ job, jobs[i]? = some job := ⟨_, List.getElem?_eq_getElem (length ▸ inRange)⟩
  obtain ⟨may, goes⟩ := abides isJob found
  obtain ⟨atWork, same⟩ := sound.worked
  have moved := answered atWork isJob (y.fates y.time) may
  have goes := goes (Yard.host b r y).1
  refine ⟨⟨by simpa using length, _, atWork.moved isJob moved, fun {j job' p} isOther among => ?_⟩,
    fun other free there => ?_⟩
  · by_cases mine : j = i
    · subst mine
      obtain rfl := Option.some.inj (isJob.symm.trans isOther)
      rw [List.getElem?_set_self inRange, Option.some.injEq] at among
      subst among
      rw [Function.update_self]
      exact goes
    · rw [List.getElem?_set_ne (Ne.symm mine)] at among
      rw [Function.update_of_ne mine]
      exact abides isOther among
  · have notMine {f : Path} (mine : (holds i).file? = some f ∨
        (Hold.after (holds i) r (Yard.host b r y).1).file? = some f) :
        other.irPlace b outDir ≠ b.place f := by
      rcases mine with before | after
      · exact (((atWork.held isJob).draft before).drafted.ne_ir other).symm
      · exact ((moved.held.draft after).drafted.ne_ir other).symm
    rcases moved.tree (irPlace_inside other) fun f => notMine with kept | ⟨isThere, isPlace, -⟩
    · exact absurd (kept.trans ((same other).trans free)) there
    · refine ⟨job, isJob, isPlace, done_of_there (isThere ▸ goes)⟩

/-- Before its first answer a build has done nothing. -/
theorem underway_start {tree : FileTree} (empty : ∀ q, Inside b outDir q → tree.node? q = none)
    (fates : Nat → Fate) :
    Underway b outDir jobs (jobs.map (Job.program outDir)) (start tree fates) := by
  refine ⟨by simp, fun _ => .nothing, ?_, fun {i job p} isJob among => ?_⟩
  · constructor
    case held => exact fun _ => trivial
    case idle => exact fun _ => rfl
    case apart => exact fun _ isFile => by cases isFile
    case alone => exact fun working => by cases working
    case entries => exact fun inside there => absurd (empty _ inside) there
    case runners => exact fun running => by cases running
    case young => exact fun running => by cases running
    case given => exact fun isGiven => by cases isGiven
  · rw [List.getElem?_map, isJob, Option.map_some, Option.some.injEq] at among
    subst among
    exact build_heeds job.isSource

/-- A build that has not begun, or has ended, holds no file. -/
theorem no_file_at_rest {p : Program (Except CompileError Variant)}
    (abides : Abides (discipline job.config outDir job.artifact (job.plan outDir))
      (Hold.Ended (job.plan outDir)) h p)
    (resting : p = job.program outDir ∨ ∃ r, p = .done r) : h.file? = none := by
  rcases resting with rfl | ⟨result, rfl⟩
  · obtain ⟨next, asks⟩ : ∃ next, job.program outDir =
        .ask (.file (.exists (job.plan outDir).irPath)) next := by
      unfold Job.program Compile.build
      simp only [job.isSource, Bool.not_true, Bool.false_eq_true, if_false]
      exact ⟨_, rfl⟩
    rw [asks] at abides
    cases abides.1
    rfl
  · have ended : Hold.Ended (job.plan outDir) result h := abides
    cases h with
    | nothing => rfl
    | there => rfl
    | staging file => cases result <;> exact ended.elim
    | working file child => cases result <;> exact ended.elim
    | whole file => cases result <;> exact ended.elim
    | approved file => cases result <;> exact ended.elim

/-- Builds of sources into an empty directory may run side by side in any number and order, with any
flags, and whatever becomes of their compilers: at every moment IR under a final name is all that a
compiler has left that exited with 0, and it is bitcode. A build tells of a success only where its
IR is there, and IR comes to be there only by a build that thereby ends with a success. When no build
is under way, no staging file is left; and no staging file ever has the final name of a key. -/
theorem ir_all_or_nothing (b : Bench) (outDir : Path) (jobs : List Job) {tree : FileTree}
    (empty : ∀ q, Inside b outDir q → tree.node? q = none) (fates : Nat → Fate)
    (schedule : List Nat) :
    let now := interleave (Yard.host b) (jobs.map (Job.program outDir), start tree fates) schedule
    (∀ job : Job, now.2.tree.node? (job.irPlace b outDir) ≠ none →
      Whole b outDir jobs now.2 (job.irPlace b outDir)) ∧
    (∀ (i : Nat) (v : Variant), now.1[i]? = some (.done (.ok v)) → v.success →
      ∃ job, jobs[i]? = some job ∧ v.toPlan = job.plan outDir ∧
        Whole b outDir jobs now.2 (b.place v.irPath)) ∧
    (∀ i : Nat, let later := SideBySide.turn (Yard.host b) now i
      ∀ job : Job, now.2.tree.node? (job.irPlace b outDir) = none →
        later.2.tree.node? (job.irPlace b outDir) ≠ none →
        ∃ v, later.1[i]? = some (.done (.ok v)) ∧ v.success ∧
          b.place v.irPath = job.irPlace b outDir) ∧
    ((∀ (i : Nat) (job : Job) p, jobs[i]? = some job → now.1[i]? = some p →
        p = job.program outDir ∨ ∃ r, p = .done r) →
      ∀ q, Inside b outDir q → now.2.tree.node? q ≠ none → Whole b outDir jobs now.2 q) ∧
    ∀ q ∈ now.2.given, ∀ job : Job, q ≠ job.irPlace b outDir := by
  have underway : Underway b outDir jobs _ _ := interleave_keeps
    (I := Underway b outDir jobs) (underway_start empty fates)
    (fun _ _ _ _ _ underway found => (underway.step found).1) schedule
  generalize interleave (Yard.host b) _ schedule = now at underway
  obtain ⟨ps, y⟩ := now
  obtain ⟨length, holds, sound, abides⟩ := underway
  refine ⟨fun job there => whole_of_found sound there, ?_, ?_, ?_, ?_⟩
  · intro i v ended success
    obtain ⟨job, isJob⟩ : ∃ job, jobs[i]? = some job :=
      ⟨_, List.getElem?_eq_getElem (length ▸ (List.getElem?_eq_some_iff.mp ended).1)⟩
    have held := sound.held isJob
    have isEnded : Hold.Ended (job.plan outDir) (.ok v) (holds i) := abides isJob ended
    generalize holds i = h at held isEnded
    cases h with
    | there =>
      obtain rfl : v = _ := isEnded
      exact ⟨job, isJob, rfl, held⟩
    | nothing =>
      obtain rfl : v = _ := isEnded
      cases success
    | staging file => exact isEnded.elim
    | working file child => exact isEnded.elim
    | whole file => exact isEnded.elim
    | approved file => exact isEnded.elim
  · intro i later job free there
    cases found : ps[i]? with
    | none =>
      have same : later = (ps, y) := by simp only [later, SideBySide.turn, found]
      rw [same] at there
      exact absurd free there
    | some p =>
      cases p with
      | done r =>
        have same : later = (ps, y) := by simp only [later, SideBySide.turn, found]
        rw [same] at there
        exact absurd free there
      | ask r next =>
        have inRange : i < ps.length := (List.getElem?_eq_some_iff.mp found).1
        have isLater : later = _ := turn_of_ask found
        rw [isLater] at there ⊢
        obtain ⟨mine, isJob, same, ended⟩ :=
          (Underway.step ⟨length, holds, sound, abides⟩ found).2 job free there
        refine ⟨⟨mine.plan outDir, true⟩, ?_, rfl, same.symm⟩
        rw [List.getElem?_set_self inRange, ended]
  · intro resting q inside there
    rcases sound.entries inside there with whole | ⟨i, file, isFile, rfl⟩
    · exact whole
    · obtain ⟨job, isJob, -⟩ := sound.owner isFile
      have among := List.getElem?_eq_getElem (length ▸ (List.getElem?_eq_some_iff.mp isJob).1)
      have none := no_file_at_rest (abides isJob among) (resting i job _ isJob among)
      exact absurd (isFile.symm.trans none) (by simp)
  · intro q isGiven job
    obtain ⟨other, -, drafted⟩ := sound.given isGiven
    exact drafted.ne_ir job

/-! ## A compiler that ends well beside one that takes too long -/

/-- Two builds of one program, with two sets of flags. -/
def pair : List Job :=
  [⟨VariantKeys.plain, VariantKeys.twinC, rfl, ["-O0"], []⟩,
    ⟨VariantKeys.plain, VariantKeys.twinC, rfl, ["-O2"], []⟩]

/-- In the eleventh moment one compiler has left bitcode and exits, while the other has begun to
write and takes too long. -/
def uneven (moment : Nat) : Fate where
  works := if moment = 10 then [(0, some [0x42, 0x43, 0xC0, 0xDE]), (1, some [0x42])] else []
  refused := none
  drawn := "x1y2z3"
  cancelled := false
  ending := if moment = 10 then .ok (.exited (.exited 0)) else .ok .timedOut
  streams := ([], [])

def inTurn : List Nat := (List.replicate 9 [0, 1]).flatten ++ [1]

def success? : Program (Except CompileError Variant) → Option Bool
  | .done (.ok v) => some v.success
  | _ => none

theorem ended_of_success {p : Program (Except CompileError Variant)} {success : Bool}
    (ended : success? p = some success) : ∃ v, p = .done (.ok v) ∧ v.success = success := by
  cases p with
  | ask r next => cases ended
  | done r =>
    cases r with
    | error e => cases ended
    | ok v => exact ⟨v, rfl, Option.some.inj ended⟩

theorem both_ended {ps : List (Program (Except CompileError Variant))} {x y : Bool}
    (results : ps.map success? = [some x, some y]) :
    ∃ v w, ps = [.done (.ok v), .done (.ok w)] ∧ v.success = x ∧ w.success = y := by
  obtain ⟨p, rest, rfl, first, others⟩ := List.map_eq_cons_iff.mp results
  obtain ⟨q, rest, rfl, second, none⟩ := List.map_eq_cons_iff.mp others
  obtain rfl := List.map_eq_nil_iff.mp none
  obtain ⟨v, rfl, isFirst⟩ := ended_of_success first
  obtain ⟨w, rfl, isSecond⟩ := ended_of_success second
  exact ⟨v, w, rfl, isFirst, isSecond⟩

/-- One build ends with a success and its IR is whole. The other ends without, and nothing but the
IR of the first is left. -/
theorem one_of_two_built :
    let b := Bench.desk Exclusion.noTools
    let now := interleave (Yard.host b) (pair.map (Job.program "/out"), start ⟨[]⟩ uneven) inTurn
    (∀ q, Inside b "/out" q → FileTree.node? ⟨[]⟩ q = none) ∧
      (∃ v, now.1[0]? = some (.done (.ok v)) ∧ v.success ∧
        Whole b "/out" pair now.2 (b.place v.irPath)) ∧
      (∃ v, now.1[1]? = some (.done (.ok v)) ∧ v.success = false) ∧
      ∀ q, Inside b "/out" q → now.2.tree.node? q ≠ none → Whole b "/out" pair now.2 q := by
  have empty : ∀ q, Inside (Bench.desk Exclusion.noTools) "/out" q →
      FileTree.node? ⟨[]⟩ q = none := by
    rintro q ⟨name, rest, rfl⟩
    simp [FileTree.node?]
  obtain ⟨-, successes, -, leftovers, -⟩ :=
    ir_all_or_nothing (Bench.desk Exclusion.noTools) "/out" pair empty uneven inTurn
  have results : (interleave (Yard.host (Bench.desk Exclusion.noTools))
      (pair.map (Job.program "/out"), start ⟨[]⟩ uneven) inTurn).1.map success? =
        [some true, some false] := by
    decide +kernel
  obtain ⟨v, w, both, success, failure⟩ := both_ended results
  obtain ⟨-, -, -, whole⟩ := successes 0 v (by rw [both]; rfl) success
  refine ⟨empty, ⟨v, by rw [both]; rfl, success, whole⟩, ⟨w, by rw [both]; rfl, failure⟩,
    leftovers fun i job p _ among => ?_⟩
  rw [both] at among
  right
  have either := List.mem_of_getElem? among
  simp only [List.mem_cons, List.not_mem_nil, or_false] at either
  rcases either with rfl | rfl
  · exact ⟨_, rfl⟩
  · exact ⟨_, rfl⟩

end BugHunt.Proofs.Wholeness
