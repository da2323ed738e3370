import BugHunt.Proofs.Mishaps
import BugHunt.Proofs.Reducing
/-!
Reductions that fail. Whatever goes wrong, and wherever it does: what a reduction that failed
leaves where its result belongs was put there by the minimizer for IR itself, or is the copy of a
source for which no script could be made.
-/

namespace BugHunt.Proofs.FailedReduction
open Trees Texts Names Places Runs Bench Outcomes Building Judging Reducing Mishaps

variable {b : Bench} {c : Config} {m : Mishaps}

/-- What stands at a place, or that nothing does. -/
def Holds (place : Place) (node : Option Node) (t : FileTree) : Prop := t.node? place = node

abbrev Free (place : Place) : FileTree → Prop := Holds place none

/-- Whether a file stands at a place. -/
def Filed (place : Place) (t : FileTree) : Prop :=
  ∃ content executable, t.node? place = some (.file content executable)

theorem Holds.change {place : Place} {node : Option Node} {within : Place → Prop} {t u : FileTree}
    (holds : Holds place node t) (changed : Change within t.node? u.node?) (outside : ¬ within place) :
    Holds place node u :=
  (changed.elsewhere place outside).trans holds

theorem write_filed {place q : Place} {content : Bytes} {t u : FileTree}
    (written : write t q content = .ok u) (there : Filed place t ∨ place = q) : Filed place u := by
  obtain ⟨-, view⟩ := write_view written
  by_cases same : place = q
  · exact ⟨content, false, by rw [view, same, View.put_self]⟩
  · obtain ⟨old, executable, was⟩ := there.resolve_right same
    exact ⟨old, executable, by rw [view, View.put_other same, was]⟩

theorem copy_filed {source target : Place} {t u : FileTree} (copied : copy t source target = .ok u) :
    Filed target u := by
  obtain ⟨content, -, written⟩ := copy_written copied
  exact write_filed written (.inr rfl)

theorem put_filed {place q : Place} {t : FileTree} (written : Option Bytes) (there : Filed place t) :
    Filed place (put t q written) := by
  cases written with
  | none => exact there
  | some bytes =>
    cases done : write t q bytes with
    | error cause =>
      simp only [put, done, Except.toOption, Option.getD_none]
      exact there
    | ok u =>
      simp only [put, done, Except.toOption, Option.getD_some]
      exact write_filed done (.inl there)

theorem createDirectory_filed {place q : Place} {t u : FileTree} (made : createDirectory t q = .ok u)
    (there : Filed place t) : Filed place u := by
  obtain ⟨content, executable, was⟩ := there
  obtain ⟨free, -, view⟩ := createDirectory_view made
  have other : place ≠ q := by
    rintro rfl
    cases was.symm.trans free
  exact ⟨content, executable, by rw [view, View.put_other other, was]⟩

theorem remove_free {place : Place} {t : FileTree} (there : Filed place t) :
    ∃ u, remove t place = .ok u ∧ Free place u := by
  obtain ⟨content, executable, was⟩ := there
  obtain ⟨u, removed, view⟩ := remove_ok was rfl
  exact ⟨u, removed, by rw [Free, Holds, view, View.put_self]⟩

/-- What lies elsewhere stays when a tree is removed, and so does it that nothing is there. -/
theorem removeTree_holds {place q : Place} {node : Option Node} {t u : FileTree}
    (removed : removeTree t q = .ok u) (apart : node ≠ none → ¬ q <+: place)
    (holds : Holds place node t) : Holds place node u := by
  rw [← removeTree_prune removed]
  by_cases named : place = []
  · subst named
    exact holds
  · unfold Holds FileTree.node? at holds ⊢
    rw [if_neg named] at holds ⊢
    unfold FileTree.prune
    rw [lookup_filter t.nodes (fun there => !q.isPrefixOf there) place, holds]
    cases node with
    | none => exact ite_self _
    | some node =>
      have outside : ¬ q <+: place := apart (by simp)
      simp [outside]

/-! ## What was started since -/

/-- Whether a tool has been started since a state. -/
def Since (before : State) (command : Command) (t : State) : Prop :=
  command ∈ t.started.drop before.started.length

theorem Since.after {before t : State} (later : before.started <+: t.started) (command : Command) :
    Since before command (after b t command) := by
  obtain ⟨rest, same⟩ := later
  simp [Since, Runs.after, ← same]

theorem Since.later {before t u : State} {command : Command} (since : Since before command t)
    (later : t.started <+: u.started) : Since before command u := by
  obtain ⟨rest, same⟩ := later
  rw [Since, ← same, List.drop_append]
  exact List.mem_append_left _ since

theorem Keeps.since {a : Action ε α} {before : State} {command : Command} :
    Keeps (troubled b m) (Since before command ·.1) a :=
  fun u since => since.later (exec_started a u)

/-- What holds of the files in a run that goes on from a state. -/
def From (before : State) (P : FileTree → Prop) (u : State × Nat) : Prop :=
  before.started <+: u.1.started ∧ P u.1.tree

theorem Ends.going {P : FileTree → Prop} {a : Action ε α} {Q : Except ε α → FileTree → Prop}
    {before : State} (h : Ends (troubled b m) (Files P) a fun result => Files (Q result)) :
    Ends (troubled b m) (From before P) a fun result => From before (Q result) :=
  fun u holds => ⟨holds.1.trans (exec_started a u), h u holds.2⟩

theorem Keeps.going {P : FileTree → Prop} {a : Action ε α} {before : State}
    (h : Keeps (troubled b m) (Files P) a) : Keeps (troubled b m) (From before P) a :=
  Ends.going h

/-! ## Keeping -/

theorem exists_keeps {P : FileTree → Prop} (p : Path) :
    Keeps (troubled b m) (Files P) (monadLift (Program.exists p) : Action ε Bool) :=
  quiet_files (r := .file (.exists p)) fun _ => rfl

theorem log_keeps {P : FileTree → Prop} (level : Level) (message : String) :
    Keeps (troubled b m) (Files P) (monadLift (Program.log level message) : Action ε Unit) :=
  quiet_files (r := .log _) fun _ => rfl

/-- An entry of the output directory is none of the directories that lead there. -/
theorem createDirectories_holds {name : Bytes} {node : Option Node} {t u : FileTree}
    (made : createDirectories t (b.place c.outputRoot) = .ok u)
    (holds : Holds (b.place c.outputRoot ++ [name]) node t) :
    Holds (b.place c.outputRoot ++ [name]) node u := by
  refine holds.change (createDirectories_spec made).1.change ?_
  rintro ⟨below, -⟩
  have := below.length_le
  simp only [List.length_append, List.length_singleton] at this
  omega

theorem convert_keeps {P : FileTree → Prop} {tool input output : Path}
    (written : ∀ t bytes, P t → P (put t (b.place output) bytes)) :
    Keeps (troubled b m) (Files P) (Compile.convert c tool input output) := by
  have carried (t : FileTree) (holds : P t) :
      P (b.carryOut (Command.ofProgram tool |>.path input |>.text "-o" |>.path output) t).1 := by
    rw [carryOut, convert_call]
    exact written t _ holds
  unfold Compile.convert Compile.runTool
  refine .bind (.adapt (command_keeps carried)) fun outcome => ?_
  cases outcome with
  | completed _ => exact .pure _
  | failed _ => exact .throw _
  | timedOut => exact .throw _

/-- The first sign of what is kept of an interesting variant. -/
def keptSign : UInt8 := 0x69

theorem keptName_head (variant : Variant) :
    (utf8 (Reduce.keptName variant)).head? = some keptSign := by
  have first : (utf8 "interesting-").head? = some keptSign := by decide
  rw [keptName_eq, utf8_append, List.head?_append, first, Option.some_or]

/-- Where a variant is kept, and where the textual form of what is kept lies. -/
def keptPlace (b : Bench) (c : Config) (v : Variant) : Place :=
  b.place (c.outputRoot / Path.ofString (Reduce.keptName v))

def textPlace (b : Bench) (c : Config) (v : Variant) : Place :=
  b.place ((c.outputRoot / Path.ofString (Reduce.keptName v)).withExtension "ll")

theorem keptPlace_eq {v : Variant} (clean : '/' ∉ v.name.toList) :
    keptPlace b c v = b.place c.outputRoot ++ [utf8 (Reduce.keptName v)] :=
  place_entry b _ (keptName_proper clean)

theorem eq_bc_of_binaryIr {extension : String}
    (binary : Kind.ofExtension? extension = some .binaryIr) : extension = "bc" := by
  simpa [programKinds] using ofExtension?_eq_some.mp binary

/-- What is kept is disassembled when it has the extension of bitcode. -/
theorem textPlace_eq {v : Variant} (clean : '/' ∉ v.name.toList)
    (isBinary : Kind.ofPath? (c.outputRoot / Path.ofString (Reduce.keptName v)) = some .binaryIr) :
    ∃ stem : String, Reduce.keptName v = stem ++ ".bc" ∧
      textPlace b c v = b.place c.outputRoot ++ [utf8 (stem ++ ".ll")] := by
  obtain ⟨stem, extension, programmed⟩ := programmed_of_kind isBinary
  have notDot : (utf8 (Reduce.keptName v)).head? ≠ some Path.dot := by
    rw [keptName_head]
    decide
  obtain ⟨same, output⟩ := @disassembly_place b c _ _ _ _ (keptName_proper clean) notDot programmed
  obtain ⟨front, back, rfl, rfl⟩ := text_around (show Path.dot < 0x80 by decide) same.symm
  have known := programmed.known
  rw [decode?_utf8, Option.bind_some] at known
  obtain rfl := eq_bc_of_binaryIr known
  refine ⟨front, utf8_injective ?_, by rw [utf8_append]; exact output⟩
  rw [← same, utf8_append, show utf8 ".bc" = Path.dot :: utf8 "bc" by decide]

theorem disassemble_keeps {P : FileTree → Prop} {path : Path}
    (written : Kind.ofPath? path = some .binaryIr →
      ∀ t bytes, P t → P (put t (b.place (path.withExtension "ll")) bytes)) :
    Keeps (troubled b m) (Files P) (Compile.disassemble c path) := by
  unfold Compile.disassemble
  split
  · exact .pure _
  · rename_i isBinary
    refine .bind (convert_keeps (written isBinary)) fun _ => .bind (exists_keeps _) fun found => ?_
    dsimp only
    split
    · exact .bind (.throw _) fun _ => .pure _
    · exact .pure _
  · exact .throw _

/-- What keeping a variant changes: directories that lead to the output directory, the file that is
kept, and its textual form. -/
theorem preserve_keeps {P : FileTree → Prop} {v : Variant}
    (created : ∀ t u, P t → createDirectories t (b.place c.outputRoot) = .ok u → P u)
    (copied : ∀ t u, P t → Change (· = keptPlace b c v) t.node? u.node? → P u)
    (written : Kind.ofPath? (c.outputRoot / Path.ofString (Reduce.keptName v)) = some .binaryIr →
      ∀ t u, P t → Change (· = textPlace b c v) t.node? u.node? → P u) :
    Keeps (troubled b m) (Files P) (Reduce.preserve c v) := by
  unfold Reduce.preserve
  refine .bind ((createDirectories_changes _).keeps created) fun _ =>
    .bind ((copy_changes _ _).keeps fun t u holds made => copied t u holds (copy_change made)) fun _ =>
      .bind (.attempt (disassemble_keeps fun isBinary t bytes holds =>
        written isBinary t _ holds (put_change t _ bytes))) fun result => ?_
  split
  · exact .pure _
  · exact .throw _
  · exact .bind (log_keeps _ _) fun _ => .pure _

/-- Keeping a variant changes no other place but for directories that lead to the output
directory. -/
theorem preserve_holds {place : Place} {node : Option Node} {v : Variant}
    (stays : node ≠ none ∨ ∃ entry, place = b.place c.outputRoot ++ [entry])
    (notKept : place ≠ keptPlace b c v)
    (notText : Kind.ofPath? (c.outputRoot / Path.ofString (Reduce.keptName v)) = some .binaryIr →
      place ≠ textPlace b c v) :
    Keeps (troubled b m) (Files (Holds place node)) (Reduce.preserve c v) := by
  refine preserve_keeps (fun t u holds made => ?_) (fun _ _ holds changed => holds.change changed notKept)
    fun isBinary _ _ holds changed => holds.change changed (notText isBinary)
  rcases stays with some | ⟨entry, rfl⟩
  · exact ((createDirectories_spec made).1.kept _ (by rw [holds]; exact some)).trans holds
  · exact createDirectories_holds made holds

/-- Keeping a variant changes no entry of the output directory whose name begins in another way. -/
theorem preserve_spares {entry : Bytes} {node : Option Node} {v : Variant}
    (clean : '/' ∉ v.name.toList) (other : entry.head? ≠ some keptSign) :
    Keeps (troubled b m) (Files (Holds (b.place c.outputRoot ++ [entry]) node))
      (Reduce.preserve c v) := by
  refine preserve_holds (.inr ⟨entry, rfl⟩) (fun same => ?_) fun isBinary same => ?_
  · rw [keptPlace_eq clean] at same
    obtain rfl : entry = utf8 (Reduce.keptName v) := by simpa using same
    exact other (keptName_head v)
  · obtain ⟨stem, name, place⟩ := @textPlace_eq b c v clean isBinary
    rw [place] at same
    obtain rfl : entry = utf8 (stem ++ ".ll") := by simpa using same
    have first := keptName_head v
    rw [name, utf8_append] at first
    rw [utf8_append] at other
    cases bytes : utf8 stem with
    | nil =>
      rw [bytes] at first
      exact absurd (Option.some.inj first) (by decide)
    | cons b rest =>
      rw [bytes] at first other
      exact other first

/-! ## Reducing -/

/-- Looking for a file is never refused. -/
theorem exists_run (p : Path) (u : State × Nat) : (Program.exists p).run (troubled b m) u =
    (Trees.exists u.1.tree (b.place p), u.1, u.2 + 1) := by
  rcases troubled_cases b m (.file (.exists p)) u.1 u.2 with ⟨_, _, refused, -⟩ | ran
  · cases refused
  · exact ran

theorem exists_ends {p : Path} {before : State} :
    Ends (troubled b m) (From before (Free (b.place p))) (monadLift (Program.exists p) : Action ε Bool)
      fun result u => result = .ok false ∧ From before (Free (b.place p)) u := by
  refine .lift fun ⟨s, n⟩ holds => ?_
  rw [exists_run]
  refine ⟨?_, holds⟩
  rw [Trees.exists, show s.tree.node? (b.place p) = none from holds.2]
  rfl

theorem minimize_ends (command : Command) (input : Path) (s : State) :
    Ends (troubled b m) (·.1 = s) (Reduce.minimize c command input)
      fun result u => Ran b s command result u.1 := by
  have run : Ends (troubled b m) (·.1 = s) ((command.run c.memoryLimit none).adapt ReduceError.run)
      fun result u => Ran b s command result u.1 := by
    refine .adapt ((command_ends command c.memoryLimit none s).mono fun result u ran => ?_)
    generalize u.1 = t at ran ⊢
    cases ran with
    | refused e => exact .refused _
    | abandoned e => exact .abandoned _
    | carried => exact .carried _
  unfold Reduce.minimize
  refine .bind run (fun outcome u ran => ?_) fun e u ran => ?_
  · obtain ⟨t, n⟩ := u
    cases ran with
    | carried =>
      cases outcome with
      | completed _ => exact .carried _
      | failed _ => exact .carried _
      | timedOut => exact .carried _
  · obtain ⟨t, n⟩ := u
    cases ran with
    | refused => exact .refused _
    | abandoned => exact .abandoned _
    | carried => exact .carried _

theorem minimize_going {P : FileTree → Prop} (command : Command) (input : Path) (before : State) :
    Ends (troubled b m) (From before P) (Reduce.minimize c command input) fun result u =>
      ∃ s, before.started <+: s.started ∧ P s.tree ∧ Ran b s command result u.1 :=
  fun u holds => ⟨u.1, holds.1, holds.2, minimize_ends command input u.1 u rfl⟩

theorem assemble_keeps {P : FileTree → Prop} {p : Path}
    (created : ∀ t u, P t → createDirectories t
      (b.place (Path.absolute c.startDirectory c.outputRoot)) = .ok u → P u)
    (written : ∀ t bytes, P t → P (put t (b.place (Path.absolute c.startDirectory c.outputRoot /
      Path.ofString (Plan.stemOf p ++ ".bc"))) bytes)) :
    Keeps (troubled b m) (Files P)
      (Compile.assemble c p (Path.absolute c.startDirectory c.outputRoot)) := by
  have tail (output : Path) : Keeps (troubled b m) (Files P) (do
      if !(← Compile.looksLikeBitcode output) then
        throw (.notBitcode c.tools.llvmAs.display output)
      return output : Compiling Path) := by
    have look : Keeps (troubled b m) (Files P)
        (monadLift (Compile.looksLikeBitcode output) : Compiling Bool) := by
      refine .lift fun u holds => ?_
      have still : ((Program.read output).run (troubled b m) u).2 = (u.1, u.2 + 1) :=
        @troubled_still b m (.file (.read output)) u.1 rfl u.2
      unfold Compile.looksLikeBitcode
      rw [run_bind]
      generalize (Program.read output).run (troubled b m) u = answered at still ⊢
      have kept : Files P answered.2 := by rwa [Files, still]
      split
      · exact kept
      · exact kept
    refine .bind look fun magic => ?_
    dsimp only
    split
    · exact .bind (.throw _) fun _ => .pure _
    · exact .pure _
  unfold Compile.assemble
  dsimp only
  split
  · exact .bind (.pure _) fun _ => tail _
  · exact .bind ((createDirectories_changes _).keeps created) fun _ => .bind (convert_keeps written)
      fun _ => .bind (.pure _) fun _ => tail _
  · exact .bind (.throw _) fun _ => tail _

/-- No name has two endings. -/
theorem text_ne_binary (stem other : Bytes) : stem ++ utf8 ".ll" ≠ other ++ utf8 ".bc" := by
  intro same
  have ends := List.suffix_or_suffix_of_suffix (List.suffix_append _ (utf8 ".ll"))
    (same ▸ List.suffix_append _ (utf8 ".bc"))
  exact absurd ends (by decide)

/-- Assembling into the output directory changes no entry but its result. -/
theorem assemble_holds (sited : Sited b c) {entry : Bytes} {node : Option Node} {p : Path}
    (other : entry ≠ utf8 (Plan.stemOf p) ++ utf8 ".bc") :
    Keeps (troubled b m) (Files (Holds (b.place c.outputRoot ++ [entry]) node))
      (Compile.assemble c p (Path.absolute c.startDirectory c.outputRoot)) := by
  refine assemble_keeps (fun t u holds made => ?_) fun t bytes holds => ?_
  · rw [place_root sited] at made
    exact createDirectories_holds made holds
  · refine (put_other _ ?_).trans holds
    rw [assembly_place sited]
    intro equal
    exact other (by simpa using equal)

/-- Whether what stands at a place is what a tool made that was started since a state. -/
def MadeBy (b : Bench) (command : Command) (place : Place) (before t : State) : Prop :=
  Since before command t ∧ ∃ u node, Free place u ∧ Holds place (some node) (b.carryOut command u).1 ∧
    Holds place (some node) t.tree

/-- What a run that goes on from a state has left at a place: nothing, or what a tool made. -/
def Left (b : Bench) (command : Command) (place : Place) (before : State) (u : State × Nat) : Prop :=
  before.started <+: u.1.started ∧ (Free place u.1.tree ∨ MadeBy b command place before u.1)

theorem Keeps.left {place : Place} {a : Action ε α} {before : State} {command : Command}
    (h : ∀ node, Keeps (troubled b m) (Files (Holds place node)) a) :
    Keeps (troubled b m) (Left b command place before) a := by
  rintro u ⟨later, left⟩
  have grown := @exec_started b m _ _ a u
  refine ⟨later.trans grown, ?_⟩
  rcases left with free | ⟨since, w, node, free, made, there⟩
  · exact .inl (h none u free)
  · exact .inr ⟨since.later grown, w, node, free, made, h (some node) u there⟩

theorem Ran.left {place : Place} {before s t : State} {command : Command} {result : Except ε α}
    (ran : Ran b s command result t) (later : before.started <+: s.started) (free : Free place s.tree)
    (n : Nat) : Left b command place before (t, n) := by
  cases ran with
  | refused e => exact ⟨later, .inl free⟩
  | abandoned e => exact ⟨later.trans (List.prefix_append _ _), .inl free⟩
  | carried =>
    refine ⟨later.trans (List.prefix_append _ _), ?_⟩
    cases made : (b.carryOut command s.tree).1.node? place with
    | none => exact .inl made
    | some node => exact .inr ⟨Since.after later command, s.tree, node, free, made, made⟩

theorem Ran.since {before s t : State} {command : Command} {value : α}
    (ran : Ran b s command (.ok value : Except ε α) t) (later : before.started <+: s.started) :
    Since before command t := by
  cases ran with
  | carried => exact Since.after later command

/-- How a reduction of IR ends: with the minimizer started, or with nothing left but what the
minimizer made. -/
theorem reduceIr_ends (sited : Sited b c) (ir : Path) (before : State) {place : Place}
    (isPlace : place =
      b.place (Path.absolute c.startDirectory c.outputRoot / Path.ofString (Reduce.irName ir))) :
    Ends (troubled b m) (From before (Free place)) (Reduce.reduceIr c ir) fun result u =>
      match result with
      | .ok _ => Since before (irCommand c ir) u.1
      | .error _ => Free place u.1.tree ∨ MadeBy b (irCommand c ir) place before u.1 := by
  have minimized : Ends (troubled b m) (From before (Free place))
      (Reduce.minimize c (irCommand c ir) ir) fun result u =>
        match result with
        | .ok _ => Left b (irCommand c ir) place before u ∧ Since before (irCommand c ir) u.1
        | .error _ => Left b (irCommand c ir) place before u := by
    refine (minimize_going _ _ _).mono ?_
    rintro result ⟨t, n⟩ ⟨s, later, free, ran⟩
    cases result with
    | ok done => exact ⟨Ran.left ran later free n, Ran.since ran later⟩
    | error e => exact Ran.left ran later free n
  have assembled : Keeps (troubled b m) (Left b (irCommand c ir) place before)
      ((Compile.assemble c (Path.absolute c.startDirectory c.outputRoot /
        Path.ofString (Reduce.irName ir)) (Path.absolute c.startDirectory c.outputRoot)).adapt
          ReduceError.compile) := by
    rw [isPlace, place_reducedIr sited]
    exact .adapt (Keeps.left fun _ => assemble_holds sited (text_ne_binary _ _))
  unfold Reduce.reduceIr
  refine .bind (isPlace ▸ exists_ends) (fun found => .knowing fun missing => ?_) fun _ _ h => by cases h.1
  obtain rfl := Except.ok.inj missing
  simp only [Bool.false_eq_true, if_false]
  refine .bind (Keeps.going (log_keeps _ _)) (fun _ => .bind minimized (fun _ => ?_) fun _ _ left => left.2)
    fun _ _ h => .inl h.2
  exact .bind (assembled.and Keeps.since) (fun _ _ h => h.2) fun _ _ h => h.1.2

/-! ## Reducing sources -/

/-- Whether an error tells that the directory of a minimizer's script, or the script, could not be
made. -/
def Scriptless (c : Config) (e : ReduceError) : Prop :=
  ∃ path cause, e = .files path cause ∧ (path = Path.absolute c.startDirectory c.outputRoot ∨
    ∃ directory : Path, path = directory / Path.ofString "interesting.sh")

/-- What a step leaves that keeps something of the files, or ends in an error about a path. -/
def KeptOr (P : FileTree → Prop) (path : Path) : Except ReduceError α → FileTree → Prop
  | .ok _ => P
  | .error e => fun _ => ∃ cause, e = .files path cause

theorem Changes.keptOr {P : FileTree → Prop} {p : Program (Except Failure Unit)} {path : Path}
    {operate : FileTree → Except Failure FileTree} {before : State} (changes : Changes b m p operate)
    (kept : ∀ t u, P t → operate t = .ok u → P u) :
    Ends (troubled b m) (From before P) (Action.orFail p (ReduceError.files path))
      fun result => From before (KeptOr P path result) :=
  Ends.going (changes.ends kept fun _ cause _ => ⟨cause, rfl⟩)

theorem temporaryDirectory_keptOr {P : FileTree → Prop} {first last : String} {path : Path}
    {before : State} (kept : ∀ t u q, P t → createDirectory t q = .ok u → P u) :
    Ends (troubled b m) (From before P)
      (Action.orFail (Program.temporaryDirectory first last) (ReduceError.files path))
      fun result => From before (KeptOr P path result) := by
  refine Ends.going (.orFail fun ⟨s, n⟩ holds => ?_)
  rcases troubled_cases b m (.temporaryDirectory first last) s n with
    ⟨cause, answer, refused, ran⟩ | ran
  · obtain rfl : Except.error cause = answer := Option.some.inj refused
    have run : (Program.temporaryDirectory first last).run (troubled b m) (s, n) =
        (.error cause, s, n + 1) := ran
    rw [run]
    exact ⟨cause, rfl⟩
  · have run : (Program.temporaryDirectory first last).run (troubled b m) (s, n) =
        ((b.makeTemporary s b.temporary first last createDirectory).1,
          (b.makeTemporary s b.temporary first last createDirectory).2, n + 1) := ran
    rw [run]
    unfold Bench.makeTemporary
    dsimp only
    split
    · rename_i u made
      exact kept _ _ _ holds made
    · exact ⟨_, rfl⟩

theorem makeExecutable_keptOr {P : FileTree → Prop} {p path : Path} {before : State} :
    Ends (troubled b m) (From before P) (Action.orFail (Program.makeExecutable p) (ReduceError.files path))
      fun result => From before (KeptOr P path result) := by
  refine Ends.going (.orFail fun ⟨s, n⟩ holds => ?_)
  have still : ((Program.makeExecutable p).run (troubled b m) (s, n)).2 = (s, n + 1) :=
    @troubled_still b m (.file (.makeExecutable p)) s rfl n
  generalize (Program.makeExecutable p).run (troubled b m) (s, n) = answered at still ⊢
  obtain ⟨answer, u⟩ := answered
  obtain rfl := still
  cases answer with
  | ok _ => exact holds
  | error cause => exact ⟨cause, rfl⟩

/-- Removing a file is never refused. -/
theorem remove_run {p : Path} {u : State × Nat} (there : Filed (b.place p) u.1.tree) :
    Free (b.place p) ((Program.remove p).run (troubled b m) u).2.1.tree := by
  have ran : (Program.remove p).run (troubled b m) u =
      ((Bench.change u.1 (Trees.remove u.1.tree (b.place p))).1,
        (Bench.change u.1 (Trees.remove u.1.tree (b.place p))).2, u.2 + 1) := by
    rcases troubled_cases b m (.file (.remove p)) u.1 u.2 with ⟨_, _, refused, -⟩ | ran
    · cases refused
    · exact ran
  obtain ⟨t, removed, free⟩ := remove_free there
  rw [ran, removed]
  exact free

theorem removeTree_run {place : Place} {node : Option Node} {p : Path} {u : State × Nat}
    (apart : node ≠ none → ¬ b.place p <+: place) (holds : Holds place node u.1.tree) :
    Holds place node ((Program.removeTree p).run (troubled b m) u).2.1.tree := by
  have ran : (Program.removeTree p).run (troubled b m) u =
      ((Bench.change u.1 (Trees.removeTree u.1.tree (b.place p))).1,
        (Bench.change u.1 (Trees.removeTree u.1.tree (b.place p))).2, u.2 + 1) := by
    rcases troubled_cases b m (.file (.removeTree p)) u.1 u.2 with ⟨_, _, refused, -⟩ | ran
    · cases refused
    · exact ran
  rw [ran]
  cases removed : Trees.removeTree u.1.tree (b.place p) with
  | ok t => exact removeTree_holds removed apart holds
  | error cause => exact holds

/-- A line of the log is written for sure. -/
theorem log_sure {P : FileTree → Prop} {before : State} (level : Level) (message : String) :
    Ends (troubled b m) (From before P) (monadLift (Program.log level message) : Reducing Unit)
      fun result u => match result with
        | .ok _ => From before P u
        | .error _ => False := by
  refine .lift fun u holds => ?_
  have kept := @Keeps.going b m ReduceError _ P _ before (log_keeps level message) u holds
  rwa [exec_monadLift] at kept

/-- A copy that cannot be reduced is removed, unless there is no script. -/
theorem reduceCopy_ends (sited : Sited b c) (a : Artifact) (directory : Path) (before : State)
    {place : Place} (isPlace : place =
      b.place (Path.absolute c.startDirectory c.outputRoot / Path.ofString (Reduce.sourceName a))) :
    Ends (troubled b m) (From before (Filed place))
      (Reduce.reduceCopy c a (Path.absolute c.startDirectory c.outputRoot)
        (Path.absolute c.startDirectory c.outputRoot / Path.ofString (Reduce.sourceName a)) directory)
      fun result u => match result with
        | .ok _ => Since before (sourceCommand c a (directory / Path.ofString "interesting.sh")) u.1
        | .error e => Free place u.1.tree ∨ Scriptless c e := by
  obtain ⟨test, isTest⟩ : ∃ test : Path, test = directory / Path.ofString "interesting.sh" := ⟨_, rfl⟩
  have scriptless {e : ReduceError} (told : ∃ cause, e = .files test cause) : Scriptless c e := by
    obtain ⟨cause, rfl⟩ := told
    exact ⟨test, cause, rfl, .inr ⟨directory, isTest⟩⟩
  have minimized : Ends (troubled b m) (From before (Filed place))
      (Reduce.minimize c (sourceCommand c a test) a.path) fun result u =>
        match result with
        | .ok _ => Since before (sourceCommand c a test) u.1
        | .error _ => Filed place u.1.tree := by
    refine (minimize_going _ _ _).mono ?_
    rintro result ⟨t, n⟩ ⟨s, later, there, ran⟩
    cases ran with
    | refused e => exact there
    | abandoned e => exact there
    | carried =>
      have left : Filed place (b.carryOut (sourceCommand c a test) s.tree).1 := by
        rw [carryOut_sourceCommand sited]
        exact put_filed _ there
      cases result with
      | ok done => exact Since.after later _
      | error e => exact left
  unfold Reduce.reduceCopy
  rw [← isTest]
  refine .bind (Changes.keptOr (write_changes _ _) fun _ _ there made => write_filed made (.inl there))
    (fun _ => .bind makeExecutable_keptOr (fun _ => .bind (log_sure _ _)
      (fun _ => .cleaningUp minimized fun result u left => ?_) fun _ _ impossible => impossible.elim)
      fun e u told => ?_) fun e u told => ?_
  · cases result with
    | ok done => exact left
    | error e =>
      subst isPlace
      exact .inl (remove_run left)
  · exact .inr (scriptless told.2)
  · exact .inr (scriptless told.2)

theorem reduceSource_ends (sited : Sited b c) (a : Artifact) (before : State) {place : Place}
    (isPlace : place =
      b.place (Path.absolute c.startDirectory c.outputRoot / Path.ofString (Reduce.sourceName a))) :
    Ends (troubled b m) (From before (Free place)) (Reduce.reduceSource c a) fun result u =>
      match result with
      | .ok _ => ∃ test, Since before (sourceCommand c a test) u.1
      | .error e => Free place u.1.tree ∨ Scriptless c e := by
  have copied : Ends (troubled b m) (From before (Free place)) (Action.orFail (Program.copy a.path
      (Path.absolute c.startDirectory c.outputRoot / Path.ofString (Reduce.sourceName a)))
      (ReduceError.files (Path.absolute c.startDirectory c.outputRoot /
        Path.ofString (Reduce.sourceName a)))) fun result => From before fun t =>
      match result with
      | .ok _ => Filed place t
      | .error _ => Free place t :=
    Ends.going ((copy_changes _ _).ends (fun _ _ _ made => isPlace ▸ copy_filed made) fun _ _ free => free)
  have reduced (directory : Path) : Ends (troubled b m) (From before (Filed place))
      ((Reduce.reduceCopy c a (Path.absolute c.startDirectory c.outputRoot)
        (Path.absolute c.startDirectory c.outputRoot / Path.ofString (Reduce.sourceName a))
        directory).cleaningUp fun _ => do let _ ← Program.removeTree directory) fun result u =>
      match result with
      | .ok _ => ∃ test, Since before (sourceCommand c a test) u.1
      | .error e => Free place u.1.tree ∨ Scriptless c e := by
    refine .cleaningUp (reduceCopy_ends sited a directory before isPlace) fun result u left => ?_
    rw [run_bind]
    cases result with
    | ok done => exact ⟨_, left.later (run_started (Program.removeTree directory) u)⟩
    | error e => exact left.imp_left (removeTree_run fun some => absurd rfl some)
  unfold Reduce.reduceSource
  refine .bind (isPlace ▸ exists_ends) (fun found => .knowing fun missing => ?_) fun _ _ h => by cases h.1
  obtain rfl := Except.ok.inj missing
  simp only [Bool.false_eq_true, if_false]
  refine .bind copied (fun _ => .bind (temporaryDirectory_keptOr fun _ _ _ there made =>
    createDirectory_filed made there) (fun directory => .bind (reduced directory)
      (fun _ _ started => started) fun _ _ left => left) fun e u told => ?_) fun _ _ h => .inl h.2
  obtain ⟨cause, rfl⟩ := told.2
  exact .inr ⟨_, cause, rfl, .inl rfl⟩

/-! ## Dispatching -/

/-- The path that the reduced form of a variant goes to. -/
def reducedPath (c : Config) (a : Artifact) (v : Variant) : Path :=
  let root := Path.absolute c.startDirectory c.outputRoot
  match Backend.of a with
  | .irLevel => root / Path.ofString (Reduce.irName v.irPath)
  | .sourceLevel => root / Path.ofString (Reduce.sourceName a)

/-- Whether a call is one of the minimizer that fits an artifact. -/
def Minimizes (c : Config) (a : Artifact) (v : Variant) (command : Command) : Prop :=
  match Backend.of a with
  | .irLevel => command = irCommand c v.irPath
  | .sourceLevel => ∃ test, command = sourceCommand c a test

/-- What leaves the reduced form of an artifact behind: that the minimizer for IR has written it,
or that there is no script to reduce the copy of a source by. -/
def Excepted (b : Bench) (c : Config) (a : Artifact) (v : Variant) (before t : State)
    (e : ReduceError) : Prop :=
  match Backend.of a with
  | .irLevel => MadeBy b (irCommand c v.irPath) (b.place (reducedPath c a v)) before t
  | .sourceLevel => Scriptless c e

/-- Reduced forms are entries of the output directory, and none is named like what is kept. -/
theorem reducedPath_entry (sited : Sited b c) (a : Artifact) (v : Variant) :
    ∃ entry : Bytes, b.place (reducedPath c a v) = b.place c.outputRoot ++ [entry] ∧
      entry.head? ≠ some keptSign := by
  unfold reducedPath
  cases Backend.of a with
  | irLevel =>
    refine ⟨_, place_reducedIr sited v.irPath, ?_⟩
    have first : (utf8 "reduced-").head? = some 0x72 := by decide
    rw [utf8_append, List.append_assoc, List.head?_append, first, Option.some_or]
    decide
  | sourceLevel =>
    refine ⟨_, place_reducedSource sited a, ?_⟩
    have first : (utf8 "source-reduced-").head? = some 0x73 := by decide
    rw [sourceName_eq, utf8_append, List.head?_append, first, Option.some_or]
    decide

/-- How a dispatch ends from where there is no reduced form: with a minimizer started, or without
a reduced form but for the exceptions. -/
theorem dispatch_ends (sited : Sited b c) (a : Artifact) {v : Variant}
    (clean : '/' ∉ v.name.toList) (before : State) :
    Ends (troubled b m) (From before (Free (b.place (reducedPath c a v)))) (Reduce.dispatch c a v)
      fun result u => match result with
        | .ok _ => ∃ command, Minimizes c a v command ∧ Since before command u.1
        | .error e => Free (b.place (reducedPath c a v)) u.1.tree ∨ Excepted b c a v before u.1 e := by
  obtain ⟨entry, place, other⟩ := reducedPath_entry sited a v
  have kept : Keeps (troubled b m) (From before (Free (b.place (reducedPath c a v))))
      (Reduce.preserve c v) := by
    rw [place]
    exact Keeps.going (preserve_spares clean other)
  unfold Reduce.dispatch
  refine .bind kept (fun _ => ?_) fun _ _ left => .inl left.2
  clear kept place
  unfold Minimizes Excepted reducedPath
  cases Backend.of a with
  | irLevel =>
    refine (reduceIr_ends sited v.irPath before rfl).mono fun result u ended => ?_
    cases result with
    | ok _ => exact ⟨_, rfl, ended⟩
    | error e => exact ended
  | sourceLevel =>
    refine (reduceSource_ends sited a before rfl).mono fun result u ended => ?_
    cases result with
    | ok _ =>
      obtain ⟨test, started⟩ := ended
      exact ⟨_, ⟨test, rfl⟩, started⟩
    | error e => exact ended

/-- A failed reduction, whatever went wrong and wherever, leaves no reduced form where there was
none, so that a rerun succeeds by a minimizer only; but for a reduced form of IR as the minimizer
has written it, and for the copy of a source that there was no script for. -/
theorem failed_dispatch_leaves (sited : Sited b c) (a : Artifact) {v : Variant}
    (named : v.irPath.fileName?.isSome) {s t : State} {n k : Nat} {e : ReduceError}
    (missing : Trees.exists s.tree (b.place (reducedPath c a v)) = false)
    (failed : exec (troubled b m) (s, n) (Reduce.dispatch c a v) = (.error e, t, k)) :
    (Trees.exists t.tree (b.place (reducedPath c a v)) = false ∧
      ∀ (later : Mishaps) (j : Nat) (reduced : Path) (u : State) (i : Nat),
        exec (troubled b later) (t, j) (Reduce.dispatch c a v) = (.ok reduced, u, i) →
        ∃ command, Minimizes c a v command ∧ Since t command u) ∨
      Excepted b c a v s t e := by
  obtain ⟨name, isName⟩ := Option.isSome_iff_exists.mp named
  have clean : '/' ∉ v.name.toList := slash_notMem_name isName
  have free : Free (b.place (reducedPath c a v)) s.tree := by
    simpa [Trees.exists, Free, Holds] using missing
  have ended := dispatch_ends (m := m) sited a clean s (s, n) ⟨List.prefix_refl _, free⟩
  rw [failed] at ended
  refine ended.imp_left fun left => ⟨?_, fun later j reduced u i again => ?_⟩
  · rw [Trees.exists, show t.tree.node? (b.place (reducedPath c a v)) = none from left]
    rfl
  · have endedAgain := dispatch_ends (m := later) sited a clean t (t, j) ⟨List.prefix_refl _, left⟩
    rw [again] at endedAgain
    exact endedAgain

/-! ## A failed reduction of each kind -/

/-- Tools of which the minimizers write half of a program and fail. -/
def halfway : Toolbox where
  starts _ _ := true
  streams _ := ([], [])
  compile _ _ _ := ⟨.ended (.exited 1), none⟩
  convert _ _ := ⟨.ended (.exited 1), none⟩
  facts _ _ _ := ⟨.ended (.exited 1), []⟩
  analyse _ _ _ := ⟨.ended (.exited 1), []⟩
  minimizeIr _ _ := (.exited 1, some (utf8 "; half"))
  minimizeSource _ _ := (.exited 1, some (utf8 "int"))

def calm : Mishaps := ⟨fun _ => false, fun _ => none⟩

def settings : Config := { VariantKeys.plain with outputRoot := "/w/out" }

def source : Artifact := ⟨"/w/prog.c", .cSource, by decide +kernel⟩

def bitcode : Artifact := ⟨"/w/prog.bc", .binaryIr, by decide +kernel⟩

def variant : Variant := ⟨⟨"/w/prog.bc", [], "prog.bc.0123"⟩, true⟩

/-- A source and bitcode, and no output directory yet. -/
def start : State where
  tree := ⟨[([utf8 "w"], .directory), ([utf8 "tmp"], .directory),
    ([utf8 "w", utf8 "prog.c"], .file (utf8 "int x;") false),
    ([utf8 "w", utf8 "prog.bc"], .file bitcodeMagic false)]⟩
  started := []
  turns := 0

theorem settings_sited : Sited (desk halfway) settings where
  home := by decide
  absolute := by decide

/-- Whether a result tells that a minimizer failed. -/
def isMinimizerFailure : Except ReduceError α → Bool
  | .error (.minimizerFailed ..) => true
  | _ => false

theorem eq_of_isMinimizerFailure {result : Except ReduceError α} (told : isMinimizerFailure result) :
    ∃ tool input detail, result = .error (.minimizerFailed tool input detail) := by
  unfold isMinimizerFailure at told
  split at told
  · exact ⟨_, _, _, rfl⟩
  · cases told

/-- The source is reduced halfway, and nothing of it is left. -/
theorem half_source_removed : ∃ tool input detail t k,
    Trees.exists start.tree ((desk halfway).place (reducedPath settings source variant)) = false ∧
    exec (troubled (desk halfway) calm) (start, 0) (Reduce.dispatch settings source variant) =
      (.error (.minimizerFailed tool input detail), t, k) ∧
    Trees.exists t.tree ((desk halfway).place (reducedPath settings source variant)) = false := by
  have missing : Trees.exists start.tree
      ((desk halfway).place (reducedPath settings source variant)) = false := by decide +kernel
  obtain ⟨tool, input, detail, failed⟩ := @eq_of_isMinimizerFailure _ (exec
    (troubled (desk halfway) calm) (start, 0) (Reduce.dispatch settings source variant)).1
    (by decide +kernel)
  have ran : exec (troubled (desk halfway) calm) (start, 0) (Reduce.dispatch settings source variant) =
      (.error (.minimizerFailed tool input detail), _, _) := Prod.ext failed rfl
  refine ⟨tool, input, detail, _, _, missing, ran, ?_⟩
  rcases failed_dispatch_leaves settings_sited source (by decide) missing ran with
    left | excepted
  · exact left.1
  · obtain ⟨path, cause, same, -⟩ : Scriptless settings (.minimizerFailed tool input detail) := excepted
    cases same

/-- Bitcode that is reduced halfway is left behind. -/
theorem half_ir_left_behind :
    ¬ ∀ (b : Bench) (c : Config) (m : Mishaps) (a : Artifact) (v : Variant) (s t : State) (n k : Nat)
        (e : ReduceError), Sited b c → v.irPath.fileName?.isSome →
        Trees.exists s.tree (b.place (reducedPath c a v)) = false →
        exec (troubled b m) (s, n) (Reduce.dispatch c a v) = (.error e, t, k) →
        Trees.exists t.tree (b.place (reducedPath c a v)) = false := by
  intro leaves
  obtain ⟨tool, input, detail, failed⟩ := @eq_of_isMinimizerFailure _ (exec
    (troubled (desk halfway) calm) (start, 0) (Reduce.dispatch settings bitcode variant)).1
    (by decide +kernel)
  have left := leaves (desk halfway) settings calm bitcode variant start _ 0 _ _ settings_sited
    (by decide) (by decide +kernel) (Prod.ext failed rfl)
  have there : Trees.exists (exec (troubled (desk halfway) calm) (start, 0)
      (Reduce.dispatch settings bitcode variant)).2.1.tree
      ((desk halfway).place (reducedPath settings bitcode variant)) = true := by decide +kernel
  rw [there] at left
  cases left

end BugHunt.Proofs.FailedReduction
