import BugHunt.Proofs.Runs
/-!
What the stages come to on a bench, as functions of bytes and options alone, and what the calls of
the tools do to the files.
-/

namespace BugHunt.Proofs.Outcomes
open Trees Texts Names Places Runs Bench

/-- What compiling comes to: bitcode, no program, or an error. -/
inductive Compiled where
  | bitcode (bytes : Bytes)
  | failed
  | impossible
  deriving DecidableEq, Repr

/-- What judging comes to: a verdict, a verdict on a crash that has to be recorded, or an error. -/
inductive Judged where
  | verdict (c : Classification)
  | crash (stage : Stage) (c : Classification)
  | impossible
  deriving DecidableEq, Repr

variable (b : Bench) (c : Config)

def compileOptions (flags : List String) : List Bytes := (flags ++ c.extraArgs).map utf8

def compiled (kind : Kind) (flags : List String) (source : Bytes) : Compiled :=
  let program := Compile.compilerFor c kind
  let options := compileOptions c flags
  if b.tools.starts program options then
    let effect := b.tools.compile program options (some source)
    if effect.finish = .ended (.exited 0) then
      let bytes := effect.written.getD []
      if isBitcode bytes then .bitcode bytes else .impossible
    else .failed
  else .impossible

/-- What a tool that turns one form of IR into the other writes. -/
def converted (tool : Path) (input : Option Bytes) : Option Bytes :=
  let effect := b.tools.convert tool input
  if b.tools.starts tool [] ∧ effect.finish = .ended (.exited 0) then effect.written else none

/-- The bitcode that is judged. -/
def assembled (kind : Kind) (content : Bytes) : Option Bytes :=
  match kind with
  | .binaryIr => if isBitcode content then some content else none
  | .textIr => (converted b c.tools.llvmAs (some content)).filter isBitcode
  | _ => none

/-- The verdict on relations: all have to be there, and the first that is not empty decides. -/
def violated (results : Bytes → Option Bytes) : List String → Judged
  | [] => .verdict .uninteresting
  | relation :: rest =>
    match results (utf8 relation) with
    | none => .impossible
    | some content =>
      match Gzip.firstRead content with
      | .error _ => .impossible
      | .ok (some _) => .verdict .interesting
      | .ok none => violated results rest

def scanned (results : Bytes → Option Bytes) : Judged :=
  if c.assertions.all fun relation => (results (utf8 relation)).isSome then
    violated results c.assertions
  else .impossible

def analysisOptions : List Bytes :=
  utf8 (toString c.jobs) :: match c.engine with
    | .compiled => []
    | .interpreted =>
      [utf8 "-L", c.libraryDir.bytes, utf8 "-lFunctors", utf8 "-PSIPS:max-bound",
        c.project.bytes]

def analysed (facts : Bytes → Option Bytes) : Judged :=
  if b.tools.starts c.analysisTool (analysisOptions c) then
    let harvest := b.tools.analyse c.analysisTool (analysisOptions c) facts
    match harvest.finish with
    | .hung => .verdict .uninteresting
    | .ended status =>
      if status.isSuccess then scanned c fun name => harvest.files.lookup name
      else .crash .analysis .interesting
  else .impossible

/-- The verdict on bitcode. -/
def examined (bitcode : Bytes) : Judged :=
  let context := utf8 c.contextSensitivity
  if b.tools.starts c.tools.factgen [context] then
    let harvest := b.tools.facts c.tools.factgen context (some bitcode)
    match harvest.finish with
    | .hung => .verdict .uninteresting
    | .ended status =>
      if status.isSuccess then analysed b c fun name => harvest.files.lookup name
      else .crash .factGeneration .uninteresting
  else .impossible

/-- The verdict on IR. -/
def judged (kind : Kind) (content : Bytes) : Judged :=
  match assembled b c kind content with
  | none => .impossible
  | some bitcode => examined b c bitcode

/-! ## What a call leaves as it was -/

theorem put_other {t : FileTree} {place q : Place} (written : Option Bytes) (h : q ≠ place) :
    (put t place written).node? q = t.node? q := by
  cases written with
  | none => rfl
  | some bytes =>
    cases free : View.writable t.node? place with
    | false => simp [put, write_error bytes free, Except.toOption]
    | true =>
      obtain ⟨u, done, view⟩ := write_ok bytes free
      simp only [put, done, Except.toOption, Option.getD_some, view, View.put_other h]

/-- A directory stays one whatever is written. -/
theorem put_directory {t : FileTree} {place q : Place} (written : Option Bytes)
    (h : View.directory t.node? q) : View.directory (put t place written).node? q := by
  by_cases same : q = place
  · subst same
    cases written with
    | none => exact h
    | some bytes =>
      have refused : View.writable t.node? q = false := by simp [View.writable, h]
      simpa [put, write_error bytes refused, Except.toOption] using h
  · rw [View.directory, put_other written same]
    exact h

theorem put_change (t : FileTree) (place : Place) (written : Option Bytes) :
    Change (· = place) t.node? (put t place written).node? :=
  ⟨fun _ other => put_other written other, fun _ there => put_directory written there⟩

theorem put_written {t : FileTree} {place : Place} {bytes : Bytes}
    (free : View.writable t.node? place) :
    (put t place (some bytes)).node? place = some (.file bytes false) := by
  obtain ⟨u, done, view⟩ := write_ok bytes free
  simp only [put, done, Except.toOption, Option.getD_some, view, View.put_self]

theorem fill_other {t : FileTree} {directory q : Place} {files : List (Bytes × Bytes)}
    (h : ∀ name, q ≠ directory ++ [name]) : (fill t directory files).node? q = t.node? q := by
  induction files with
  | nil => rfl
  | cons file rest ih =>
    obtain ⟨name, bytes⟩ := file
    rw [fill, put_other _ (h name), ih]

theorem fill_directory {t : FileTree} {directory q : Place} (files : List (Bytes × Bytes))
    (h : View.directory t.node? q) : View.directory (fill t directory files).node? q := by
  induction files with
  | nil => exact h
  | cons file rest ih => exact put_directory _ ih

/-- What stands in a directory that was empty and has been filled. -/
theorem fill_node? {t : FileTree} {directory : Place} (files : List (Bytes × Bytes))
    (there : View.directory t.node? directory) (empty : ∀ name, t.node? (directory ++ [name]) = none)
    (name : Bytes) :
    (fill t directory files).node? (directory ++ [name]) =
      (files.lookup name).map (.file · false) := by
  induction files with
  | nil => exact empty name
  | cons file rest ih =>
    obtain ⟨first, bytes⟩ := file
    rw [fill]
    by_cases same : name = first
    · subst same
      have free : View.writable (fill t directory rest).node? (directory ++ [name]) := by
        have noDirectory : View.directory (fill t directory rest).node? (directory ++ [name]) =
            false := by
          rw [View.directory, ih]
          cases rest.lookup name <;> rfl
        simp [View.writable, noDirectory, fill_directory rest there]
      simp [put_written free]
    · have other : directory ++ [name] ≠ directory ++ [first] := by simpa using same
      rw [put_other _ other, ih, List.lookup_cons]
      have : (name == first) = false := by simpa using same
      rw [this]

theorem content_of_node? {t : FileTree} {place : Place} :
    content t place = match t.node? place with
      | some (.file bytes _) => some bytes
      | _ => none := by
  unfold content Trees.read
  split <;> simp_all [Except.toOption]

theorem content_eq_some {t : FileTree} {place : Place} {bytes : Bytes} :
    content t place = some bytes ↔
      ∃ executable, t.node? place = some (.file bytes executable) := by
  rw [content_of_node?]
  constructor
  · intro there
    split at there
    · rename_i found
      obtain rfl := Option.some.inj there
      exact ⟨_, found⟩
    · cases there
  · rintro ⟨executable, there⟩
    rw [there]

theorem content_fill {t : FileTree} {directory : Place} (files : List (Bytes × Bytes))
    (there : View.directory t.node? directory) (empty : ∀ name, t.node? (directory ++ [name]) = none)
    (name : Bytes) :
    content (fill t directory files) (directory ++ [name]) = files.lookup name := by
  rw [content_of_node?, fill_node? files there empty]
  cases files.lookup name <;> rfl

/-! ## The calls that the stages make -/

theorem compile_call (a : Artifact) (flags : List String) (output : Path) :
    Call.ofArguments? (Compile.command c a flags output).arguments =
      some (.compile (compileOptions c flags) a.path output) := by
  have arguments : (Compile.command c a flags output).arguments =
      utf8 "-fno-rtti" :: utf8 "-fno-discard-value-names" :: utf8 "-emit-llvm" :: utf8 "-o" ::
        output.bytes :: utf8 "-c" :: a.path.bytes :: compileOptions c flags := by
    simp [Compile.command, Command.texts, Command.text, Command.path, Command.arg,
      Command.ofProgram, compileOptions]
  rw [arguments]
  simp [Call.ofArguments?]

theorem convert_call (tool input output : Path) :
    Call.ofArguments?
        (Command.ofProgram tool |>.path input |>.text "-o" |>.path output).arguments =
      some (.convert input output) := rfl

theorem facts_call (w : Workspace) (bitcode : Path) :
    Call.ofArguments? (Oracle.factCommand c w bitcode).arguments =
      some (.facts (utf8 c.contextSensitivity) w.facts bitcode) := rfl

theorem analysis_call (w : Workspace) :
    Call.ofArguments? (Oracle.analysisCommand c w).arguments =
        some (.analyse (analysisOptions c) w.facts w.results) ∧
      (Oracle.analysisCommand c w).program = c.analysisTool := by
  have first : utf8 "-j" ≠ utf8 "-fno-rtti" := by decide
  unfold Oracle.analysisCommand
  cases engine : c.engine with
  | compiled =>
    simp [Command.texts, Command.text, Command.path, Command.arg, Command.ofProgram,
      Call.ofArguments?, first, analysisOptions, engine, Config.analysisTool]
  | interpreted =>
    cases parent : c.project.parent? <;>
    simp [Command.texts, Command.text, Command.path, Command.arg, Command.ofProgram,
      Command.within, Call.ofArguments?, first, analysisOptions, engine,
      Config.analysisTool]

end BugHunt.Proofs.Outcomes
