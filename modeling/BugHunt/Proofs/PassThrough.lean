import BugHunt.CommandLine
import BugHunt.Proofs.AbsoluteForms
/-!
Reading the arguments of the recursive call back: the options that they stand for hold the paths,
the worker counts and the engine of the configuration that wrote them.
-/

namespace BugHunt.Proofs.PassThrough
open CommandLine Texts AbsoluteForms

/-- Reads a word that stands for an option: what is set by it, and the setting that it leaves without
a value. -/
def begin? (o : Options) (word : String) : Option (Options × Option Setting) :=
  match utf8 word with
  | 0x2D :: 0x2D :: text => (readLong o text).toOption
  | _ => none

/-- Reads words as options: a switch stands alone, a setting takes the next word, whatever that
is. -/
def readBack (o : Options) (wanting : Option Setting) : List String → Option Options
  | [] => if wanting.isSome then none else some o
  | word :: rest =>
    match wanting with
    | some setting => (assign? o (utf8 word) setting).bind fun o => readBack o none rest
    | none => (begin? o word).bind fun next => readBack next.1 next.2 rest

/-- The word that a setting stands for. -/
def word : Setting → String
  | .cores => "--cores"
  | .processes => "--processes"
  | .buildRoot => "--build-root"
  | .directory => "--directory"
  | .analysis => "--analysis"
  | .config => "--config"
  | .cacheDir => "--cache-dir"
  | .outputDir => "--output-dir"
  | .contextSensitivity => "--context-sensitivity"
  | .project => "--project"
  | .libraryDir => "--library-dir"

/-- Settings with their values, as words. -/
def spell (settings : List (Setting × String)) : List String :=
  settings.flatMap fun told => [word told.1, told.2]

/-- The options after settings got their values. -/
def assignAll (o : Options) (settings : List (Setting × String)) : Option Options :=
  settings.foldlM (fun o told => assign? o (utf8 told.2) told.1) o

theorem begin?_word (o : Options) (setting : Setting) :
    begin? o (word setting) = some (o, some setting) := by
  have isWord : (utf8 (word setting)).take 2 = [0x2D, 0x2D] ∧
      0x3D ∉ (utf8 (word setting)).drop 2 ∧
      Switch.ofName? ((utf8 (word setting)).drop 2) = none ∧
      Setting.ofName? ((utf8 (word setting)).drop 2) = some setting := by
    cases setting <;> decide
  obtain ⟨dashes, plain, noSwitch, isSetting⟩ := isWord
  have cut := List.take_append_drop 2 (utf8 (word setting))
  rw [dashes] at cut
  rw [begin?, ← cut]
  generalize (utf8 (word setting)).drop 2 = text at plain noSwitch isSetting
  have name : text.takeWhile (· != 0x3D) = text := by
    have all := @List.takeWhile_append_of_pos _ (· != 0x3D) text []
      (fun b found => by simpa using fun same : b = 0x3D => plain (same ▸ found))
    simpa using all
  simp [readLong, name, noSwitch, isSetting, Except.toOption]

theorem begin?_interpreter {o : Options} (off : o.interpreter = false) :
    begin? o "--interpreter" = some ({ o with interpreter := true }, none) := by
  have dashes : utf8 "--interpreter" = 0x2D :: 0x2D :: utf8 "interpreter" := by decide
  have name : (utf8 "interpreter").takeWhile (· != 0x3D) = utf8 "interpreter" := by decide
  have isSwitch : Switch.ofName? (utf8 "interpreter") = some .interpreter := by decide
  rw [begin?, dashes]
  simp only [readLong, name, isSwitch, List.drop_length, List.tail?_nil, turnOn, turn, off]
  rfl

theorem readBack_spell (o : Options) (settings : List (Setting × String)) (rest : List String) :
    readBack o none (spell settings ++ rest) =
      (assignAll o settings).bind fun o => readBack o none rest := by
  induction settings generalizing o with
  | nil => rfl
  | cons first more ih =>
    have cut : spell (first :: more) ++ rest =
        word first.1 :: first.2 :: (spell more ++ rest) := by
      simp [spell]
    rw [cut, readBack]
    simp only [begin?_word, Option.bind_some]
    rw [readBack, assignAll, List.foldlM_cons]
    cases assign? o (utf8 first.2) first.1 with
    | none => rfl
    | some next => exact ih next

/-! ## The settings that are handed on -/

/-- The settings of every recursive call, with their values. -/
def handedOn (c : Config) : List (Setting × String) :=
  [(.buildRoot, c.buildRoot.display), (.analysis, c.analysis.display),
    (.cacheDir, c.cacheRoot.display), (.contextSensitivity, c.contextSensitivity),
    (.cores, toString c.jobs), (.processes, "1")] ++
  c.configFile.toList.map fun file => (.config, file.display)

/-- The settings that only a call with the interpreter gets. -/
def handedOnInterpreted (c : Config) : List (Setting × String) :=
  [(.project, c.project.display), (.libraryDir, c.libraryDir.display)]

theorem passthroughArgs_eq (c : Config) : c.passthroughArgs = spell (handedOn c) ++
    if c.engine = .interpreted then "--interpreter" :: spell (handedOnInterpreted c) else [] := by
  unfold Config.passthroughArgs handedOn
  cases c.configFile <;> cases c.engine <;> rfl

/-- What the options of the recursive call set. -/
def recalled (c : Config) : Options where
  cores := some c.jobs
  processes := some 1
  buildRoot := some c.buildRoot
  analysis := some c.analysis
  cacheRoot := some c.cacheRoot
  contextSensitivity := some c.contextSensitivity
  configFile := c.configFile
  interpreter := c.engine = .interpreted
  project := if c.engine = .interpreted then some c.project else none
  libraryDir := if c.engine = .interpreted then some c.libraryDir else none

/-- A path that can be given on the command line and is shown as it is. -/
structure Given (p : Path) : Prop where
  some : p.bytes ≠ []
  textual : Textual p

/-- A configuration whose paths can be handed on as words, and whose worker count is a number of
the machine. -/
structure Worded (c : Config) : Prop where
  buildRoot : Given c.buildRoot
  analysis : Given c.analysis
  cacheRoot : Given c.cacheRoot
  configFile : ∀ file, c.configFile = some file → Given file
  project : Given c.project
  libraryDir : Given c.libraryDir
  jobs : c.jobs ≤ largest

theorem path?_display {p : Path} (given : Given p) : path? (utf8 p.display) = some p := by
  obtain ⟨some, text, rfl⟩ := given
  rw [display_ofString]
  exact if_neg some

theorem digit_range {c : Char} (digit : c.isDigit) : 48 ≤ c.toNat ∧ c.toNat ≤ 57 := by
  simp only [Char.isDigit, Bool.and_eq_true, decide_eq_true_eq] at digit
  exact digit

theorem toNat_digit {c : Char} (digit : c.isDigit) : (UInt8.ofNat c.toNat).toNat = c.toNat :=
  toNat_ofNat (by have := digit_range digit; omega)

theorem utf8_digit {c : Char} (digit : c.isDigit) :
    String.utf8EncodeChar c = [UInt8.ofNat c.toNat] := by
  have small : c.val.toNat ≤ 0x7F := Nat.le_trans (digit_range digit).2 (by decide)
  unfold String.utf8EncodeChar
  dsimp only
  rw [if_pos small]
  rfl

theorem utf8_digits {digits : List Char} (all : ∀ c ∈ digits, c.isDigit) :
    utf8 (String.ofList digits) = digits.map fun c => UInt8.ofNat c.toNat := by
  rw [utf8, String.toList_ofList]
  induction digits with
  | nil => rfl
  | cons c rest ih =>
    rw [List.forall_mem_cons] at all
    rw [List.flatMap_cons, utf8_digit all.1, ih all.2]
    rfl

theorem number?_digits {digits : List Char} (all : ∀ c ∈ digits, c.isDigit) (some : digits ≠ [])
    (small : Nat.ofDigitChars 10 digits 0 ≤ largest) :
    number? (utf8 (String.ofList digits)) = Option.some (Nat.ofDigitChars 10 digits 0) := by
  obtain ⟨first, rest, rfl⟩ := List.exists_cons_of_ne_nil some
  have value : (utf8 (String.ofList (first :: rest))).foldl
      (fun n b => 10 * n + (b.toNat - 48)) 0 = Nat.ofDigitChars 10 (first :: rest) 0 := by
    rw [utf8_digits all, List.foldl_map, Nat.ofDigitChars_eq_foldl]
    generalize first :: rest = digits at all
    generalize 0 = start
    induction digits generalizing start with
    | nil => rfl
    | cons c more ih =>
      rw [List.forall_mem_cons] at all
      rw [List.foldl_cons, List.foldl_cons, toNat_digit all.1]
      exact ih all.2 _
  have noSign : UInt8.ofNat first.toNat ≠ 0x2B := by
    intro same
    have number := toNat_digit (all first List.mem_cons_self)
    have range := digit_range (all first List.mem_cons_self)
    rw [same] at number
    have : (0x2B : UInt8).toNat = 43 := rfl
    omega
  have inRange : (utf8 (String.ofList (first :: rest))).any (fun b => b < 0x30 || 0x39 < b) = false := by
    rw [List.any_eq_false, utf8_digits all]
    intro b found
    obtain ⟨c, isDigit, rfl⟩ := List.mem_map.mp found
    have number := toNat_digit (all c isDigit)
    have range := digit_range (all c isDigit)
    simp only [Bool.or_eq_true, decide_eq_true_eq, UInt8.lt_iff_toNat_lt, number, UInt8.reduceToNat]
    omega
  rw [utf8_digits all, List.map_cons] at value inRange ⊢
  unfold number?
  split
  · rename_i same
    exact absurd (List.cons.inj same).1 noSign
  · dsimp only
    rw [inRange, value, if_pos small]
    rfl

theorem number?_toString {n : Nat} (small : n ≤ largest) : number? (utf8 (toString n)) = some n := by
  have value : Nat.ofDigitChars 10 (Nat.toDigits 10 n) 0 = n := Nat.ofDigitChars_ten_toDigits
  have read := @number?_digits (Nat.toDigits 10 n)
    (fun _ => Nat.isDigit_of_mem_toDigits (by decide) (by decide)) Nat.toDigits_ne_nil
    (by rwa [value])
  rwa [value] at read

/-- What the settings of every recursive call set. -/
theorem assignAll_handedOn {c : Config} (worded : Worded c) (testOnly : Bool) :
    assignAll { testOnly } (handedOn c) = some { recalled c with
      testOnly, interpreter := false, project := none, libraryDir := none } := by
  have one : number? (utf8 "1") = some 1 := by decide
  have jobs := number?_toString worded.jobs
  have file := worded.configFile
  simp only [assignAll, handedOn, List.cons_append, List.nil_append, List.foldlM_cons, assign?, once,
    path?_display worded.buildRoot, path?_display worded.analysis, path?_display worded.cacheRoot,
    decode?_utf8, jobs, one]
  cases isFile : c.configFile with
  | none => simp [recalled, isFile]
  | some path => simp [recalled, isFile, path?_display (file path isFile)]

theorem assignAll_handedOnInterpreted {c : Config} (worded : Worded c) {o : Options}
    (noProject : o.project = none) (noLibraryDir : o.libraryDir = none) :
    assignAll o (handedOnInterpreted c) =
      some { o with project := some c.project, libraryDir := some c.libraryDir } := by
  simp [assignAll, handedOnInterpreted, assign?, once, path?_display worded.project,
    path?_display worded.libraryDir, noProject, noLibraryDir]

/-- The arguments of the recursive call are read back as what they were written from. -/
theorem readBack_passthroughArgs {c : Config} (worded : Worded c) :
    readBack {} none c.passthroughArgs = some (recalled c) := by
  rw [passthroughArgs_eq, readBack_spell, assignAll_handedOn worded, Option.bind_some]
  split
  · rename_i interpreted
    have spelled := readBack_spell { recalled c with
      testOnly := false, interpreter := true, project := none, libraryDir := none }
      (handedOnInterpreted c) []
    rw [List.append_nil, assignAll_handedOnInterpreted worded rfl rfl, Option.bind_some] at spelled
    rw [readBack]
    simp only [begin?_interpreter, Option.bind_some, spelled]
    simp [readBack, recalled, interpreted]
  · rename_i compiled
    simp [readBack, recalled, compiled]

/-! ## On the command line -/

/-- Whether a value would be taken for options where a command line is read. -/
def isDashed (value : Bytes) : Bool := value.head? = some dash && 1 < value.length

theorem read_value {value : Bytes} (undashed : isDashed value = false) {o o' : Options}
    {setting : Setting} (assigned : assign? o value setting = some o') (rest : List Bytes) :
    read o (some setting) (value :: rest) = read o' none rest := by
  unfold isDashed at undashed
  rw [CommandLine.read, undashed]
  simp only [Bool.false_eq_true, if_false, assign, assigned]
  rfl

/-- An option that begins alone begins on the command line. -/
theorem read_begin {o : Options} {word : String} {next : Options × Option Setting}
    (begins : begin? o word = some next) (rest : List Bytes) :
    read o none (utf8 word :: rest) = read next.1 next.2 rest := by
  unfold begin? at begins
  split at begins
  · rename_i text dashes
    have long : readLong o text = .ok next := by
      cases isLong : readLong o text with
      | ok value => simpa [isLong, Except.toOption] using begins
      | error e => simp [isLong, Except.toOption] at begins
    have some : text ≠ [] := by
      rintro rfl
      cases long
    have dashed : ((0x2D :: 0x2D :: text : Bytes).head? = Option.some dash &&
        1 < (0x2D :: 0x2D :: text : Bytes).length) = true := by
      simp [dash]
    have plain : (0x2D :: 0x2D :: text : Bytes) ≠ [dash, dash] := by
      simpa [dash] using some
    rw [CommandLine.read, dashes, dashed]
    simp only [if_true, Option.isSome_none, Bool.false_eq_true, if_false, plain, long]
    rfl
  · cases begins

theorem read_spell {o o' : Options} {settings : List (Setting × String)}
    (undashed : ∀ told ∈ settings, isDashed (utf8 told.2) = false)
    (assigned : assignAll o settings = some o') (rest : List Bytes) :
    read o none ((spell settings).map utf8 ++ rest) = read o' none rest := by
  induction settings generalizing o with
  | nil =>
    obtain rfl := Option.some.inj assigned
    rfl
  | cons first more ih =>
    rw [List.forall_mem_cons] at undashed
    rw [assignAll, List.foldlM_cons] at assigned
    obtain ⟨next, isNext, later⟩ := Option.bind_eq_some_iff.mp assigned
    have cut : (spell (first :: more)).map utf8 ++ rest =
        utf8 (word first.1) :: utf8 first.2 :: ((spell more).map utf8 ++ rest) := by
      simp [spell]
    rw [cut, read_begin (begin?_word o first.1), read_value undashed.1 isNext]
    exact ih undashed.2 later

/-- The arguments of the recursive call on a candidate. -/
def recursiveCall (c : Config) (candidate : Bytes) : List Bytes :=
  utf8 "--no-reduce" :: c.passthroughArgs.map utf8 ++ [candidate]

/-- What a command line can hold of the values of a recursive call. -/
structure Undashed (c : Config) (candidate : Bytes) : Prop where
  settings : ∀ told ∈ handedOn c ++ handedOnInterpreted c, isDashed (utf8 told.2) = false
  plain : isDashed candidate = false
  named : candidate ≠ []

theorem begin?_noReduce : begin? {} "--no-reduce" = some ({ testOnly := true }, none) := by
  have dashes : utf8 "--no-reduce" = 0x2D :: 0x2D :: utf8 "no-reduce" := by decide
  have name : (utf8 "no-reduce").takeWhile (· != 0x3D) = utf8 "no-reduce" := by decide
  have isSwitch : Switch.ofName? (utf8 "no-reduce") = some .noReduce := by decide
  rw [begin?, dashes]
  simp only [readLong, name, isSwitch, List.drop_length, List.tail?_nil, turnOn, turn]
  rfl

theorem read_candidate {candidate : Bytes} (plain : isDashed candidate = false)
    (named : candidate ≠ []) {o : Options} (free : o.program = none) :
    read o none [candidate] = .ok { o with program := some ⟨candidate⟩ } := by
  unfold isDashed at plain
  rw [CommandLine.read, plain]
  simp only [Bool.false_eq_true, if_false, assignProgram, once, path?, if_neg named, free]
  rfl

/-- The command line takes the recursive call for what it was written from. -/
theorem parse_recursiveCall {c : Config} {candidate : Bytes} (worded : Worded c)
    (undashed : Undashed c candidate) : parse (recursiveCall c candidate) =
      .ok { recalled c with testOnly := true, program := some ⟨candidate⟩ } := by
  have general := fun told found => undashed.settings told (List.mem_append_left _ found)
  have interpreted := fun told found => undashed.settings told (List.mem_append_right _ found)
  have arguments : read {} none (recursiveCall c candidate) =
      .ok { recalled c with testOnly := true, program := some ⟨candidate⟩ } := by
    rw [recursiveCall, List.cons_append, read_begin begin?_noReduce, passthroughArgs_eq,
      List.map_append, List.append_assoc, read_spell general (assignAll_handedOn worded true)]
    split
    · rename_i isInterpreted
      rw [List.map_cons, List.cons_append, read_begin (begin?_interpreter rfl),
        read_spell interpreted (assignAll_handedOnInterpreted worded rfl rfl),
        read_candidate undashed.plain undashed.named rfl]
      simp [recalled, isInterpreted]
    · rename_i isCompiled
      rw [List.map_nil, List.nil_append, read_candidate undashed.plain undashed.named rfl]
      simp [recalled, isCompiled]
  rw [parse, arguments]
  rfl

end BugHunt.Proofs.PassThrough
