import BugHunt.Config.Bootstrap
/-!
The command line. Switches and settings may come in any order; one argument is the program to
check. After two dashes every argument is one.
-/

namespace BugHunt

/-- What the command line asks for. -/
structure Options extends Overrides where
  program : Option Path := none
  reset : Bool := false
  fetch : Bool := false
  deriving Repr

/-- Why there is nothing to run. -/
inductive NoRun where
  | usage
  /-- The usage or the version was asked for. -/
  | shown
  deriving DecidableEq, Repr

namespace CommandLine

/-- Options without a value. -/
inductive Switch where
  | debug
  | reset
  | noReduce
  | interpreter
  | fetch
  | help
  | version
  deriving DecidableEq, Repr

/-- Options with a value. -/
inductive Setting where
  | cores
  | processes
  | buildRoot
  | directory
  | analysis
  | config
  | cacheDir
  | outputDir
  | contextSensitivity
  | project
  | libraryDir
  deriving DecidableEq, Repr

def Switch.ofName? (name : Bytes) : Option Switch :=
  [("debug", debug), ("reset", reset), ("no-reduce", noReduce), ("interpreter", interpreter),
    ("fetch", fetch), ("help", help), ("version", version)].findSome?
    fun (long, switch) => if utf8 long = name then some switch else none

def Switch.ofLetter? (letter : UInt8) : Option Switch :=
  [('d', debug), ('r', reset), ('n', noReduce), ('i', interpreter), ('h', help),
    ('V', version)].findSome?
    fun (short, switch) => if short.toNat = letter.toNat then some switch else none

def Setting.ofName? (name : Bytes) : Option Setting :=
  [("cores", cores), ("processes", processes), ("build-root", buildRoot),
    ("directory", directory), ("analysis", analysis), ("config", config),
    ("cache-dir", cacheDir), ("output-dir", outputDir),
    ("context-sensitivity", contextSensitivity), ("project", project),
    ("library-dir", libraryDir)].findSome?
    fun (long, setting) => if utf8 long = name then some setting else none

def Setting.ofLetter? (letter : UInt8) : Option Setting :=
  [('c', cores), ('p', processes), ('b', buildRoot), ('a', analysis)].findSome?
    fun (short, setting) => if short.toNat = letter.toNat then some setting else none

/-- The largest number that a word of the machine holds. -/
def largest : Nat := 0xFFFFFFFFFFFFFFFF

/-- A number in decimal digits, perhaps after a plus sign. -/
def number? (value : Bytes) : Option Nat :=
  let digits := match value with
    | 0x2B :: rest => rest
    | _ => value
  if digits.isEmpty || digits.any (fun b => b < 0x30 || 0x39 < b) then none
  else
    let n := digits.foldl (fun n b => 10 * n + (b.toNat - 48)) 0
    if n ≤ largest then some n else none

/-- A path, which cannot be empty. -/
def path? (value : Bytes) : Option Path := if value = [] then none else some ⟨value⟩

/-- Sets what is not yet set. -/
def once (current : Option α) (value : Option α) : Option (Option α) :=
  match current, value with
  | none, some value => some (some value)
  | _, _ => none

/-- The options after a setting got its value; a setting may be given once, but for directories. -/
def assign? (o : Options) (value : Bytes) : Setting → Option Options
  | .cores => do return { o with cores := ← once o.cores (number? value) }
  | .processes => do return { o with processes := ← once o.processes (number? value) }
  | .buildRoot => do return { o with buildRoot := ← once o.buildRoot (path? value) }
  | .directory => do return { o with directories := o.directories ++ [← path? value] }
  | .analysis => do return { o with analysis := ← once o.analysis (path? value) }
  | .config => do return { o with configFile := ← once o.configFile (path? value) }
  | .cacheDir => do return { o with cacheRoot := ← once o.cacheRoot (path? value) }
  | .outputDir => do return { o with outputRoot := ← once o.outputRoot (path? value) }
  | .contextSensitivity => do
    return { o with contextSensitivity := ← once o.contextSensitivity (Text.decode? value) }
  | .project => do return { o with project := ← once o.project (path? value) }
  | .libraryDir => do return { o with libraryDir := ← once o.libraryDir (path? value) }

def assign (o : Options) (value : Bytes) (setting : Setting) : Except NoRun Options :=
  (assign? o value setting).elim (.error .usage) .ok

def turn (current : Bool) (next : Options) : Except NoRun Options :=
  if current then .error .usage else .ok next

def turnOn (o : Options) : Switch → Except NoRun Options
  | .debug => turn o.debug { o with debug := true }
  | .reset => turn o.reset { o with reset := true }
  | .noReduce => turn o.testOnly { o with testOnly := true }
  | .interpreter => turn o.interpreter { o with interpreter := true }
  | .fetch => turn o.fetch { o with fetch := true }
  | .help | .version => .error .shown

def assignProgram (o : Options) (value : Bytes) : Except NoRun Options :=
  match once o.program (path? value) with
  | none => .error .usage
  | some program => .ok { o with program }

/-- Reads the arguments that stand after two dashes. -/
def readPlain (o : Options) (arguments : List Bytes) : Except NoRun Options :=
  arguments.foldlM assignProgram o

/-- Reads letters behind one dash. The answer names a setting that still wants its value. -/
def readLetters (o : Options) : Bytes → Except NoRun (Options × Option Setting)
  | [] => .ok (o, none)
  | letter :: rest =>
    match Switch.ofLetter? letter, Setting.ofLetter? letter with
    | some switch, _ => do readLetters (← turnOn o switch) rest
    | none, some setting =>
      match rest with
      | [] => .ok (o, some setting)
      | 0x3D :: value => do return (← assign o value setting, none)
      | value => do return (← assign o value setting, none)
    | none, none => .error .usage

/-- Reads what stands behind two dashes: a name, and perhaps a value after a sign of equality. -/
def readLong (o : Options) (text : Bytes) : Except NoRun (Options × Option Setting) :=
  let name := text.takeWhile (· != 0x3D)
  let value := (text.drop name.length).tail?
  match Switch.ofName? name, Setting.ofName? name, value with
  | some switch, _, none => do return (← turnOn o switch, none)
  | none, some setting, some value => do return (← assign o value setting, none)
  | none, some setting, none => .ok (o, some setting)
  | _, _, _ => .error .usage

def dash : UInt8 := 0x2D

/-- Reads the arguments; `wanting` is a setting whose value comes next. -/
def read (o : Options) (wanting : Option Setting) : List Bytes → Except NoRun Options
  | [] => if wanting.isSome then .error .usage else .ok o
  | argument :: rest =>
    if argument.head? = some dash && 1 < argument.length then
      if wanting.isSome then .error .usage
      else if argument = [dash, dash] then readPlain o rest
      else do
        let (o, wanting) ← match argument with
          | 0x2D :: 0x2D :: text => readLong o text
          | _ => readLetters o argument.tail
        read o wanting rest
    else match wanting with
      | some setting => do read (← assign o argument setting) none rest
      | none => do read (← assignProgram o argument) none rest

/-- What a list of arguments asks for. A test-only run needs a program. -/
def parse (arguments : List Bytes) : Except NoRun Options := do
  let o ← read {} none arguments
  if o.testOnly && o.program.isNone then .error .usage else .ok o

end CommandLine
end BugHunt
