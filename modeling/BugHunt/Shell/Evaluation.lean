import BugHunt.Shell.Builtin
import BugHunt.Shell.Expansion
/-!
Running commands. Commands of other programs, parts of pipelines, subshells and commands in the
background run as tasks of their own.
-/

namespace BugHunt.Shell

namespace Evaluation

def pathOf (text : Text) : Path := ⟨Bytes.ofLatin text⟩

def statusOf : Status → Nat
  | .exited code => code
  | .signalled signal => 128 + signal

/-- Says which signal ended a task that was waited for. -/
def report (status : Status) : Sh Unit := do
  match status with
  | .signalled signal =>
    let text := Signal.description signal
    if text ≠ "" then Sh.ofProc (Proc.writeText 2 s!"{text}\n")
  | .exited _ => return ()

/-- Waits for a task that the shell started in the foreground. -/
def waitFor (child : Nat) : Sh Unit := do
  match ← Sh.call (.wait (some child) false) with
  | .ended _ status =>
    report status
    Sh.setStatus (statusOf status)
  | _ => Sh.setStatus 127

/-- Begins a shell of its own. Of the traps it keeps that signals are ignored, and it ends with the
command that it was begun for. -/
def begin : Sh Unit := do
  let s ← get
  s.traps.forM fun (signal, action) => do
    if !action.isEmpty && signal ≠ 0 then
      let _ ← Sh.call (.dispose signal .default)
  set { s with
    traps := s.traps.filter fun (_, action) => action.isEmpty
    loops := 0
    last := true }

/-- Why a file could not be opened, in the words of the shell. -/
def openingTrouble (creating : Bool) (errno : Errno) : String :=
  match errno, creating with
  | .noEntry, false | .notDirectory, false => "No such file"
  | .noEntry, true | .notDirectory, true => "Directory nonexistent"
  | errno, _ => errno.text

/-- Lets a descriptor stand for a file that has just been opened as another. -/
def moveTo (opened target : Nat) : Sh Unit := do
  if opened ≠ target then
    let _ ← Sh.call (.duplicate opened target)
    let _ ← Sh.call (.close opened)

/-- Opens a file as a descriptor; the answer tells whether that worked. -/
def openAs (target : Nat) (word : Text) (mode : OpenMode) : Sh Bool := do
  match ← Sh.ofProc (Proc.number (.open (pathOf word) mode)) with
  | .ok opened =>
    moveTo opened target
    return true
  | .error errno =>
    let creating := mode ≠ .read
    let verb := if creating then "create" else "open"
    Sh.complainText s!"cannot {verb} " word s!": {openingTrouble creating errno}"
    return false

/-- Lets a descriptor read a text. -/
def documentAs (target : Nat) (text : Text) : Sh Bool := do
  match ← Sh.call .pipe with
  | .numbers [readEnd, writeEnd] =>
    let _ ← Sh.ofProc (Proc.write writeEnd (Bytes.ofLatin text))
    let _ ← Sh.call (.close writeEnd)
    moveTo readEnd target
    return true
  | _ => return false

/-- Carries out one redirection; the answer tells whether it worked. -/
def redirect (output : List Entry → Sh Text) : Redirection → Sh Bool
  | .mk target kind word => do
    let text ← Expansion.text output word
    match kind with
    | .input => openAs target text .read
    | .output =>
      if (← get).has "noclobber"
          && (← Sh.ofProc (Proc.look (pathOf text) true)).toOption.any Node.isFile then
        Sh.complainText "cannot create " text ": File exists"
        return false
      else openAs target text .write
    | .overwrite => openAs target text .write
    | .append => openAs target text .append
    | .update => openAs target text .update
    | .document => documentAs target text
    | .duplicate =>
      if text = ['-'] then
        let _ ← Sh.call (.close target)
        return true
      match if text.length = 1 then Builtin.decimal? text else none with
      | none =>
        modify fun s => { s with line := s.line + 1 }
        Sh.fail "Syntax error: Bad fd number"
      | some source =>
        if source = target then return true
        match ← Sh.ofProc (Proc.asked (.duplicate source target)) with
        | .ok () => return true
        | .error errno =>
          Sh.complain s!"{source}: {errno.text}"
          return false

/-- Carries out redirections up to the first that fails. -/
def redirectAll (output : List Entry → Sh Text) : List Redirection → Sh Bool
  | [] => return true
  | redirection :: rest => do
    if ← redirect output redirection then redirectAll output rest else return false

/-- What stood for a descriptor before a redirection. -/
def keep : Redirection → Sh (Nat × Option Nat)
  | .mk target _ _ => do
    match ← Sh.call (.keep target) with
    | .number kept => return (target, some kept)
    | _ => return (target, none)

def giveBack : Nat × Option Nat → Sh Unit
  | (target, some kept) => do
    let _ ← Sh.call (.duplicate kept target)
    let _ ← Sh.call (.close kept)
  | (target, none) => do
    let _ ← Sh.call (.close target)

/-- Runs a part under redirections that are undone afterwards. One that fails is the end of a
special builtin command, and with it of the shell. -/
def under (output : List Entry → Sh Text) (redirections : List Redirection) (special : Bool)
    (part : Sh Unit) : Sh Unit := do
  if redirections.isEmpty then part
  else
    let kept ← redirections.mapM keep
    Sh.thenAlways (do
      if ← redirectAll output redirections then part
      else
        Sh.setStatus 2
        if special then throw .fault) (kept.reverse.forM giveBack)

/-- Runs the commands of a compound command, which do not end the shell if there is something to
undo. -/
def enclosed (output : List Entry → Sh Text) (redirections : List Redirection) (part : Sh Unit) :
    Sh Unit :=
  if redirections.isEmpty then part else Sh.notLast (under output redirections false part)

/-- Whether the next turn of a loop follows. -/
def turn (body : Sh Unit) : Sh Bool := do
  modify fun s => { s with loops := s.loops + 1 }
  let result ← Sh.thenAlways (tryCatch (do
      body
      return Except.ok true) fun
    | .leave n => return if n ≤ 1 then .ok false else .error (.leave (n - 1))
    | .again n => return if n ≤ 1 then .ok true else .error (.again (n - 1))
    | halt => return .error halt) (modify fun s => { s with loops := s.loops - 1 })
  match result with
  | .ok goesOn => return goesOn
  | .error halt => throw halt

/-- Runs a builtin command. An error in it ends the shell only if the command is a special one. -/
def builtin (special : Bool) (action : Sh Unit) : Sh Unit :=
  tryCatch action fun halt =>
    match halt with
    | .fault => if special then throw .fault else return ()
    | halt => throw halt

/-- The directories that programs are looked for in. -/
def searchPath (s : State) : List Text :=
  let path := (Sh.valueOf s "PATH").getD "/usr/bin:/bin".toList
  ((Bytes.splitOn 0x3A (Bytes.ofLatin path)).map Bytes.toLatin)

/-- The file that a program's name stands for, or the status that tells why there is none. -/
def findProgram (name : Text) : List Text → Bool → Proc (Except Nat Path)
  | [], denied => return .error (if denied then 126 else 127)
  | directory :: rest, denied => do
    let path := pathOf (if directory.isEmpty then name else directory ++ '/' :: name)
    match ← Proc.look path true with
    | .ok (.file _ true) => return .ok path
    | .ok (.file _ false) => findProgram name rest true
    | _ => findProgram name rest denied

def locate (s : State) (name : Text) : Proc (Except Nat Path) :=
  if name.contains '/' then return .ok (pathOf name) else findProgram name (searchPath s) false

/-- Becomes another program. -/
def become (words : List Text) : Sh Unit := do
  let s ← get
  let name := words.headD []
  match ← Sh.ofProc (locate s name) with
  | .error status =>
    Sh.complainText "" name
      (if status = 126 || name.isEmpty then ": Permission denied" else ": not found")
    Sh.exit status
  | .ok path =>
    let arguments := words.map Bytes.ofLatin
    match ← Sh.ofProc (Proc.asked (.exec path arguments (Sh.environment s))) with
    | .ok () => Sh.exit 126
    | .error .badFormat =>
      let _ ← Sh.call (.exec "/bin/sh" (utf8 "sh" :: path.bytes :: arguments.drop 1)
        (Sh.environment s))
      Sh.exit 126
    | .error .noEntry | .error .notDirectory =>
      Sh.complainText "" name ": not found"
      Sh.exit 127
    | .error errno =>
      Sh.complainText "" name s!": {errno.text}"
      Sh.exit 126

/-- The status that an argument asks for, or else the current one. -/
def statusArgument (arguments : List Text) : Sh Nat := do
  match arguments with
  | [] => return (← get).status
  | argument :: _ => return (← Builtin.natural argument) % 256

/-- How many of the loops around it a command is to leave. -/
def loopArgument (arguments : List Text) : Sh Nat := do
  let s ← get
  match arguments with
  | [] => return min 1 s.loops
  | argument :: _ =>
    let n ← Builtin.natural argument
    if n = 0 then Sh.failText "Illegal number: " argument "" else return min n s.loops

/-- Runs another program: in the place of the shell if nothing follows, else as a task of its
own. -/
def run (words : List Text) : Sh Unit := do
  let s ← get
  if s.last && s.traps.all (·.2.isEmpty) then become words
  else waitFor (← Sh.ofProc (Proc.fork (Sh.toTask s (become words))))

/-- Sets variables for one command and tells what they were. -/
def assignFor (assignments : List (String × Text)) : Sh (List (String × Option Variable)) := do
  let s ← get
  let before := assignments.map fun (name, _) => (name, s.bindings.lookup name)
  assignments.forM fun (name, value) => do
    Sh.assign name value
    modify fun s => { s with bindings := s.bindings.map fun (other, entry) =>
      if other = name then (other, { entry with exported := true }) else (other, entry) }
  return before

def restore (before : List (String × Option Variable)) : Sh Unit :=
  before.forM fun (name, old) => modify fun s =>
    match old with
    | some entry => { s with bindings := Sh.put name entry s.bindings }
    | none => { s with bindings := s.bindings.filter (·.1 ≠ name) }

/-- Writes what is about to be run, where that is asked for. -/
def trace (assignments : List (String × Text)) (words : List Text) : Sh Unit := do
  let s ← get
  if s.has "xtrace" then
    let front := (Sh.valueOf s "PS4").getD []
    let all := assignments.map (fun (name, value) => name.toList ++ '=' :: value) ++ words
    let _ ← Sh.ofProc (Proc.write 2 (Bytes.ofLatin (front ++ [' '].intercalate all ++ ['\n'])))

/-- Builtin commands that run other commands, or that leave some. -/
def isInternal (name : String) : Bool :=
  ["command", "wait", "type", "exit", "return", "break", "continue", "eval", ".",
    "exec"].contains name

/-- Tells what a command's name stands for. -/
def describe (brief : Bool) (name : Text) : Sh Nat := do
  let s ← get
  let text := String.ofList name
  let say (what : String) : Sh Nat :=
    Builtin.output
      (if brief then name ++ ['\n'] else name ++ " is ".toList ++ what.toList ++ ['\n'])
  if reserved.contains text then say "a shell keyword"
  else if (s.functions.lookup text).isSome then say "a shell function"
  else if Builtin.isSpecial text then say "a special shell builtin"
  else if (Builtin.find? text).isSome || isInternal text then say "a shell builtin"
  else
    let missing : Sh Nat := do
      if !brief then
        let _ ← Builtin.output (name ++ ": not found\n".toList)
      return 127
    match ← Sh.ofProc (locate s name) with
    | .error _ => missing
    | .ok path =>
      match ← Sh.ofProc (Proc.look path true) with
      | .ok (.file _ true) =>
        let shown := Bytes.toLatin path.bytes
        Builtin.output (if brief then shown ++ ['\n'] else name ++ " is ".toList ++ shown ++ ['\n'])
      | _ => missing

mutual

/-- Runs entries in their order. -/
def entries (list : List Entry) : Nat → Sh Unit
  | 0 => Sh.exit 2
  | fuel + 1 => do
    match list with
    | [] => return ()
    | [only] => entry only fuel
    | first :: rest =>
      Sh.notLast (entry first fuel)
      entries rest fuel
termination_by structural fuel => fuel

def entry (e : Entry) : Nat → Sh Unit
  | 0 => Sh.exit 2
  | fuel + 1 => do
    let .mk first rest background := e
    if (← get).has "noexec" then return ()
    else if background then
      let s ← get
      let task := Sh.toTask s do
        begin
        modify fun s => { s with background := none }
        let _ ← openAs 0 "/dev/null".toList .read
        finishing (chain first rest fuel) fuel
      let child ← Sh.ofProc (Proc.fork task)
      modify fun s => { s with background := some child, status := 0 }
    else chain first rest fuel
termination_by structural fuel => fuel

/-- Runs pipelines joined by "and" or "or". -/
def chain (first : Pipeline) (rest : List (Bool × Pipeline)) : Nat → Sh Unit
  | 0 => Sh.exit 2
  | fuel + 1 => do
    match rest with
    | [] => pipeline first fuel
    | (isAnd, next) :: rest =>
      Sh.notLast (Sh.tested (pipeline first fuel))
      skipping isAnd next rest fuel
termination_by structural fuel => fuel

/-- Goes on with the next pipeline if it is to be run, else with the one after it. -/
def skipping (isAnd : Bool) (next : Pipeline) (rest : List (Bool × Pipeline)) : Nat → Sh Unit
  | 0 => Sh.exit 2
  | fuel + 1 => do
    if ((← get).status = 0) = isAnd then chain next rest fuel
    else match rest with
      | [] => return ()
      | (isAnd, next) :: rest => skipping isAnd next rest fuel
termination_by structural fuel => fuel

def pipeline (p : Pipeline) : Nat → Sh Unit
  | 0 => Sh.exit 2
  | fuel + 1 => do
    let .mk negated commands := p
    let run : Sh Unit := match commands with
      | [c] => command c fuel
      | commands => do
        let children ← stages none commands fuel
        children.forM waitFor
    if negated then
      Sh.notLast (Sh.tested run)
      modify fun s => { s with status := if s.status = 0 then 1 else 0 }
    else
      run
      let s ← get
      if s.has "errexit" && s.testing = 0 && s.status ≠ 0 then Sh.exit s.status
termination_by structural fuel => fuel

/-- Starts the commands of a pipeline; `input` is what the first of them reads. -/
def stages (input : Option Nat) (commands : List Command) : Nat → Sh (List Nat)
  | 0 => return []
  | fuel + 1 => do
    match commands with
    | [] => return []
    | c :: rest =>
      let link ← if rest.isEmpty then pure none else do
        match ← Sh.call .pipe with
        | .numbers [readEnd, writeEnd] => pure (some (readEnd, writeEnd))
        | _ => pure none
      let s ← get
      let task := Sh.toTask s do
        begin
        match link with
        | some (readEnd, _) =>
          let _ ← Sh.call (.close readEnd)
        | none => pure ()
        match input with
        | some source => moveTo source 0
        | none => pure ()
        match link with
        | some (_, writeEnd) => moveTo writeEnd 1
        | none => pure ()
        finishing (command c fuel) fuel
      let child ← Sh.ofProc (Proc.fork task)
      match input with
      | some source =>
        let _ ← Sh.call (.close source)
      | none => pure ()
      match link with
      | some (_, writeEnd) =>
        let _ ← Sh.call (.close writeEnd)
      | none => pure ()
      return child :: (← stages (link.map (·.1)) rest fuel)
termination_by structural fuel => fuel

/-- The output of commands, without the line ends at its end. -/
def output (body : List Entry) : Nat → Sh Text
  | 0 => return []
  | fuel + 1 => do
    match ← Sh.call .pipe with
    | .numbers [readEnd, writeEnd] =>
      let s ← get
      let task := Sh.toTask s do
        begin
        let _ ← Sh.call (.close readEnd)
        moveTo writeEnd 1
        finishing (entries body fuel) fuel
      let child ← Sh.ofProc (Proc.fork task)
      let _ ← Sh.call (.close writeEnd)
      let content ← Sh.ofProc (Proc.readAll readEnd)
      let _ ← Sh.call (.close readEnd)
      let status ← match ← Sh.call (.wait (some child) false) with
        | .ended _ status =>
          report status
          pure (statusOf status)
        | _ => pure 127
      modify fun s => { s with substituted := some status }
      let text := Bytes.toLatin ((content.toOption.getD []).filter (· ≠ 0))
      return (text.reverse.dropWhile (· = '\n')).reverse
    | _ => return []
termination_by structural fuel => fuel

def command (c : Command) : Nat → Sh Unit
  | 0 => Sh.exit 2
  | fuel + 1 => do
    let output := fun body => output body fuel
    match c with
    | .simple line assignments words redirections =>
      simple line assignments words redirections fuel
    | .subshell body redirections =>
      let s ← get
      let task := Sh.toTask s do
        begin
        finishing (under output redirections true (entries body fuel)) fuel
      let child ← Sh.ofProc (Proc.fork task)
      waitFor child
    | .group body redirections => enclosed output redirections (entries body fuel)
    | .conditional branches otherwise redirections =>
      enclosed output redirections (conditional branches otherwise fuel)
    | .loop whileTrue condition body redirections =>
      Sh.notLast (under output redirections false do
        let status ← loop whileTrue condition body 0 fuel
        Sh.setStatus status)
    | .each name words body redirections =>
      Sh.notLast (under output redirections false do
        let values ← match words with
          | none => pure (← get).positional
          | some words => words.foldlM (fun all word => do
              return all ++ (← Expansion.fields output word)) []
        Sh.setStatus 0
        each name values body fuel)
    | .choice word arms redirections =>
      enclosed output redirections do
        let text ← Expansion.text output word
        Sh.setStatus 0
        choice text arms fuel
    | .onLine line c =>
      modify fun s => { s with line }
      command c fuel
    | .define name body =>
      modify fun s => { s with functions := Sh.put name body s.functions, status := 0 }
    handleSignals fuel
termination_by structural fuel => fuel

def conditional (branches : List (List Entry × List Entry)) (otherwise : List Entry) :
    Nat → Sh Unit
  | 0 => Sh.exit 2
  | fuel + 1 => do
    match branches with
    | [] =>
      Sh.setStatus 0
      entries otherwise fuel
    | (condition, body) :: rest =>
      Sh.notLast (Sh.tested (entries condition fuel))
      if (← get).status = 0 then entries body fuel else conditional rest otherwise fuel
termination_by structural fuel => fuel

/-- Runs the turns of a loop; the answer is the status of the last one. -/
def loop (whileTrue : Bool) (condition body : List Entry) (status : Nat) : Nat → Sh Nat
  | 0 => Sh.exit 2
  | fuel + 1 => do
    let _ ← Sh.call .spend
    let holds ← turn do
      Sh.tested (entries condition fuel)
    if !holds || ((← get).status = 0) ≠ whileTrue then return status
    if ← turn (entries body fuel) then loop whileTrue condition body (← get).status fuel
    else return 0
termination_by structural fuel => fuel

/-- Runs the body for each of the values. -/
def each (name : String) (values : List Text) (body : List Entry) : Nat → Sh Unit
  | 0 => Sh.exit 2
  | fuel + 1 => do
    match values with
    | [] => return ()
    | value :: rest =>
      Sh.assign name value
      let _ ← Sh.call .spend
      if ← turn (entries body fuel) then each name rest body fuel
termination_by structural fuel => fuel

def choice (text : Text) (arms : List (List Word × List Entry)) : Nat → Sh Unit
  | 0 => Sh.exit 2
  | fuel + 1 => do
    match arms with
    | [] => return ()
    | (patterns, body) :: rest =>
      if ← anyFits text patterns fuel then entries body fuel else choice text rest fuel
termination_by structural fuel => fuel

def anyFits (text : Text) (patterns : List Word) : Nat → Sh Bool
  | 0 => return false
  | fuel + 1 => do
    match patterns with
    | [] => return false
    | pattern :: rest =>
      let items ← Expansion.pattern (fun body => output body fuel) pattern
      if Pattern.fits items text then return true else anyFits text rest fuel
termination_by structural fuel => fuel

def simple (line : Nat) (assignments : List (String × Word)) (words : List Word)
    (redirections : List Redirection) : Nat → Sh Unit
  | 0 => Sh.exit 2
  | fuel + 1 => do
    modify fun s => { s with line, substituted := none }
    let output := fun body => output body fuel
    let fields ← words.foldlM (fun all word => do
      return all ++ (← Expansion.fields output word)) []
    match fields with
    | [] =>
      under output redirections false do
        let values ← assignments.mapM fun (name, word) => do
          let value ← Expansion.text output word
          Sh.assign name value
          return (name, value)
        trace values []
        Sh.setStatus ((← get).substituted.getD 0)
    | word :: arguments =>
      let name := String.ofList word
      let values ← assignments.mapM fun (name, word) => do
        return (name, ← Expansion.text output word)
      trace values fields
      match (← get).functions.lookup name with
      | some body =>
        let before ← assignFor values
        under output redirections false (Sh.notLast (call body arguments fuel))
        restore before
      | none =>
        if name = "exec" then
          let _ ← assignFor values
          if ← redirectAll output redirections then
            if arguments.isEmpty then Sh.setStatus 0 else Sh.naming word (become arguments)
          else
            Sh.setStatus 2
            throw .fault
        else if let some action := internal name arguments fuel then
          let special := Builtin.isSpecial name
          let before ← assignFor values
          under output redirections special (Sh.notLast (builtin special action))
          if !special then restore before
        else
          let before ← assignFor values
          under output redirections false (run fields)
          restore before
termination_by structural fuel => fuel

/-- A command that the shell carries out by itself, if the name is one's. Complaints bear its name,
unless it is there for another command. -/
def internal (name : String) (arguments : List Text) : Nat → Option (Sh Unit)
  | 0 => none
  | fuel + 1 =>
    let named := Sh.naming name.toList
    match Builtin.find? name with
    | some action => some (named do Sh.setStatus (← action arguments))
    | none =>
      match name with
      | "exit" => some <| named do Sh.exit (← statusArgument arguments)
      | "return" => some <| named do
        Sh.setStatus (← statusArgument arguments)
        throw .finish
      | "break" => some <| named do
        let n ← loopArgument arguments
        Sh.setStatus 0
        if 0 < n then throw (.leave n)
      | "continue" => some <| named do
        let n ← loopArgument arguments
        Sh.setStatus 0
        if 0 < n then throw (.again n)
      | "eval" => some <| named do
        Sh.setStatus 0
        lines ⟨[' '].intercalate arguments, 1⟩ fuel
      | "." => some (named (source arguments fuel))
      | "wait" => some (named (wait arguments fuel))
      | "command" => some (plainCommand arguments fuel)
      | "type" => some <| named do
        Sh.setStatus 0
        arguments.forM fun argument => do
          let status ← describe false argument
          if status ≠ 0 then Sh.setStatus status
      | _ => none
termination_by structural fuel => fuel

/-- Runs the commands of a file. -/
def source (arguments : List Text) : Nat → Sh Unit
  | 0 => Sh.exit 2
  | fuel + 1 => do
    match arguments with
    | [] => Sh.setStatus 0
    | file :: _ =>
      let s ← get
      let path ← if file.contains '/' then pure (.ok (pathOf file))
        else Sh.ofProc (findProgram file (searchPath s) false)
      match path with
      | .error _ => Sh.failText "" file ": not found"
      | .ok path =>
        match ← Sh.ofProc (Proc.contents path) with
        | .error errno => Sh.failText "cannot open " file s!": {openingTrouble false errno}"
        | .ok content =>
          Sh.setStatus 0
          let text := Bytes.toLatin (content.filter (· ≠ 0))
          tryCatch (Sh.naming (Bytes.toLatin path.bytes) (lines ⟨text, 1⟩ fuel)) fun
            | .finish => return ()
            | halt => throw halt
termination_by structural fuel => fuel

/-- Waits for one task in the background, or for all. -/
def wait (arguments : List Text) : Nat → Sh Unit
  | 0 => Sh.exit 2
  | fuel + 1 => do
    let child := arguments.head?.bind Builtin.decimal?
    match ← Sh.call (.wait child true) with
    | .ended _ status =>
      match arguments with
      | [] => wait [] fuel
      | [_] =>
        report status
        Sh.setStatus (statusOf status)
      | _ :: rest =>
        report status
        wait rest fuel
    | .interrupted =>
      match ← Sh.call .caught with
      | .numbers (signal :: signals) =>
        (signal :: signals).forM fun signal => runTrap signal fuel
        Sh.setStatus (128 + signal)
      | _ => Sh.setStatus 0
    | _ => Sh.setStatus (if arguments.isEmpty then 0 else 127)
termination_by structural fuel => fuel

/-- Runs a command that no function stands in for, or tells what its name stands for. -/
def plainCommand (arguments : List Text) : Nat → Sh Unit
  | 0 => Sh.exit 2
  | fuel + 1 => do
    let own := "command".toList
    let (found, words) ← Sh.naming own (Builtin.options "pvV" "" arguments)
    match (found.filter fun (letter, _) => letter ≠ 'p').getLast?, words with
    | _, [] => Sh.setStatus 0
    | some (letter, _), name :: _ =>
      Sh.naming own do Sh.setStatus (← describe (letter = 'v') name)
    | none, word :: rest =>
      match internal (String.ofList word) rest fuel with
      | some action => builtin false action
      | none => run words
termination_by structural fuel => fuel

/-- Calls a function. -/
def call (body : Command) (arguments : List Text) : Nat → Sh Unit
  | 0 => Sh.exit 2
  | fuel + 1 => do
    let before ← get
    set { before with positional := arguments, kept := [], inFunction := true, loops := 0 }
    let leave : Sh Unit := do
      restore (← get).kept
      modify fun s => { s with
        positional := before.positional
        kept := before.kept
        inFunction := before.inFunction
        loops := before.loops }
    Sh.thenAlways (tryCatch (command body fuel) fun
      | .finish => return ()
      | halt => throw halt) leave
termination_by structural fuel => fuel

/-- Runs what is left of a script, line by line. -/
def lines (left : Source) : Nat → Sh Unit
  | 0 => Sh.exit 2
  | fuel + 1 => do
    match nextLine left with
    | .error fault =>
      modify fun s => { s with line := fault.line }
      Sh.fail fault.message
    | .ok none => return ()
    | .ok (some (list, after)) =>
      if (← get).has "verbose" then
        let read := left.rest.take (left.rest.length - after.rest.length)
        let read := if read.head? = some '\n' then read.drop 1 else read
        let _ ← Sh.ofProc (Proc.write 2 (Bytes.ofLatin (read ++ ['\n'])))
      let left := after
      if left.rest.all Arithmetic.isBlank then entries list fuel
      else
        Sh.notLast (entries list fuel)
        lines left fuel
termination_by structural fuel => fuel

/-- Runs what is to be done on a signal, and keeps the status. -/
def runTrap (signal : Signal) : Nat → Sh Unit
  | 0 => Sh.exit 2
  | fuel + 1 => do
    let s ← get
    match s.traps.lookup signal with
    | none => return ()
    | some action =>
      Sh.notLast (lines ⟨action, 1⟩ fuel)
      Sh.setStatus s.status
termination_by structural fuel => fuel

/-- Runs the traps of the signals that have come in. -/
def handleSignals : Nat → Sh Unit
  | 0 => Sh.exit 2
  | fuel + 1 => do
    if (← get).traps.any fun (signal, action) => signal ≠ 0 && !action.isEmpty then
      match ← Sh.call .caught with
      | .numbers signals => signals.forM fun signal => runTrap signal fuel
      | _ => return ()
termination_by structural fuel => fuel

/-- Runs a part to its end, and then what is to be done at the end. -/
def finishing (part : Sh Unit) : Nat → Sh Unit
  | 0 => Sh.exit 2
  | fuel + 1 => do
    tryCatch part fun _ => return ()
    let s ← get
    match s.traps.lookup 0 with
    | none => return ()
    | some action =>
      set { s with traps := s.traps.filter (·.1 ≠ 0) }
      let result ← tryCatch (do
        Sh.notLast (lines ⟨action, 1⟩ fuel)
        return true) fun _ => return false
      if result then Sh.setStatus s.status
termination_by structural fuel => fuel

end

end Evaluation

/-- More steps than any script takes. -/
def manySteps : Nat := 1000000000

/-- A variable that is handed on. -/
def inherited (entry : Bytes × Bytes) : String × Variable :=
  (Text.lossy entry.1, ⟨some (Bytes.toLatin entry.2), true, false⟩)

/-- The state of a shell as it starts. -/
def starting (name : Text) (positional : List Text) (environment : Environment) :
    Proc State := do
  let id := (← Proc.number .ownId).toOption.getD 0
  let parent := (← Proc.number .parentId).toOption.getD 0
  let here ← Proc.currentDirectory
  let taken := (environment.map inherited).filter fun (name, _) =>
    isName name.toList && name ≠ "IFS" && name ≠ "OPTIND" && name ≠ "PWD"
  let own : List (String × Text) := [("IFS", [' ', '\t', '\n']), ("OPTIND", ['1']),
    ("PPID", (toString parent).toList), ("PS1", ['$', ' ']), ("PS2", ['>', ' ']),
    ("PS4", ['+', ' '])]
  return {
    name, id, positional
    bindings := taken ++ [("PWD", ⟨some (Bytes.toLatin here), true, false⟩)]
      ++ own.map fun (name, value) => (name, ⟨some value, false, false⟩) }

/-- Runs a script as a shell of its own. A shell that was started for one script alone ends with the
script's last command. -/
def runScript (name : Text) (positional : List Text) (environment : Environment)
    (options : List String) (alone : Bool) (script : Text) : Proc Nat := do
  let s ← starting name positional environment
  let run := Evaluation.finishing (Evaluation.lines ⟨script, 1⟩ manySteps) manySteps
  let (_, s) ← (run.run).run { s with options, last := alone }
  return s.status

/-- Complains before there is a script. -/
def refuse (name : Text) (message : Text) : Proc Nat := do
  let _ ← Proc.write 2 (Bytes.ofLatin (name ++ ": 0: ".toList ++ message ++ ['\n']))
  return 2

/-- The shell as a program: it runs a script from its arguments, from a file or from its input. -/
def program (name : Text) (arguments : List Text) (environment : Environment) : Proc Nat := do
  match Options.read true [] arguments with
  | .error complaint => refuse name complaint.toList
  | .ok r =>
    let text (content : Bytes) : Text := Bytes.toLatin (content.filter (· ≠ 0))
    match r.wantsScript || r.on.contains "stdin", r.rest.getD [] with
    | true, words =>
      if !r.wantsScript then fromInput words r.on
      else match words with
        | [] => refuse name "-c requires an argument".toList
        | script :: rest => runScript (rest.headD name) (rest.drop 1) environment r.on true script
    | false, file :: rest =>
      match ← Proc.contents ⟨Bytes.ofLatin file⟩ with
      | .ok content => runScript file rest environment r.on false (text content)
      | .error errno =>
        refuse name ("cannot open ".toList ++ file
          ++ s!": {Evaluation.openingTrouble false errno}".toList)
    | false, [] => fromInput [] ("stdin" :: r.on)
where
  fromInput (positional : List Text) (options : List String) : Proc Nat := do
    match ← Proc.readAll 0 with
    | .ok content =>
      let text := Bytes.toLatin (content.filter (· ≠ 0))
      runScript name positional environment options false text
    | .error _ => return 2

/-- The shell as a task. -/
def task (arguments : List Bytes) (environment : Environment) : Task :=
  Proc.toTask do
    let words := arguments.map Bytes.toLatin
    program (words.headD ['s', 'h']) (words.drop 1) environment

end BugHunt.Shell
