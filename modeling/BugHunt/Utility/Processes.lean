import BugHunt.Shell.Condition
import BugHunt.Shell.Escape
import BugHunt.Utility.Basic
/-!
Programs that wait, send signals, start other programs, or only have a status.
-/

namespace BugHunt.Utility

/-- A time in microseconds: a decimal number of seconds, or of what its last letter says. -/
def duration? (text : Bytes) : Option Nat :=
  let chars := Bytes.toLatin text
  let (number, scale) : List Char × Nat := match chars.reverse with
    | 's' :: rest => (rest.reverse, 1)
    | 'm' :: rest => (rest.reverse, 60)
    | 'h' :: rest => (rest.reverse, 3600)
    | 'd' :: rest => (rest.reverse, 86400)
    | _ => (chars, 1)
  let whole := number.takeWhile Char.isDigit
  let fraction := (number.drop whole.length).drop 1
  let digits (cs : List Char) : Nat := cs.foldl (fun n c => 10 * n + (c.toNat - 48)) 0
  let pointed := number.drop whole.length
  if number.isEmpty || !(pointed.isEmpty || pointed.head? = some '.') || !fraction.all Char.isDigit
      || (whole.isEmpty && fraction.isEmpty) then none
  else
    let micros := digits ((fraction ++ List.replicate 6 '0').take 6)
    some (scale * (1000000 * digits whole + micros))

def sleep : Applet := fun c => do
  if c.arguments.isEmpty then
    return ← misuseText c.name "missing operand"
  match c.arguments.find? fun a => (duration? a).isNone with
  | some wrong =>
    misuse c.name (utf8 "invalid time interval " ++ quoted wrong)
  | none =>
    let _ ← Proc.call (.sleep ((c.arguments.filterMap duration?).foldl (· + ·) 0))
    return 0

/-- The directories that an environment has programs looked for in. -/
def searchPath (environment : Environment) : List Bytes :=
  ((environment.lookup (utf8 "PATH")).getD (utf8 "/bin:/usr/bin")).splitOn 0x3A

/-- Becomes the first program of a name that can be run. The answer tells why there is none. -/
def become (words : List Bytes) (environment : Environment) : List Bytes → Errno → Proc Errno
  | [], errno => return errno
  | directory :: rest, errno => do
    let path := below directory (words.headD [])
    match ← Proc.asked (.exec ⟨path⟩ words environment) with
    | .error .noEntry => become words environment rest errno
    | .error other => become words environment rest other
    | .ok () => become words environment rest errno

/-- Becomes the program that words name, or complains. -/
def run (name : String) (words : List Bytes) (environment : Environment) : Proc Nat := do
  let program := words.headD []
  let errno ← if program.contains Path.slash then do
      match ← Proc.asked (.exec ⟨program⟩ words environment) with
      | .error errno => pure errno
      | .ok () => pure .noEntry
    else become words environment (searchPath environment) .noEntry
  complain name (quoted program ++ ofErrno errno)
  return if errno = .noEntry then 127 else 126

/-- The environment after the assignments at the front of some words, and the other words. -/
def assignments (environment : Environment) : List Bytes → Environment × List Bytes
  | [] => (environment, [])
  | word :: rest =>
    if word.contains 0x3D then
      let name := word.takeWhile (· ≠ 0x3D)
      let value := word.drop (name.length + 1)
      assignments (environment.filter (·.1 ≠ name) ++ [(name, value)]) rest
    else (environment, word :: rest)

def env : Applet := fun c => do
  let (environment, words) : Environment × List Bytes := match c.arguments with
    | argument :: rest =>
      if argument = utf8 "-i" || argument = utf8 "-" then ([], rest)
      else (c.environment, argument :: rest)
    | [] => (c.environment, [])
  let (environment, words) := assignments environment words
  if words.isEmpty then
    let _ ← Proc.write 1 (joinLines (environment.map fun (name, value) => name ++ 0x3D :: value))
    return 0
  else run c.name words environment

def printenv : Applet := fun c => do
  match c.arguments with
  | [] =>
    let _ ←
      Proc.write 1 (joinLines (c.environment.map fun (name, value) => name ++ 0x3D :: value))
    return 0
  | names =>
    names.foldlM (fun status name => do
      match c.environment.lookup name with
      | some value =>
        let _ ← Proc.write 1 (value ++ [10])
        return status
      | none => return 1) 0

/-- Runs a program that a hangup does not end. -/
def nohup : Applet := fun c => do
  let _ ← Proc.call (.dispose Signal.hangup .ignore)
  run c.name c.arguments c.environment

/-- Runs a program in a process group of its own. -/
def setsid : Applet := fun c => do
  let _ ← Proc.call .leadGroup
  run c.name c.arguments c.environment

/-- Runs a program with another priority, which changes nothing here. -/
def nice : Applet := fun c => do
  let words := match c.arguments with
    | option :: _ :: rest => if option = utf8 "-n" then rest else c.arguments
    | words => words
  run c.name words c.environment

/-- Runs a program and ends it when its time is over. -/
def timeout : Applet := fun c => do
  match (splitFront c.arguments).2 with
  | limit :: word :: words =>
    match duration? limit with
    | none =>
      complain c.name (utf8 "invalid time interval " ++ quoted limit)
      return 125
    | some time =>
      let child ← Proc.fork (Proc.toTask (run c.name (word :: words) c.environment))
      let watcher ← Proc.fork (Proc.toTask do
        let _ ← Proc.call (.sleep time)
        let _ ← Proc.call (.send (.process child) Signal.terminate)
        return 0)
      match ← Proc.call (.wait (some child) false) with
      | .ended _ (.exited code) =>
        let _ ← Proc.call (.send (.process watcher) Signal.kill)
        return code
      | .ended _ (.signalled signal) =>
        let _ ← Proc.call (.send (.process watcher) Signal.kill)
        return if signal = Signal.terminate then 124 else 128 + signal
      | _ => return 125
  | _ =>
    let _ ← misuseText c.name "missing operand"
    return 125
where
  /-- The options in front of the first other argument, and what follows them. -/
  splitFront (arguments : List Bytes) : List Bytes × List Bytes := arguments.span isOption

/-- The paths of programs that a name stands for. -/
def which : Applet := fun c => do
  let (_, names) := splitOptions c.arguments
  names.foldlM (fun status name => do
    let candidates := if name.contains Path.slash then [name]
      else (searchPath c.environment).map fun directory => below directory name
    let found ← candidates.filterM fun path => do
      return match ← Proc.look ⟨path⟩ true with
        | .ok (.file _ true) => true
        | _ => false
    match found with
    | path :: _ =>
      let _ ← Proc.write 1 (path ++ [10])
      return status
    | [] => return 1) 0

/-- Makes a file or a directory with a new name. -/
def mktemp : Applet := fun c => do
  let (options, _) := splitOptions c.arguments
  let id := (← Proc.number .ownId).toOption.getD 0
  let directory := (c.environment.lookup (utf8 "TMPDIR")).getD (utf8 "/tmp")
  let path := below directory (utf8 s!"tmp.A{id}bcdeF")
  let result ← if options.contains 'd' then Proc.asked (.createDirectory ⟨path⟩)
    else Proc.asked (.touch ⟨path⟩)
  match result with
  | .ok () =>
    let _ ← Proc.write 1 (path ++ [10])
    return 0
  | .error errno =>
    complain c.name (utf8 "failed to create file via template " ++ quoted path ++ ofErrno errno)
    return 1

/-- Runs a program with the words of the input as further arguments. -/
def xargs : Applet := fun c => do
  match ← Proc.readAll 0 with
  | .error _ => return 1
  | .ok content =>
    let separated := content.map fun b => if b = 9 || b = 10 then 0x20 else b
    let words := (separated.splitOn 0x20).filter (!·.isEmpty)
    let program := if c.arguments.isEmpty then [utf8 "echo"] else c.arguments
    run c.name (program ++ words) c.environment

/-- Writes a line for as long as it is read. -/
def repeatLine (line : Bytes) : Nat → Proc Nat
  | 0 => return 0
  | fuel + 1 => do
    match ← Proc.write 1 line with
    | .ok () => repeatLine line fuel
    | .error _ => return 1

def yes : Applet := fun c =>
  let word := if c.arguments.isEmpty then utf8 "y" else [0x20].intercalate c.arguments
  repeatLine (word ++ [10]) 1000000000

def echo : Applet := fun c => do
  let (newline, words) : Bool × List Bytes := match c.arguments with
    | argument :: rest => if argument = utf8 "-n" then (false, rest) else (true, argument :: rest)
    | [] => (true, [])
  let _ ← Proc.write 1 ([0x20].intercalate words ++ if newline then [10] else [])
  return 0

def printf : Applet := fun c => do
  match c.arguments.map Bytes.toLatin with
  | [] => misuseText c.name "missing operand"
  | format :: arguments =>
    let _ ← Proc.write 1 (Bytes.ofLatin (Shell.Escape.printf format arguments).text)
    return 0

def test : Applet := fun c => do
  let words := c.arguments.map Bytes.toLatin
  let words := if c.name = "[" then words.dropLast else words
  match ← Shell.Condition.test words with
  | .ok value => return if value then 0 else 1
  | .error complaint =>
    complain c.name (Bytes.ofLatin complaint)
    return 2

def pwd : Applet := fun _ => do
  let here ← Proc.currentDirectory
  let _ ← Proc.write 1 (here ++ [10])
  return 0

def kill : Applet := fun c => do
  let (signal, targets) : Option Signal × List Bytes := match c.arguments with
    | (0x2D :: name) :: rest =>
      let text := Bytes.toLatin name
      let number := decimal? name
      (number <|> Signal.names.lookup (String.ofList (text.map Char.toUpper)), rest)
    | targets => (some Signal.terminate, targets)
  match signal with
  | none =>
    complainText c.name "invalid signal"
    return 1
  | some signal =>
    targets.foldlM (fun status target => do
      let recipient : Option Recipient := match target with
        | 0x2D :: id => (decimal? id).map .group
        | id => (decimal? id).map .process
      match recipient with
      | none => return 1
      | some recipient =>
        match ← Proc.asked (.send recipient signal) with
        | .ok () => return status
        | .error errno =>
          complain c.name (utf8 "(" ++ target ++ utf8 ")" ++ utf8 s!" - {errno.text}")
          return 1) 0

/-- Prints the time that has passed, in seconds, whatever the form asked for. -/
def date : Applet := fun _ => do
  let now := (← Proc.number .clock).toOption.getD 0
  let _ ← Proc.write 1 (utf8 s!"{1700000000 + now / 1000000}\n")
  return 0

/-- A program that prints one line. -/
def printsLine (line : String) : Applet := fun _ => do
  let _ ← Proc.write 1 (utf8 s!"{line}\n")
  return 0

def status (code : Nat) : Applet := fun _ => return code

end BugHunt.Utility
