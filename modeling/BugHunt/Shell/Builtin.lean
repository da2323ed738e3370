import BugHunt.Shell.Condition
import BugHunt.Shell.Escape
import BugHunt.Shell.State
/-!
Commands that the shell carries out by itself and that run no other commands. Each gives its
status.
-/

namespace BugHunt.Shell.Builtin

def pathOf (text : Text) : Path := ⟨Bytes.ofLatin text⟩

def decimal? (text : Text) : Option Nat :=
  if text.isEmpty || !text.all isDigit then none else some (Arithmetic.ofDigits 10 text)

def largest : Int := 0x7FFFFFFF

/-- The number that an argument stands for, which must not be below zero. -/
def natural? (text : Text) : Option Nat :=
  (Arithmetic.ofDecimal? text).bind fun n => if 0 ≤ n && n ≤ largest then some n.toNat else none

def natural (text : Text) : Sh Nat := do
  match natural? text with
  | some n => return n
  | none => Sh.failText "Illegal number: " text ""

/-- Writes to the standard output; a failure is a status. -/
def output (text : Text) : Sh Nat := do
  match ← Sh.ofProc (Proc.write 1 (Bytes.ofLatin text)) with
  | .ok () => return 0
  | .error _ =>
    let command := (← get).within.getD []
    Sh.complainText "" command ": I/O error"
    return 1

/-- The letters of one word of options. A letter with an argument takes the rest of the word; the
answer names it if there is none. -/
def optionLetters (plain valued : List Char) :
    Text → Except Char (List (Char × Text) × Option Char)
  | [] => .ok ([], none)
  | letter :: rest =>
    if valued.contains letter then
      if rest.isEmpty then .ok ([], some letter) else .ok ([(letter, rest)], none)
    else if plain.contains letter then
      (optionLetters plain valued rest).map fun (found, wanting) => ((letter, []) :: found, wanting)
    else .error letter

/-- The options at the front of some arguments, and the other arguments. -/
def options (plain valued : String) : List Text → Sh (List (Char × Text) × List Text)
  | [] => return ([], [])
  | ['-', '-'] :: rest => return ([], rest)
  | ('-' :: letter :: letters) :: rest => do
    match optionLetters plain.toList valued.toList (letter :: letters), rest with
    | .error unknown, _ => Sh.fail s!"Illegal option -{unknown}"
    | .ok (found, none), rest =>
      let (more, others) ← options plain valued rest
      return (found ++ more, others)
    | .ok (_, some wanting), [] => Sh.fail s!"No arg for -{wanting} option"
    | .ok (found, some wanting), value :: rest =>
      let (more, others) ← options plain valued rest
      return (found ++ (wanting, value) :: more, others)
  | arguments => return ([], arguments)

def echo (arguments : List Text) : Sh Nat := output (Escape.echo arguments)

def printf (arguments : List Text) : Sh Nat := do
  match (← options "" "" arguments).2 with
  | [] => Sh.fail "usage: printf format [arg ...]"
  | format :: arguments =>
    let printed := Escape.printf format arguments
    printed.complaints.forM fun (argument, complaint) =>
      Sh.complainText "" argument s!": {complaint}"
    if let some fault := printed.fault then Sh.complainText "" fault ""
    let status ← output printed.text
    return if printed.fault.isSome then 2 else if printed.complaints.isEmpty then status else 1

def test (words : List Text) : Sh Nat := do
  match ← Sh.ofProc (Condition.test words) with
  | .ok value => return if value then 0 else 1
  | .error complaint => Sh.failText "" complaint ""

/-- A condition in brackets. -/
def bracket (words : List Text) : Sh Nat := do
  if words.getLast? = some [']'] then test words.dropLast else Sh.fail "missing ]"

/-- The path with dots and parents taken out of its text. -/
def normalize (path : Text) : Text :=
  let parts := Bytes.splitOn Path.slash (Bytes.ofLatin path)
  let pieces := parts.foldl (fun (done : List Bytes) piece =>
    if Path.isIdle piece then done
    else if piece = [Path.dot, Path.dot] then done.drop 1
    else piece :: done) []
  '/' :: Bytes.toLatin ([Path.slash].intercalate pieces.reverse)

def currentDirectory : Sh Text := do
  match Sh.valueOf (← get) "PWD" with
  | some path => return path
  | none => return Bytes.toLatin (← Sh.ofProc Proc.currentDirectory)

/-- Marks a variable. -/
def marking (name : String) (mark : Variable → Variable) : Sh Unit :=
  modify fun s =>
    let old := (s.bindings.lookup name).getD ⟨none, false, false⟩
    { s with bindings := Sh.put name (mark old) s.bindings }

def handOn (entry : Variable) : Variable := { entry with exported := true }

def makeConstant (entry : Variable) : Variable := { entry with readOnly := true }

def assignExported (name : String) (value : Text) : Sh Unit := do
  Sh.assign name value
  marking name handOn

def cd (arguments : List Text) : Sh Nat := do
  let (found, arguments) ← options "LP" "" arguments
  let physical := (found.getLast?.map (·.1)) = some 'P'
  let s ← get
  let back := arguments.head? = some ['-']
  let target := match arguments with
    | [] => (Sh.valueOf s "HOME").getD []
    | target :: _ => if back then (Sh.valueOf s "OLDPWD").getD [] else target
  let old ← currentDirectory
  let shown := if target.isEmpty then ['.'] else target
  let joined := if shown.head? = some '/' then shown else old ++ '/' :: shown
  match ← Sh.ofProc (Proc.asked (.changeDirectory
    (pathOf (if physical then shown else normalize joined)))) with
  | .ok () =>
    let here ← if physical then Bytes.toLatin <$> Sh.ofProc Proc.currentDirectory
      else pure (normalize joined)
    assignExported "OLDPWD" old
    assignExported "PWD" here
    if back then output (here ++ ['\n']) else return 0
  | .error _ => Sh.failText "can't cd to " shown ""

def pwd (arguments : List Text) : Sh Nat := do
  let (found, _) ← options "LP" "" arguments
  let path ← if (found.getLast?.map (·.1)) = some 'P' then
      Bytes.toLatin <$> Sh.ofProc Proc.currentDirectory
    else currentDirectory
  output (path ++ ['\n'])

def shift (arguments : List Text) : Sh Nat := do
  let n ← match arguments with
    | [] => pure 1
    | count :: _ => natural count
  let s ← get
  if s.positional.length < n then Sh.fail "can't shift that many"
  set { s with positional := s.positional.drop n }
  return 0

/-- Splits a word at its first sign of equality. -/
def splitAssignment (word : Text) : Text × Option Text :=
  let name := word.takeWhile (· ≠ '=')
  match word.drop name.length with
  | [] => (name, none)
  | _ :: value => (name, some value)

/-- The text in quotes; quotes in it stand in quotes of the other kind. -/
def quotePieces (value : Text) : Nat → Text
  | 0 => []
  | fuel + 1 =>
    let piece := value.takeWhile (· ≠ '\x27')
    let rest := value.drop piece.length
    let quotes := rest.takeWhile (· = '\x27')
    let after := rest.drop quotes.length
    let quoted := '\x27' :: piece ++ ['\x27']
    if quotes.isEmpty then quoted
    else
      let hidden := '\x22' :: quotes ++ ['\x22']
      quoted ++ hidden ++ if after.isEmpty then [] else quotePieces after fuel

def quoteValue (value : Text) : Text := quotePieces value (value.length + 1)

/-- Variables in the order of their names, in a form that can be read back. -/
def listing (front : String) (shown : Variable → Bool) (s : State) : Text :=
  let entries := s.bindings.filter fun (_, entry) => shown entry
  (entries.mergeSort fun a b => !decide (b.1 < a.1)).flatMap fun (name, entry) =>
    front.toList ++ name.toList ++ entry.value.elim [] (fun value => '=' :: quoteValue value) ++
      ['\n']

/-- Marks variables as handed on or as constant, and sets those that come with a value; without
any, lists those that are so marked. -/
def declare (front : String) (isMarked : Variable → Bool) (mark : Variable → Variable)
    (arguments : List Text) : Sh Nat := do
  let (found, words) ← options "p" "" arguments
  if words.isEmpty || !found.isEmpty then output (listing front isMarked (← get))
  else
    words.forM fun word => do
      let (name, value) := splitAssignment word
      if !isName name then Sh.failText "" name ": bad variable name"
      let name := String.ofList name
      if let some value := value then Sh.assign name value
      marking name mark
    return 0

/-- Variables of a function; they are given back when it ends. -/
def declareLocal (arguments : List Text) : Sh Nat := do
  if !(← get).inFunction then Sh.fail "not in a function"
  arguments.forM fun word => do
    let (name, value) := splitAssignment word
    let name := String.ofList name
    modify fun s => { s with kept := (name, s.bindings.lookup name) :: s.kept }
    if let some value := value then Sh.assign name value
  return 0

def unset (arguments : List Text) : Sh Nat := do
  let (found, names) ← options "vf" "" arguments
  let functions := (found.getLast?.map (·.1)) = some 'f'
  names.forM fun name => do
    let name := String.ofList name
    let s ← get
    if functions then set { s with functions := s.functions.filter (·.1 ≠ name) }
    else if (s.bindings.lookup name).any (·.readOnly) then Sh.fail s!"{name}: is read only"
    else set { s with bindings := s.bindings.filter (·.1 ≠ name) }
  return 0

/-- Sets options and positional parameters, or lists the variables. -/
def change (arguments : List Text) : Sh Nat := do
  let s ← get
  if arguments.isEmpty then output (listing "" (fun entry => entry.value.isSome) s)
  else match Options.read false s.options arguments with
    | .error complaint => Sh.fail complaint
    | .ok r =>
      set { s with options := r.on, positional := r.rest.getD s.positional }
      match r.shown with
      | some asCommands => output (Options.listing r.on asCommands).toList
      | none => return 0

/-- Reads a line, one byte at a time, and whether it ended; a backslash hides what follows. -/
def readLine (raw : Bool) (done : Marked) : Nat → Proc (Marked × Bool)
  | 0 => return (done.reverse, false)
  | fuel + 1 => do
    match ← Proc.read 0 1 with
    | .ok [b] =>
      let c := Char.ofNat b.toNat
      if c = '\n' then return (done.reverse, true)
      else if c = '\\' && !raw then
        match ← Proc.read 0 1 with
        | .ok [b] =>
          if b = 10 then readLine raw done fuel
          else readLine raw ((Char.ofNat b.toNat, true) :: done) fuel
        | _ => return (done.reverse, false)
      else if b = 0 then readLine raw done fuel
      else readLine raw ((c, false) :: done) fuel
    | _ => return (done.reverse, false)

def isSeparator (separators : Text) (c : Char × Bool) : Bool := !c.2 && separators.contains c.1

def isBlankSeparator (separators : Text) (c : Char × Bool) : Bool :=
  isSeparator separators c && Arithmetic.isBlank c.1

/-- Gives each name a field of a line, and the last name all that is left. -/
def distribute (separators : Text) (line : Marked) : List String → Sh Unit
  | [] => return ()
  | [name] => do
    let line := (line.dropWhile (isBlankSeparator separators)).reverse.dropWhile
      (isBlankSeparator separators) |>.reverse
    Sh.assign name (line.map (·.1))
  | name :: names => do
    let line := line.dropWhile (isBlankSeparator separators)
    let field := line.takeWhile fun c => !isSeparator separators c
    Sh.assign name (field.map (·.1))
    let rest := (line.drop field.length).dropWhile (isBlankSeparator separators)
    let rest := match rest with
      | c :: after => if isSeparator separators c then after else c :: after
      | [] => []
    distribute separators rest names

def read (arguments : List Text) : Sh Nat := do
  let (found, names) ← options "r" "p" arguments
  if names.isEmpty then Sh.fail "arg count"
  let raw := found.any (·.1 = 'r')
  let (line, ended) ← Sh.ofProc (readLine raw [] Proc.manyReads)
  if let some wrong := names.find? fun name => !isName name then
    Sh.failText "" wrong ": bad variable name"
  distribute (Sh.separators (← get)) line (names.map String.ofList)
  return if ended then 0 else 1

/-- The last signal that has a name here. -/
def lastSignal : Nat := 64

/-- The name of a signal: those between the last two named ones are counted from these. -/
def signalName (signal : Signal) : String :=
  if signal = 0 then "EXIT"
  else match Signal.names.find? (·.2 = signal) with
    | some (name, _) => if name = "STKFLT" then "16" else name
    | none =>
      if signal = 34 then "RTMIN"
      else if signal = lastSignal then "RTMAX"
      else if 34 < signal && signal < 50 then s!"RTMIN+{signal - 34}"
      else if 50 ≤ signal && signal < lastSignal then s!"RTMAX-{lastSignal - signal}"
      else toString signal

/-- The signal that a name or a number stands for; no name stands for one below `least`. -/
def signal? (least : Nat) (text : Text) : Option Signal :=
  match decimal? text with
  | some n => if n ≤ lastSignal then some n else none
  | none =>
    let name := String.ofList (text.map Char.toUpper)
    (List.range (lastSignal + 1)).find? fun n => least ≤ n && signalName n = name

def recipient (text : Text) : Sh Recipient := do
  match text with
  | '-' :: digits => return .group (← natural digits)
  | '%' :: _ => Sh.failText "No such job: " text ""
  | digits =>
    match ← natural digits with
    | 0 => return .ownGroup
    | id => return .process id

def send (signal : Signal) (targets : List Text) : Sh Nat := do
  targets.foldlM (fun status target => do
    match ← Sh.ofProc (Proc.asked (.send (← recipient target) signal)) with
    | .ok () => return status
    | .error errno =>
      Sh.complain s!"{errno.text}\n"
      return 1) 0

/-- Lists all signals, or names the one that a status stands for. -/
def listSignals (arguments : List Text) : Sh Nat := do
  match arguments with
  | [] =>
    let names := (List.range' 1 lastSignal).map fun n => s!"{signalName n}\n"
    output ("0\n" ++ "".intercalate names).toList
  | status :: _ =>
    let n ← natural status
    let signal := if 128 < n then n - 128 else n
    if 0 < signal && signal ≤ lastSignal then output s!"{signalName signal}\n".toList
    else Sh.failText "invalid signal number or exit status: " status ""

def killUsage : String :=
  "Usage: kill [-s sigspec | -signum | -sigspec] [pid | job]... or\nkill -l [exitstatus]"

def kill (arguments : List Text) : Sh Nat := do
  let direct := match arguments with
    | ('-' :: name) :: _ => signal? 1 name
    | _ => none
  match direct with
  | some signal => if arguments.length < 2 then Sh.fail killUsage else send signal arguments.tail
  | none =>
    let (found, targets) ← options "l" "s" arguments
    if found.any (·.1 = 'l') then listSignals targets
    else
      let signal ← match found.getLast? with
        | none => pure Signal.terminate
        | some (_, name) =>
          match signal? 1 name with
          | some signal => pure signal
          | none => Sh.failText "invalid signal number or name: " name ""
      if targets.isEmpty then Sh.fail killUsage else send signal targets

/-- Sets what is done on one signal, or gives back the usual. -/
def trapOne (action : Option Text) (signal : Signal) : Sh Unit := do
  modify fun s => { s with traps := s.traps.filter (·.1 ≠ signal) }
  if let some action := action then
    modify fun s => { s with traps := s.traps ++ [(signal, action)] }
  if signal ≠ 0 then
    let disposition : Disposition := match action with
      | none => .default
      | some action => if action.isEmpty then .ignore else .catch
    let _ ← Sh.call (.dispose signal disposition)

/-- Goes through the names of signals up to the first that is none. -/
def trapAll (action : Option Text) : List Text → Sh Nat
  | [] => return 0
  | name :: names => do
    match signal? 0 name with
    | some signal =>
      trapOne action signal
      trapAll action names
    | none =>
      let complaint := utf8 "trap: " ++ Bytes.ofLatin name ++ utf8 ": bad trap\n"
      let _ ← Sh.ofProc (Proc.write 2 complaint)
      return 1

/-- Tells or changes what is done on signals. -/
def trap (arguments : List Text) : Sh Nat := do
  match (← options "" "" arguments).2 with
  | [] =>
    let traps := (← get).traps.mergeSort fun a b => a.1 ≤ b.1
    output (traps.flatMap fun (signal, action) =>
      "trap -- ".toList ++ quoteValue action ++ ' ' :: (signalName signal).toList ++ ['\n'])
  | first :: rest =>
    if rest.isEmpty || (decimal? first).isSome then trapAll none (first :: rest)
    else trapAll (if first = ['-'] then none else some first) rest

def showLimit (limit : Option Nat) : Text :=
  match limit with
  | none => "unlimited".toList
  | some bytes => (toString (bytes / 1024)).toList

/-- What stands for a limit that is not kept. -/
def otherLimit (letter : Char) : String :=
  match letter with
  | 'n' => "1024"
  | 's' => "8192"
  | 'l' => "8192"
  | 'c' => "0"
  | 'r' => "0"
  | _ => "unlimited"

/-- Tells or sets the limit on memory; the other limits are not kept. -/
def ulimit (arguments : List Text) : Sh Nat := do
  let (found, values) ← options "HSatfdscmlpnvwr" "" arguments
  let letters := found.map (·.1)
  let bound := (letters.filter fun l => l = 'H' || l = 'S').getLast?
  let resource := ((letters.filter fun l => l ≠ 'H' && l ≠ 'S').getLast?).getD 'f'
  match values with
  | [] =>
    if resource = 'v' then
      match ← Sh.call (.memoryLimit (bound = some 'H')) with
      | .bound limit => output (showLimit limit ++ ['\n'])
      | _ => return 1
    else output (otherLimit resource ++ "\n").toList
  | [value] =>
    if value ≠ "unlimited".toList && (decimal? value).isNone then Sh.fail "bad number"
    if resource ≠ 'v' then return 0
    match ← Sh.call (.limitMemory (bound ≠ some 'H') (bound ≠ some 'S')
      ((decimal? value).map (· * 1024))) with
    | .failed errno => Sh.fail s!"error setting limit ({errno.text})"
    | _ => return 0
  | _ => Sh.fail "too many arguments"

/-- The permissions that a symbolic clause such as `go=r` leaves lacking. -/
def maskClause (mask : Nat) (clause : Text) : Option Nat :=
  let who := clause.takeWhile "ugoa".toList.contains
  let who := if who.isEmpty || who.contains 'a' then ['u', 'g', 'o'] else who
  let rest := clause.dropWhile "ugoa".toList.contains
  match rest with
  | sign :: permissions =>
    if !permissions.all "rwx".toList.contains then none
    else
      let bit (letter : Char) (value : Nat) := if permissions.contains letter then value else 0
      let bits := bit 'r' 4 + bit 'w' 2 + bit 'x' 1
      let spread (bits : Nat) : Nat := (if who.contains 'u' then bits * 64 else 0)
        + (if who.contains 'g' then bits * 8 else 0) + (if who.contains 'o' then bits else 0)
      let allowed := 511 - mask % 512
      match sign with
      | '=' => some (511 - ((allowed &&& (511 - spread 7)) ||| spread bits))
      | '+' => some (511 - (allowed ||| spread bits))
      | '-' => some (511 - (allowed &&& (511 - spread bits)))
      | _ => none
  | [] => none

/-- The permissions that a mask leaves, as letters. -/
def showMask (mask : Nat) : String :=
  let letters (bits : Nat) : String := (if bits &&& 4 = 0 then "r" else "")
    ++ (if bits &&& 2 = 0 then "w" else "") ++ (if bits &&& 1 = 0 then "x" else "")
  s!"u={letters (mask / 64)},g={letters (mask / 8)},o={letters mask}\n"

/-- Tells or changes the permissions that new files lack. -/
def umask (arguments : List Text) : Sh Nat := do
  let (found, words) ← options "S" "" arguments
  let s ← get
  match words with
  | [] =>
    if found.isEmpty then
      let digits := Nat.toDigits 8 s.mask
      output (List.replicate (4 - digits.length) '0' ++ digits ++ ['\n'])
    else output (showMask s.mask).toList
  | word :: _ =>
    if word.head?.any isDigit then
      if word.all Escape.isOctal then
        set { s with mask := Arithmetic.ofDigits 8 word % 512 }
        return 0
      else Sh.failText "Illegal number: " word ""
    else
      let clauses := (Bytes.splitOn 0x2C (Bytes.ofLatin word)).map Bytes.toLatin
      match clauses.foldlM maskClause s.mask with
      | some mask =>
        set { s with mask }
        return 0
      | none => Sh.failText "Illegal mode: " word ""

/-- What getting the next option comes to. -/
structure NextOption where
  found : Char
  argument : Option Text
  /-- The word that comes next, and how much of the one before it has been read. -/
  index : Nat
  offset : Option Nat
  message : Option String := none
  done : Bool := false

/-- Gets the next option out of some words. `index` counts the words from one. -/
def nextOption (accepted : Text) (words : List Text) (index : Nat) (offset : Option Nat) :
    NextOption :=
  let silent := accepted.head? = some ':'
  let stop (index : Nat) : NextOption := ⟨'?', none, index, none, none, true⟩
  let word := words[index - 2]?.getD []
  let within := (offset.map fun n => (n, word.drop n)).filter fun (_, left) =>
    1 < index && !left.isEmpty
  let current : Option (Nat × Nat × Text) := match within with
    | some (n, left) => some (index, n, left)
    | none =>
      match words[index - 1]? with
      | some ('-' :: c :: cs) => some (index + 1, 1, c :: cs)
      | _ => none
  match current with
  | none => stop index
  | some (index, n, text) =>
    if n = 1 && text = ['-'] then stop index
    else
      let letter := text.headD '?'
      let after := text.drop 1
      let offset := if after.isEmpty then none else some (n + 1)
      let place := (accepted.dropWhile (· ≠ letter)).drop 1
      if letter = ':' || !accepted.contains letter then
        let message := if silent then none else some s!"Illegal option -{letter}\n"
        ⟨'?', if silent then some [letter] else none, index, offset, message, false⟩
      else if place.head? ≠ some ':' then ⟨letter, some [], index, offset, none, false⟩
      else if !after.isEmpty then ⟨letter, some after, index, none, none, false⟩
      else match words[index - 1]? with
        | some argument => ⟨letter, some argument, index + 1, none, none, false⟩
        | none =>
          if silent then ⟨':', some [letter], index, none, none, false⟩
          else ⟨'?', none, index, none, some s!"No arg for -{letter} option\n", false⟩

/-- Reads options one at a time. -/
def getopts (arguments : List Text) : Sh Nat := do
  match arguments with
  | accepted :: name :: words =>
    let s ← get
    let words := if words.isEmpty then s.positional else words
    let index := max 1 (((Sh.valueOf s "OPTIND").bind decimal?).getD 1)
    let offset := if s.optionOffset.1 = index then s.optionOffset.2 else none
    let next := nextOption accepted words index offset
    if let some message := next.message then Sh.ofProc (Proc.writeText 2 message)
    match next.argument with
    | some argument => Sh.assign "OPTARG" argument
    | none =>
      if !next.done then
        modify fun s => { s with bindings := s.bindings.filter (·.1 ≠ "OPTARG") }
    Sh.assign "OPTIND" (toString next.index).toList
    Sh.assign (String.ofList name) [next.found]
    modify fun s => { s with optionOffset := (next.index, next.offset) }
    return if next.done then 1 else 0
  | _ => Sh.fail "Usage: getopts optstring var [arg...]"

/-- The builtin command of a name. -/
def find? : String → Option (List Text → Sh Nat)
  | ":" | "true" => some fun _ => return 0
  | "false" => some fun _ => return 1
  | "echo" => some echo
  | "printf" => some printf
  | "test" => some test
  | "[" => some bracket
  | "cd" | "chdir" => some cd
  | "pwd" => some pwd
  | "shift" => some shift
  | "export" => some (declare "export " Variable.exported handOn)
  | "readonly" => some (declare "readonly " Variable.readOnly makeConstant)
  | "local" => some declareLocal
  | "unset" => some unset
  | "set" => some change
  | "read" => some read
  | "kill" => some kill
  | "trap" => some trap
  | "ulimit" => some ulimit
  | "umask" => some umask
  | "getopts" => some getopts
  | "hash" | "alias" | "unalias" | "jobs" => some fun _ => return 0
  | "bg" | "fg" => some fun _ => Sh.fail "No current job"
  | "times" => some fun _ => output "0m0.000000s 0m0.000000s\n0m0.000000s 0m0.000000s\n".toList
  | _ => none

/-- Builtin commands whose failure ends the shell and whose assignments stay. -/
def isSpecial (name : String) : Bool :=
  [":", ".", "break", "continue", "eval", "exec", "exit", "export", "local", "readonly", "return",
    "set", "shift", "times", "trap", "unset"].contains name

end BugHunt.Shell.Builtin
