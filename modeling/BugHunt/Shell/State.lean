import BugHunt.Machine.Task
import BugHunt.Shell.Arithmetic
import BugHunt.Shell.Options
import BugHunt.Shell.Pattern
import BugHunt.Shell.Reader
/-!
What a running shell keeps, and how its commands end.
-/

namespace BugHunt.Shell

structure Variable where
  value : Option Text
  exported : Bool := false
  readOnly : Bool := false
  deriving Repr

structure State where
  /-- The name the shell was started under. -/
  name : Text
  id : Nat
  positional : List Text
  bindings : List (String × Variable)
  functions : List (String × Command) := []
  /-- What is run on a signal; nothing if it is to be ignored. Zero stands for the end. -/
  traps : List (Signal × Text) := []
  status : Nat := 0
  /-- The status of the last command whose output was put into the current one. -/
  substituted : Option Nat := none
  background : Option Nat := none
  line : Nat := 0
  /-- The builtin command that is being carried out, as complaints name it. -/
  within : Option Text := none
  /-- The names of the options that are on. -/
  options : List String := []
  /-- In how many conditions the current command stands. -/
  testing : Nat := 0
  /-- How many loops the current command stands in. -/
  loops : Nat := 0
  /-- Whether the shell has nothing left to do after the current command. -/
  last : Bool := false
  /-- Whether a function is being run, and what its own variables were before it. -/
  inFunction : Bool := false
  kept : List (String × Option Variable) := []
  /-- The permissions that new files lack. -/
  mask : Nat := 0o22
  /-- How much of which word has been read as options. -/
  optionOffset : Nat × Option Nat := (1, none)

def State.has (s : State) (option : String) : Bool := s.options.contains option

/-- Why the commands that follow are not run. -/
inductive Halt where
  | leave (loops : Nat)
  | again (loops : Nat)
  | finish
  | exit
  /-- Something was wrong; only some builtin commands end with it alone. -/
  | fault

abbrev Sh := ExceptT Halt (StateT State Proc)

namespace Sh

def ofProc (p : Proc α) : Sh α := ExceptT.lift (StateT.lift p)

def call (c : Call) : Sh Reply := ofProc (Proc.call c)

def setStatus (status : Nat) : Sh Unit := modify fun s => { s with status }

/-- Ends the shell. -/
def exit (status : Nat) : Sh α := do
  setStatus status
  throw .exit

def ofStringText (text : String) : Text := Bytes.toLatin (utf8 text)

/-- Complains about a text that may hold any bytes, with the shell's name, the line, and the
builtin command. -/
def complainText (before : String) (text : Text) (after : String) : Sh Unit := do
  let s ← get
  let command := s.within.elim [] (· ++ [':', ' '])
  let head := Bytes.ofLatin s.name ++ utf8 s!": {s.line}: " ++ Bytes.ofLatin command
  let _ ← ofProc (Proc.write 2 (head ++ utf8 before ++ Bytes.ofLatin text ++ utf8 after ++ [10]))

def complain (message : String) : Sh Unit := complainText message [] ""

/-- Complains and gives up. -/
def failText (before : String) (text : Text) (after : String) : Sh α := do
  complainText before text after
  setStatus 2
  throw .fault

def fail (message : String) : Sh α := failText message [] ""

/-- Runs a part and then, however the part ends, another. -/
def thenAlways (part : Sh α) (after : Sh Unit) : Sh α := do
  let result ← tryCatch (do return Except.ok (← part)) fun halt => return .error halt
  after
  match result with
  | .ok value => return value
  | .error halt => throw halt

/-- Runs a part as a builtin command, whose name complaints bear. -/
def naming (name : Text) (part : Sh α) : Sh α := do
  let before := (← get).within
  modify fun s => { s with within := some name }
  thenAlways part (modify fun s => { s with within := before })

def writeOut (text : Text) : Sh Unit := do
  let _ ← ofProc (Proc.write 1 (Bytes.ofLatin text))

/-- The value of a variable or of a special parameter, if it is set. -/
def valueOf (s : State) (name : String) : Option Text :=
  match name.toList with
  | ['?'] => some (toString s.status).toList
  | ['#'] => some (toString s.positional.length).toList
  | ['$'] => some (toString s.id).toList
  | ['!'] => s.background.map fun id => (toString id).toList
  | ['-'] => some (Options.letters s.options)
  | ['@'] => if s.positional.isEmpty then none else some ([' '].intercalate s.positional)
  | ['*'] => if s.positional.isEmpty then none else some ([' '].intercalate s.positional)
  | chars =>
    if chars.all isDigit then
      match (Arithmetic.ofDigits 10 chars) with
      | 0 => some s.name
      | n + 1 => s.positional[n]?
    else (s.bindings.lookup name).bind (·.value)

/-- Puts a value into a list under a name, in the place of an older one. -/
def put [BEq κ] (key : κ) (value : α) (entries : List (κ × α)) : List (κ × α) :=
  if (entries.lookup key).isSome then
    entries.map fun entry => if entry.1 == key then (key, value) else entry
  else entries ++ [(key, value)]

def assign (name : String) (value : Text) : Sh Unit := do
  let s ← get
  let old := (s.bindings.lookup name).getD ⟨none, false, false⟩
  if old.readOnly then fail s!"{name}: is read only"
  let exported := old.exported || s.has "allexport"
  set { s with bindings := put name { old with value := some value, exported } s.bindings }

/-- The characters that separate fields. -/
def separators (s : State) : Text := (valueOf s "IFS").getD [' ', '\t', '\n']

/-- The variables that are handed on. -/
def environment (s : State) : Environment :=
  s.bindings.filterMap fun (name, entry) =>
    if entry.exported then
      entry.value.map fun value => (utf8 name, Bytes.ofLatin value)
    else none

/-- Runs a part as a condition: a failing command in it does not end the shell. -/
def tested (part : Sh α) : Sh α := do
  modify fun s => { s with testing := s.testing + 1 }
  thenAlways part (modify fun s => { s with testing := s.testing - 1 })

/-- Runs a part after which the shell still has something to do. -/
def notLast (part : Sh α) : Sh α := do
  let before := (← get).last
  modify fun s => { s with last := false }
  thenAlways part (modify fun s => { s with last := before })

/-- Runs a part to its end as a task of its own. -/
def toTask (s : State) (part : Sh Unit) : Task :=
  Proc.toTask do
    let (_, s) ← (part.run).run s
    return s.status

end Sh
end BugHunt.Shell
