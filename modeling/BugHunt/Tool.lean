import BugHunt.Path
/-!
External tools: how one is called, what it leaves behind, and when waiting for it ends.
-/

namespace BugHunt

/-- A call of a tool. -/
structure Command where
  program : Path
  arguments : List Bytes
  directory : Option Path
  deriving DecidableEq, Repr

namespace Command

def ofProgram (program : Path) : Command := ⟨program, [], none⟩

def arg (c : Command) (argument : Bytes) : Command :=
  { c with arguments := c.arguments ++ [argument] }

def path (c : Command) (argument : Path) : Command := c.arg argument.bytes

def text (c : Command) (argument : String) : Command := c.arg (utf8 argument)

def texts (c : Command) (arguments : List String) : Command :=
  { c with arguments := c.arguments ++ arguments.map utf8 }

def within (c : Command) (directory : Path) : Command := { c with directory := some directory }

/-- The program and its arguments, with one blank before each argument. -/
def display (c : Command) : String :=
  c.arguments.foldl (fun text argument => s!"{text} {Text.lossy argument}") c.program.display

end Command

/-- How a process ended: with an exit code, by a signal, or in a way that shows neither. -/
structure Output where
  stdout : Bytes
  stderr : Bytes
  exitCode : Option Int
  signal : Option Int
  deriving DecidableEq, Repr

namespace Output

def describe (o : Output) : String :=
  match o.exitCode, o.signal with
  | some code, _ => s!"Exited with code {code}"
  | none, some signal => s!"Terminated by signal {signal}"
  | none, none => "Exited abnormally"

/-- The last `most` bytes of the standard output followed by the standard error, as text. -/
def tail (o : Output) (most : Nat) : String :=
  Text.lossy ((o.stdout ++ o.stderr).takeLast most)

end Output

/-- How a run of a tool ended. -/
inductive Outcome where
  | completed (output : Output)
  | failed (output : Output)
  | timedOut
  deriving DecidableEq, Repr

/-- How a process ended. -/
inductive Status where
  | exited (code : Nat)
  | signalled (signal : Nat)
  deriving DecidableEq, Repr

def Status.isSuccess (s : Status) : Bool := s == .exited 0

def Status.exitCode? : Status → Option Int
  | exited code => some code
  | signalled _ => none

def Status.signal? : Status → Option Int
  | exited _ => none
  | signalled signal => some signal

/-- What one poll of a running tool sees. Times are in microseconds. -/
structure Observation where
  ended : Option Status
  cancelled : Bool
  elapsed : Nat
  deriving DecidableEq, Repr

/-- Why waiting for a tool ends. -/
inductive Ending where
  | exited (status : Status)
  | cancelled
  | timedOut
  deriving DecidableEq, Repr

/-- Whether a poll ends the wait: an exit goes before an interrupt, an interrupt before a
timeout. -/
def Observation.ending? (limit : Option Nat) (o : Observation) : Option Ending :=
  match o.ended with
  | some status => some (.exited status)
  | none =>
    if o.cancelled then some .cancelled
    else if limit.any (· < o.elapsed) then some .timedOut
    else none

/-- A way to wait: what a poll sees in a state, how the pause after it changes the state, and which
observations end the wait. -/
structure Wait (σ : Type u) where
  look : σ → Observation
  pause : σ → σ
  stop : Observation → Option Ending

/-- Polls until a poll ends the wait, with a pause after each one that does not. A wait that no
poll ends has no outcome. -/
def Wait.poll? (wait : Wait σ) (s : σ) : Option (Ending × σ) :=
  match wait.stop (wait.look s) with
  | some ending => some (ending, s)
  | none => wait |>.poll? (wait.pause s)
partial_fixpoint

end BugHunt
