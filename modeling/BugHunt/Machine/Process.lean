import BugHunt.FileTree.Search
import BugHunt.Log
import BugHunt.Machine.Task
/-!
The state of a model machine: a tree of files, processes with their open files and pipes, and a
clock that only the processes and the host move.
-/

namespace BugHunt

/-- Bytes on their way from writers to readers. -/
structure Pipe where
  front : List Bytes
  /-- What was written last, last first. -/
  back : List Bytes
  /-- Whether the host reads it. -/
  read : Bool
  deriving Inhabited

namespace Pipe

def isEmpty (p : Pipe) : Bool := p.front.isEmpty && p.back.isEmpty

def push (p : Pipe) (content : Bytes) : Pipe := { p with back := content :: p.back }

/-- Takes at most `most` bytes from the front. -/
def pop (p : Pipe) (most : Nat) : Bytes × Pipe :=
  let (front, back) := if p.front.isEmpty then (p.back.reverse, []) else (p.front, p.back)
  match front with
  | [] => ([], { p with front, back })
  | first :: rest =>
    let left := first.drop most
    (first.take most, { p with front := if left.isEmpty then rest else left :: rest, back })

def contents (p : Pipe) : Bytes := (p.front ++ p.back.reverse).flatten

end Pipe

/-- What an open file stands for. -/
inductive Source where
  | file (place : Place)
  | sink
  /-- Yields zero bytes without end. -/
  | zeros
  | text (content : Bytes)
  | reads (pipe : Nat)
  | writes (pipe : Nat)
  deriving DecidableEq, Repr, Inhabited

/-- An open file; those who share it share its position. -/
structure OpenFile where
  source : Source
  position : Nat
  append : Bool
  deriving Repr, Inhabited

/-- What a process is about to do. -/
inductive Activity where
  | ready (task : Task) (time : Nat)
  | blocked (call : Call) (next : Reply → Task) (since : Nat)
  | ended (status : Status)

structure Process where
  id : Nat
  parent : Nat
  group : Nat
  name : Bytes
  here : Place
  /-- Descriptors and the open files they stand for. -/
  descriptors : List (Nat × Nat)
  softLimit : Option Nat
  hardLimit : Option Nat
  ignored : List Signal
  caught : List Signal
  pending : List Signal
  activity : Activity

/-- The pipes that a process started by the host writes its output to. -/
structure Streams where
  out : Nat
  err : Nat
  deriving Repr, Inhabited

structure Machine where
  tree : FileTree
  /-- The directory that the host works in. -/
  here : Place
  temporary : Path
  environment : Environment
  clock : Nat := 0
  processes : List Process := []
  files : List (Nat × OpenFile) := []
  pipes : List (Nat × Pipe) := []
  /-- The last number given to a process, an open file or a pipe. -/
  lastProcess : Nat := 1000
  lastNumber : Nat := 0
  lastName : Nat := 0
  streams : List (Nat × Streams) := []
  cancelled : Bool := false
  /-- When the run is interrupted. -/
  tripsAt : Option Nat := none
  turns : Nat := 0
  /-- What was logged, last line first. -/
  log : List LogLine := []

namespace Machine

/-- The path of a place. -/
def pathOf (place : Place) : Bytes := Path.slash :: [Path.slash].intercalate place

def herePath (m : Machine) : Path := ⟨pathOf m.here⟩

def process? (m : Machine) (id : Nat) : Option Process := m.processes.find? (·.id = id)

/-- Puts a process in the place of its older self. -/
def update (m : Machine) (p : Process) : Machine :=
  { m with processes := m.processes.map fun q => if q.id = p.id then p else q }

def isEnded (p : Process) : Bool :=
  match p.activity with
  | .ended _ => true
  | _ => false

/-- Forgets open files that no descriptor stands for. -/
def forgetFiles (m : Machine) : Machine :=
  { m with files := m.files.filter fun (number, _) =>
    m.processes.any fun p => p.descriptors.any fun (_, file) => file = number }

def hasWriter (m : Machine) (pipe : Nat) : Bool :=
  m.files.any fun (_, file) => file.source = .writes pipe

def hasReader (m : Machine) (pipe : Nat) : Bool :=
  (m.pipes.lookup pipe).any (·.read) || m.files.any fun (_, file) => file.source = .reads pipe

def setPipe (m : Machine) (number : Nat) (pipe : Pipe) : Machine :=
  { m with pipes := m.pipes.map fun entry => if entry.1 = number then (number, pipe) else entry }

def setFile (m : Machine) (number : Nat) (file : OpenFile) : Machine :=
  { m with files := m.files.map fun entry => if entry.1 = number then (number, file) else entry }

/-- Adds an open file and tells its number. -/
def addFile (m : Machine) (file : OpenFile) : Machine × Nat :=
  let number := m.lastNumber + 1
  ({ m with lastNumber := number, files := (number, file) :: m.files }, number)

def addPipe (m : Machine) (read : Bool) : Machine × Nat :=
  let number := m.lastNumber + 1
  ({ m with lastNumber := number, pipes := (number, ⟨[], [], read⟩) :: m.pipes }, number)

/-- Whether a process waits for its end to be noticed, or is left alone. -/
def isWatched (m : Machine) (p : Process) : Bool :=
  p.parent = 0 || m.processes.any fun q => q.id = p.parent && !isEnded q

/-- Ends a process. Its children have no parent any more, and nobody waits for those of them that
have ended. -/
def finish (m : Machine) (p : Process) (status : Status) : Machine :=
  let m := m.update { p with activity := .ended status, descriptors := [] }
  let m := { m with processes := m.processes.filter fun q => !isEnded q || m.isWatched q }
  m.forgetFiles

/-- Whether the run is interrupted. -/
def isCancelled (m : Machine) : Bool := m.cancelled || m.tripsAt.any (· ≤ m.clock)

/-- What a signal does to a process. -/
def deliver (m : Machine) (signal : Signal) (id : Nat) : Machine :=
  match m.process? id with
  | none => m
  | some p =>
    if isEnded p || signal = 0 then m
    else if signal = Signal.kill then m.finish p (.signalled signal)
    else if p.ignored.contains signal then m
    else if p.caught.contains signal then m.update { p with pending := p.pending ++ [signal] }
    else if Signal.isHarmless signal || Signal.isStop signal then m
    else m.finish p (.signalled signal)

def signalGroup (m : Machine) (group : Nat) (signal : Signal) : Machine :=
  (m.processes.filter (·.group = group)).foldl (fun m p => m.deliver signal p.id) m

end Machine
end BugHunt
