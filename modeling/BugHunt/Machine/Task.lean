import BugHunt.FileTree.Basic
import BugHunt.Tool
/-!
What a process does: a finite exchange of system calls and replies, in which it may fork.
-/

namespace BugHunt

abbrev Signal := Nat

namespace Signal

def hangup : Signal := 1
def kill : Signal := 9
def pipe : Signal := 13
def terminate : Signal := 15

/-- The names of signals, without the letters that all of them begin with. -/
def names : List (String × Signal) := [
  ("HUP", 1), ("INT", 2), ("QUIT", 3), ("ILL", 4), ("TRAP", 5), ("ABRT", 6), ("BUS", 7),
  ("FPE", 8), ("KILL", 9), ("USR1", 10), ("SEGV", 11), ("USR2", 12), ("PIPE", 13), ("ALRM", 14),
  ("TERM", 15), ("STKFLT", 16), ("CHLD", 17), ("CONT", 18), ("STOP", 19), ("TSTP", 20),
  ("TTIN", 21), ("TTOU", 22), ("URG", 23), ("XCPU", 24), ("XFSZ", 25), ("VTALRM", 26),
  ("PROF", 27), ("WINCH", 28), ("IO", 29), ("PWR", 30), ("SYS", 31)]

/-- Signals that change nothing unless they are caught. -/
def isHarmless (s : Signal) : Bool := s = 17 || s = 18 || s = 23 || s = 28

/-- Signals that stop a process rather than end it. -/
def isStop (s : Signal) : Bool := 19 ≤ s && s ≤ 22

/-- What is said of a process that a signal ended. -/
def description (s : Signal) : String :=
  match s with
  | 1 => "Hangup"
  | 2 => ""
  | 3 => "Quit"
  | 4 => "Illegal instruction"
  | 5 => "Trace/breakpoint trap"
  | 6 => "Aborted"
  | 7 => "Bus error"
  | 8 => "Floating point exception"
  | 9 => "Killed"
  | 10 => "User defined signal 1"
  | 11 => "Segmentation fault"
  | 12 => "User defined signal 2"
  | 13 => ""
  | 14 => "Alarm clock"
  | 15 => "Terminated"
  | 16 => "Stack fault"
  | 24 => "CPU time limit exceeded"
  | 25 => "File size limit exceeded"
  | 26 => "Virtual timer expired"
  | 27 => "Profiling timer expired"
  | 29 => "I/O possible"
  | 30 => "Power failure"
  | 31 => "Bad system call"
  | n => s!"Unknown signal {n}"

end Signal

/-- Names and values that a process hands on to those it starts. -/
abbrev Environment := List (Bytes × Bytes)

/-- How a file is opened. -/
inductive OpenMode where
  | read
  | write
  | append
  | update
  deriving DecidableEq, Repr

/-- What a process does on a signal. -/
inductive Disposition where
  | default
  | ignore
  | catch
  deriving DecidableEq, Repr

/-- What a signal is sent to. -/
inductive Recipient where
  | process (id : Nat)
  | group (id : Nat)
  | ownGroup
  deriving DecidableEq, Repr

/-- System calls. -/
inductive Call where
  | «open» (path : Path) (mode : OpenMode)
  | close (descriptor : Nat)
  /-- Lets a second descriptor stand for the same open file. -/
  | duplicate (source target : Nat)
  /-- Like `duplicate`; the target is the first free descriptor from ten on. -/
  | keep (source : Nat)
  | pipe
  | read (descriptor most : Nat)
  | write (descriptor : Nat) (content : Bytes)
  /-- Waits for one child or for any. Only a wait that may be interrupted ends with a signal. -/
  | wait (child : Option Nat) (mayBeInterrupted : Bool)
  | send (recipient : Recipient) (signal : Signal)
  | dispose (signal : Signal) (disposition : Disposition)
  /-- The caught signals that have come in. -/
  | caught
  /-- Sleeps for a time in microseconds. -/
  | sleep (time : Nat)
  | ownId
  | parentId
  | clock
  | changeDirectory (path : Path)
  | currentDirectory
  | look (path : Path) (followLast : Bool)
  | list (path : Path)
  | createDirectory (path : Path)
  | removeDirectory (path : Path)
  | remove (path : Path)
  | rename (source target : Path)
  | link (path target : Path)
  | setExecutable (path : Path) (executable : Bool)
  | touch (path : Path)
  /-- Becomes another program; the call has a reply only when that fails. -/
  | exec (file : Path) (arguments : List Bytes) (environment : Environment)
  /-- The soft or the hard limit on memory, in bytes. -/
  | memoryLimit (hard : Bool)
  | limitMemory (soft hard : Bool) (limit : Option Nat)
  /-- Leads a process group of its own from now on. -/
  | leadGroup
  /-- Spends time. -/
  | spend
  deriving Repr

inductive Reply where
  | done
  | failed (errno : Errno)
  | number (n : Nat)
  | bound (limit : Option Nat)
  | numbers (ns : List Nat)
  | bytes (content : Bytes)
  | ended (child : Nat) (status : Status)
  | interrupted
  | node (node : Node)
  | entries (entries : List (Bytes × Node))
  deriving Repr, Inhabited

inductive Task where
  | exit (code : Nat)
  | call (call : Call) (next : Reply → Task)
  | fork (child : Task) (next : Nat → Task)

/-- A part of a task: what it does before it hands a value to the rest. -/
def Proc (α : Type) : Type := (α → Task) → Task

namespace Proc

instance : Monad Proc where
  pure value := fun next => next value
  bind p f := fun next => p fun value => f value next

def call (c : Call) : Proc Reply := fun next => .call c next

def exit (code : Nat) : Proc α := fun _ => .exit code

def fork (child : Task) : Proc Nat := fun next => .fork child next

/-- The whole task, which ends with the code that the part hands over. -/
def toTask (p : Proc Nat) : Task := p .exit

def asked (c : Call) : Proc (Except Errno Unit) := do
  match ← call c with
  | .failed errno => return .error errno
  | _ => return .ok ()

def number (c : Call) : Proc (Except Errno Nat) := do
  match ← call c with
  | .number n => return .ok n
  | .failed errno => return .error errno
  | _ => return .error .invalid

/-- At most `most` bytes from a descriptor; none at its end. -/
def read (descriptor most : Nat) : Proc (Except Errno Bytes) := do
  match ← call (.read descriptor most) with
  | .bytes content => return .ok content
  | .failed errno => return .error errno
  | _ => return .error .invalid

def write (descriptor : Nat) (content : Bytes) : Proc (Except Errno Unit) :=
  if content.isEmpty then return .ok () else asked (.write descriptor content)

def writeText (descriptor : Nat) (text : String) : Proc Unit := do
  let _ ← write descriptor (utf8 text)

def look (path : Path) (followLast : Bool) : Proc (Except Errno Node) := do
  match ← call (.look path followLast) with
  | .node node => return .ok node
  | .failed errno => return .error errno
  | _ => return .error .invalid

def list (path : Path) : Proc (Except Errno (List (Bytes × Node))) := do
  match ← call (.list path) with
  | .entries entries => return .ok entries
  | .failed errno => return .error errno
  | _ => return .error .invalid

def currentDirectory : Proc Bytes := do
  match ← call .currentDirectory with
  | .bytes path => return path
  | _ => return []

/-- How many bytes are read at a time. -/
def blockSize : Nat := 65536

/-- All bytes up to the end of a descriptor, in at most `most` reads, last read first. -/
def readBlocks (descriptor : Nat) (blocks : List Bytes) : Nat → Proc (Except Errno (List Bytes))
  | 0 => return .ok blocks
  | most + 1 => do
    match ← read descriptor blockSize with
    | .error errno => return .error errno
    | .ok [] => return .ok blocks
    | .ok content => readBlocks descriptor (content :: blocks) most

/-- More reads than any file takes. -/
def manyReads : Nat := 1000000

def readAll (descriptor : Nat) : Proc (Except Errno Bytes) := do
  return (← readBlocks descriptor [] manyReads).map fun blocks => blocks.reverse.flatten

/-- The whole content of a file. -/
def contents (path : Path) : Proc (Except Errno Bytes) := do
  match ← number (.open path .read) with
  | .error errno => return .error errno
  | .ok descriptor =>
    let content ← readAll descriptor
    let _ ← call (.close descriptor)
    return content

end Proc
end BugHunt
