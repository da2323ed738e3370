import BugHunt.Found
import BugHunt.Log
import BugHunt.Tool
/-!
What a program may ask of its host, and the form of each answer.
-/

namespace BugHunt

/-- Operations on the host's files. -/
inductive FileRequest where
  | read (path : Path)
  | «exists» (path : Path)
  | isFile (path : Path)
  | createDirectories (path : Path)
  | createDirectory (path : Path)
  | write (path : Path) (content : Bytes)
  | makeExecutable (path : Path)
  | touch (path : Path)
  | copy (source target : Path)
  | rename (source target : Path)
  | remove (path : Path)
  | removeTree (path : Path)

def FileRequest.Answer : FileRequest → Type
  | read _ => Except Failure Bytes
  | «exists» _ | isFile _ => Bool
  | _ => Except Failure Unit

/-- A process that the program started. -/
structure Child where
  id : Nat
  deriving DecidableEq, Repr

inductive Request where
  | file (request : FileRequest)
  /-- Makes a directory with a name of its own among the host's temporary files. -/
  | temporaryDirectory (before after : String)
  /-- Makes an empty file with a name of its own in a directory. -/
  | temporaryFile (directory : Path) (before after : String)
  /-- What lies below a path, links not followed. -/
  | search (root : Path)
  | isCancelled
  /-- Which of several runs that go on side by side takes the next step. -/
  | choose (among : Nat)
  | log (line : LogLine)
  /-- Starts a tool under a limit on its memory, in bytes. -/
  | spawn (command : Command) (memory : Option Nat)
  /-- Polls a child until an observation ends the wait. -/
  | await (child : Child) (stop : Observation → Option Ending)
  /-- Ends a child and all that it started. -/
  | terminate (child : Child)
  /-- The standard output and error of a child, read to their ends. -/
  | collect (child : Child)

def Request.Answer : Request → Type
  | file request => request.Answer
  | temporaryDirectory .. | temporaryFile .. => Except Failure Path
  | search _ => List Found
  | isCancelled => Bool
  | choose _ => Nat
  | log _ | terminate _ => Unit
  | spawn .. => Except Failure Child
  | await .. => Except Failure Ending
  | collect _ => Bytes × Bytes

end BugHunt
