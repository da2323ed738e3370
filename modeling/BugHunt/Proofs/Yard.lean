import BugHunt.Proofs.Building
/-!
A yard where compilers are at work: the files of a bench, on which any number of programs and the
compilers that they have started do their work at the same time. What a compiler writes to its
output and when, or that it deletes it, how it ends, what is refused and which names are drawn for
temporary files is as fate has it. A compiler touches no file but its output, and what is drawn is
six letters or digits that make a name which was not given before.
-/

namespace BugHunt.Proofs.Yard
open Trees Places Bench

/-- What happens around one answer. -/
structure Fate where
  /-- What running compilers leave in their outputs before it; one that leaves nothing deletes it. -/
  works : List (Nat × Option Bytes)
  refused : Option Failure
  drawn : String
  cancelled : Bool
  ending : Except Failure Ending
  streams : Bytes × Bytes

structure State where
  tree : FileTree
  running : List (Nat × Command)
  started : Nat
  /-- The runs that exited with 0, with what was in the output then. -/
  finished : List (Command × Option Bytes)
  /-- Where temporary files have been made. -/
  given : List Place
  fates : Nat → Fate
  time : Nat

def start (tree : FileTree) (fates : Nat → Fate) : State := ⟨tree, [], 0, [], [], fates, 0⟩

variable (b : Bench)

/-- Where a compiler writes. -/
def output? (command : Command) : Option Place :=
  match Call.ofArguments? command.arguments with
  | some (.compile _ _ output) => some (placeOf (b.base command) output)
  | _ => none

/-- What is left after a running compiler has written to its output or deleted it. -/
def leave (running : List (Nat × Command)) (t : FileTree) (work : Nat × Option Bytes) : FileTree :=
  match (running.lookup work.1).bind (output? b), work.2 with
  | some place, some bytes => put t place (some bytes)
  | some place, none => (remove t place).toOption.getD t
  | none, _ => t

/-- The yard after the compilers have gone on with their work. -/
def State.worked (y : State) : State :=
  { y with
    tree := (y.fates y.time).works.foldl (leave b y.running) y.tree
    time := y.time + 1 }

/-- The answer of a file operation that is refused. Nothing hinders a program from looking whether a
file is there, or from deleting one. -/
def refusal (cause : Failure) : (r : FileRequest) → Option r.Answer
  | .exists _ | .isFile _ | .remove _ => none
  | .read _ | .createDirectories _ | .createDirectory _ | .write .. | .makeExecutable _
  | .touch _ | .copy .. | .rename .. | .removeTree _ => some (.error cause)

def isDrawn (text : String) : Bool := text.length = 6 && text.toList.all Char.isAlphanum

/-- The yard without a compiler. -/
def State.without (y : State) (child : Child) : State :=
  { y with running := y.running.filter fun entry => entry.1 != child.id }

/-- The yard after a compiler has exited. -/
def State.exited (y : State) (child : Child) (status : Status) : State :=
  match y.running.lookup child.id with
  | some command =>
    if status.isSuccess then
      { y.without child with
        finished := (command, (output? b command).bind (content y.tree)) :: y.finished }
    else y.without child
  | none => y.without child

def serveFile (fate : Fate) (y : State) (r : FileRequest) : r.Answer × State :=
  match fate.refused.bind fun cause => refusal cause r with
  | some answer => (answer, y)
  | none =>
    let (answer, s) := b.answerFile ⟨y.tree, [], 0⟩ r
    (answer, { y with tree := s.tree })

/-- Makes an empty file with a drawn name. -/
def makeFile (fate : Fate) (y : State) (directory : Path) (before after : String) :
    Except Failure Path × State :=
  let path := directory / Path.ofString (before ++ fate.drawn ++ after)
  if isDrawn fate.drawn ∧ b.place path ∉ y.given ∧ y.tree.node? (b.place path) = none then
    match write y.tree (b.place path) [] with
    | .ok tree => (.ok path, { y with tree, given := b.place path :: y.given })
    | .error cause => (.error cause, y)
  else (.error (.system .alreadyThere), y)

def answer (fate : Fate) (y : State) : (r : Request) → r.Answer × State
  | .file request => serveFile b fate y request
  | .temporaryDirectory .. => (.error (.system .denied), y)
  | .temporaryFile directory before after => makeFile b fate y directory before after
  | .search _ => ([], y)
  | .isCancelled => (fate.cancelled, y)
  | .choose _ => ((0 : Nat), y)
  | .log _ => ((), y)
  | .spawn command _ =>
    match fate.refused with
    | some cause => (.error cause, y)
    | none => (.ok ⟨y.started⟩,
        { y with running := (y.started, command) :: y.running, started := y.started + 1 })
  | .await child _ =>
    (fate.ending, match fate.ending with
      | .ok (.exited status) => y.exited b child status
      | .ok _ => y
      | .error _ => y.without child)
  | .terminate child => ((), y.without child)
  | .collect _ => (fate.streams, y)

/-- How the yard answers: the compilers go on with their work, then what is asked is done. -/
def host : Host State := fun r y => answer b (y.fates y.time) (y.worked b) r

end BugHunt.Proofs.Yard
