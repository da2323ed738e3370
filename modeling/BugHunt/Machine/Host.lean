import BugHunt.Host.Program
import BugHunt.Machine.Kernel
/-!
The model machine as a host of programs.
-/

namespace BugHunt.Machine

/-- Lets time pass. -/
def spend (m : Machine) (time : Nat) : Machine := m.runUntil (m.clock + time)

def hasNul (path : Path) : Bool := path.bytes.contains 0

/-- An operation on the tree that the host carries out. -/
def changeTree (m : Machine) (result : Except Errno FileTree) : Except Failure Unit × Machine :=
  match result with
  | .ok tree => (.ok (), { m with tree })
  | .error errno => (.error (.system errno), m)

/-- Refuses names with a zero byte in them, else carries the operation out. -/
def naming (paths : List Path) (m : Machine) (operation : Except Failure α × Machine) :
    Except Failure α × Machine :=
  if paths.any hasNul then (.error .nulInName, m) else operation

def answerFile (m : Machine) : (r : FileRequest) → r.Answer × Machine
  | .read path =>
    naming [path] m (match m.tree.read m.here path with
      | .ok content => (.ok content, m)
      | .error errno => (.error (.system errno), m))
  | .exists path => (!hasNul path && m.tree.exists m.here path, m)
  | .isFile path => (!hasNul path && m.tree.isFile m.here path, m)
  | .createDirectories path =>
    naming [path] m (match m.tree.createDirectories m.here path with
      | (tree, .ok ()) => (.ok (), { m with tree })
      | (tree, .error errno) => (.error (.system errno), { m with tree }))
  | .createDirectory path => naming [path] m (m.changeTree (m.tree.createDirectory m.here path))
  | .write path content => naming [path] m (m.changeTree (m.tree.write m.here path content))
  | .makeExecutable path =>
    naming [path] m (m.changeTree (m.tree.setExecutable m.here path true))
  | .touch path => naming [path] m (m.changeTree (m.tree.touch m.here path))
  | .copy source target =>
    naming [source, target] m (match m.tree.copy m.here source target with
      | .ok tree => (.ok (), { m with tree })
      | .error failure => (.error failure, m))
  | .rename source target =>
    naming [source, target] m (m.changeTree (m.tree.rename m.here source target))
  | .remove path => naming [path] m (m.changeTree (m.tree.remove m.here path))
  | .removeTree path => naming [path] m (m.changeTree (m.tree.removeTree m.here path))

/-- The letters and digits of temporary names. -/
def nameSigns : List Char := "abcdefghijklmnopqrstuvwxyzABCDEFGHIJKLMNOPQRSTUVWXYZ0123456789".toList

/-- Six letters or digits for a number, different for different small numbers. -/
def freshName (n : Nat) : String :=
  String.ofList ((List.range 6).map fun i => nameSigns.getD ((n / Nat.pow 62 i + 7 * i) % 62) 'a')

/-- Makes a file or a directory with a name of its own in a directory. -/
def makeTemporary (m : Machine) (directory : Path) (before after : String) (isFile : Bool) :
    Except Failure Path × Machine :=
  let m := { m with lastName := m.lastName + 1 }
  let path := directory / (before ++ freshName m.lastName ++ after)
  if hasNul path then (.error (.making path .nulInName), m)
  else
    let result := if isFile then m.tree.write m.here path [] else m.tree.createDirectory m.here path
    match result with
    | .ok tree => (.ok path, { m with tree })
    | .error errno => (.error (.making path (.system errno)), m)

/-- The directories that the host looks for programs in. -/
def searchPath (m : Machine) : List Bytes := Utility.searchPath m.environment

/-- Loads the program that a file name stands for. A file that is no program is run as a
script. -/
def loadOrScript (m : Machine) (p : Process) (file : Path) (arguments : List Bytes) :
    Except Errno Process :=
  match m.load p file arguments m.environment with
  | .error .badFormat =>
    m.load p "/bin/sh" (utf8 "sh" :: file.bytes :: arguments.drop 1) m.environment
  | result => result

/-- Loads the first program of a name. -/
def loadByName (m : Machine) (p : Process) (name : Bytes) (arguments : List Bytes) :
    List Bytes → Errno → Except Errno Process
  | [], errno => .error errno
  | directory :: rest, errno =>
    match m.loadOrScript p ⟨Utility.below directory name⟩ arguments with
    | .ok p => .ok p
    | .error .denied => loadByName m p name arguments rest .denied
    | .error .noEntry | .error .notDirectory => loadByName m p name arguments rest errno
    | .error other => .error other

def loadCommand (m : Machine) (p : Process) (command : Command) : Except Errno Process :=
  let arguments := command.program.bytes :: command.arguments
  if command.program.bytes.contains Path.slash then m.loadOrScript p command.program arguments
  else if command.program.bytes = [] then .error .noEntry
  else if FileTree.longestName < command.program.bytes.length then .error .nameTooLong
  else m.loadByName p command.program.bytes arguments m.searchPath .noEntry

/-- The directory that a command runs in. -/
def workingDirectory (m : Machine) (command : Command) : Except Errno Place := do
  match command.directory with
  | none => return m.here
  | some path =>
    let (place, node) ← m.tree.existing m.here path true
    if node.isDirectory then return place else throw .notDirectory

/-- Starts a tool: it leads a process group, reads nothing and writes to two pipes that the host
reads. -/
def start (m : Machine) (command : Command) (memory : Option Nat) :
    Except Failure Child × Machine :=
  if hasNul command.program || command.arguments.any (·.contains 0)
      || command.directory.any hasNul then (.error .nulInArgument, m)
  else
    let m := m.spend 500
    let id := m.lastProcess + 1
    let p : Process := {
      id, parent := 0, group := id, name := [], here := m.here, descriptors := []
      softLimit := memory, hardLimit := none, ignored := [], caught := [], pending := []
      activity := .ended (.exited 0) }
    let loaded := do
      let here ← m.workingDirectory command
      m.loadCommand { p with here } command
    match loaded with
    | .error errno => (.error (.system errno), { m with lastProcess := id })
    | .ok p =>
      let (m, out) := m.addPipe true
      let (m, err) := m.addPipe true
      let (m, input) := m.addFile ⟨.sink, 0, false⟩
      let (m, outFile) := m.addFile ⟨.writes out, 0, false⟩
      let (m, errFile) := m.addFile ⟨.writes err, 0, false⟩
      let p := { p with descriptors := [(0, input), (1, outFile), (2, errFile)] }
      (.ok ⟨id⟩, { m with
        lastProcess := id
        processes := m.processes ++ [p]
        streams := (id, ⟨out, err⟩) :: m.streams })

/-- How a child ended, if it has. -/
def statusOf (m : Machine) (child : Child) : Option Status :=
  match m.process? child.id with
  | none => none
  | some p =>
    match p.activity with
    | .ended status => some status
    | _ => none

/-- How long lies between two looks at a child, and between a signal that asks it to end and one
that makes it. -/
def pollInterval : Nat := 50000
def grace : Nat := 2000000

/-- What a look at a child sees, in a wait that has begun at `start`. -/
def look (m : Machine) (child : Child) (start : Nat) : Observation :=
  ⟨m.statusOf child, m.isCancelled, m.clock - start⟩

/-- Lets the time between two looks pass. -/
def pause (m : Machine) : Machine := m.spend (pollInterval + 80)

/-- How the host waits for a child, when the wait has begun at `start`. -/
def waitFor (child : Child) (stop : Observation → Option Ending) (start : Nat) : Wait Machine where
  look m := m.look child start
  pause := pause
  stop

/-- Gives a child time to end after it was asked to. -/
def awaitEnd (child : Child) (deadline : Nat) (m : Machine) : Nat → Machine
  | 0 => m
  | fuel + 1 =>
    if (m.statusOf child).isSome || deadline ≤ m.clock then m
    else awaitEnd child deadline m.pause fuel

/-- More looks than a time of grace has room for. -/
def manyLooks : Nat := 10000000

/-- Asks a child's group to end, and makes it after a time of grace. -/
def terminate (m : Machine) (child : Child) : Machine :=
  let m := m.signalGroup child.id Signal.terminate
  let m := awaitEnd child (m.clock + grace) m manyLooks
  (m.signalGroup child.id Signal.kill).deliver Signal.kill child.id

/-- Runs the processes until nobody writes to a pair of pipes any more, and takes what was
written. -/
def drain (m : Machine) (child : Child) : (Bytes × Bytes) × Machine :=
  match m.streams.lookup child.id with
  | none => (([], []), m)
  | some s =>
    let open? (m : Machine) : Bool := m.hasWriter s.out || m.hasWriter s.err
    let m := runWhile open? none m manySteps
    let content (pipe : Nat) : Bytes := ((m.pipes.lookup pipe).map Pipe.contents).getD []
    ((content s.out, content s.err), { m with
      pipes := m.pipes.filter fun (number, _) => number ≠ s.out && number ≠ s.err
      streams := m.streams.filter (·.1 ≠ child.id)
      processes := m.processes.filter (·.id ≠ child.id) })

/-- How the machine answers. -/
def host : Host Machine
  | .file request, m => (m.spend 10).answerFile request
  | .temporaryDirectory before after, m =>
    (m.spend 10).makeTemporary m.temporary before after false
  | .temporaryFile directory before after, m =>
    (m.spend 10).makeTemporary (m.herePath.join directory) before after true
  | .search root, m =>
    let m := m.spend 10
    (if hasNul root then [.unreadable root .invalid] else m.tree.search m.here root, m)
  | .isCancelled, m => (m.isCancelled, m)
  | .choose _, m => (m.turns, { m with turns := m.turns + 1 })
  | .log line, m => ((), { m with log := line :: m.log })
  | .spawn command memory, m => m.start command memory
  | .await child stop, m =>
    let m := m.spend 20
    match (waitFor child stop m.clock).poll? (m.spend 10) with
    | some (ending, m) => (.ok ending, m)
    | none => (.error (.system .noChild), m)
  | .terminate child, m => ((), m.terminate child)
  | .collect child, m => m.drain child

/-- Runs a program on the machine. -/
def run (m : Machine) (p : Program α) : α × Machine := p.run host m

/-- The lines that were logged, in their order. -/
def lines (m : Machine) : List LogLine := m.log.reverse

end BugHunt.Machine
