import BugHunt.Machine.Process
import BugHunt.Shell.Evaluation
import BugHunt.Utility
/-!
How the model machine answers the calls of its processes, and how it runs them: always the one
that is ready first. Times are in microseconds.
-/

namespace BugHunt.Machine

/-- What a file holds that is one of the machine's own programs. -/
def programMark : Bytes := 0x7F :: utf8 "ELF"

/-- The program in a file: one of the machine's own, or a script for another. -/
inductive Image where
  | own (name : String)
  | script (interpreter : Path) (argument : Option Bytes)

def isBlank (b : UInt8) : Bool := b = 0x20 || b = 0x09

def image? (content : Bytes) : Option Image :=
  if programMark.isPrefixOf content then some (.own (Text.lossy (content.drop programMark.length)))
  else if (utf8 "#!").isPrefixOf content then
    let line := ((content.drop 2).takeWhile (· ≠ 10)).dropWhile isBlank
    let interpreter := line.takeWhile fun b => !isBlank b
    let argument := ((line.drop interpreter.length).dropWhile isBlank).reverse.dropWhile isBlank
    if interpreter.isEmpty then none
    else some (.script ⟨interpreter⟩ (if argument.isEmpty then none else some argument.reverse))
  else none

/-- The most that one argument, and all of them, may take. -/
def longestArgument : Nat := 131072
def longestArguments : Nat := 2097152

/-- The task that running a file comes to. -/
def program (tree : FileTree) (here : Place) (file : Path) (arguments : List Bytes)
    (environment : Environment) : Nat → Except Errno Task
  | 0 => .error .linkLoop
  | depth + 1 => do
    match ← tree.stat here file with
    | .file content true =>
      match image? content with
      | none => .error .badFormat
      | some (.own name) =>
        if Utility.shells.contains name then .ok (Shell.task arguments environment)
        else match Utility.find? name with
          | some applet => .ok (applet ⟨name, arguments.drop 1, environment⟩).toTask
          | none => .error .badFormat
      | some (.script interpreter argument) =>
        program tree here interpreter
          (interpreter.bytes :: argument.toList ++ file.bytes :: arguments.drop 1) environment depth
    | _ => .error .denied

/-- How deep scripts may call for each other. -/
def deepestScript : Nat := 5

def shortName (path : Path) : Bytes := (path.fileName?.getD path.bytes).take 15

/-- Makes a process run another program. -/
def load (m : Machine) (p : Process) (file : Path) (arguments : List Bytes)
    (environment : Environment) : Except Errno Process := do
  if arguments.any fun a => longestArgument ≤ a.length then throw .argumentsTooLong
  if longestArguments < arguments.foldl (fun total a => total + a.length + 9) 0 then throw .argumentsTooLong
  let task ← program m.tree p.here file arguments environment deepestScript
  return { p with
    name := shortName file
    descriptors := p.descriptors.filter (·.1 < 10)
    caught := []
    activity := .ready task (m.clock + 500) }

/-- The smallest descriptor from a number on that is free. -/
def freeDescriptor (p : Process) (least : Nat) : Nat :=
  let used := p.descriptors.map (·.1)
  ((List.range (used.length + 1)).map (· + least)).find? (fun n => !used.contains n)
    |>.getD (least + used.length)

/-- What is told of a process. -/
def processText (p : Process) : Bytes :=
  utf8 s!"{p.id} (" ++ p.name ++ utf8 s!") S {p.parent} {p.group} 0 0 -1 4194304 100" ++
    utf8 " 0 0 0 0 0 0 0 20 0 1 0 0 0 0\n"

/-- The process whose status file a path names. -/
def statusFile? (m : Machine) (p : Process) (path : Path) : Option Process :=
  match path.components with
  | [.root, .normal a, .normal b, .normal c] =>
    if a = utf8 "proc" && c = utf8 "stat" then
      if b = utf8 "self" then some p else (Utility.decimal? b).bind m.process?
    else none
  | _ => none

/-- The name of a device that a path stands for. -/
def deviceName? (path : Path) : Option String :=
  match path.components with
  | [.root, .normal directory, .normal name] =>
    if directory = utf8 "dev" then Text.decode? name else none
  | [.root, .normal directory, .normal inner, .normal name] =>
    if directory = utf8 "dev" && inner = utf8 "fd" then (Text.decode? name).map ("fd/" ++ ·)
    else none
  | _ => none

/-- The descriptor that a device stands for. -/
def ofDevice? (name : String) : Option Nat :=
  match name with
  | "stdin" => some 0
  | "stdout" => some 1
  | "stderr" => some 2
  | name =>
    let chars := name.toList
    if "fd/".toList.isPrefixOf chars then Utility.decimal? (utf8 (String.ofList (chars.drop 3)))
    else none

/-- What a device stands for when a process opens it. -/
def device? (m : Machine) (p : Process) (path : Path) : Option (Except Errno Source) :=
  match deviceName? path with
  | some "zero" => some (.ok .zeros)
  | some name => (ofDevice? name).map fun descriptor =>
    match (p.descriptors.lookup descriptor).bind fun number => m.files.lookup number with
    | some file => .ok file.source
    | none => .error .noEntry
  | none => none

/-- Opens a file for a process; the answer is the source it stands for. -/
def openFile (m : Machine) (p : Process) (path : Path) (mode : OpenMode) :
    Except Errno (Machine × Source) := do
  match m.statusFile? p path, m.device? p path with
  | some q, _ => return (m, .text (processText q))
  | none, some source => return (m, ← source)
  | none, none =>
    match mode with
    | .read =>
      match ← m.tree.existing p.here path true with
      | (_, .sink) => return (m, .sink)
      | (_, .locked) => throw .denied
      | (place, _) => return (m, .file place)
    | mode =>
      let target ← m.tree.writable p.here path
      match target.node with
      | some .sink => return (m, .sink)
      | _ =>
        let tree ← if mode = .write then m.tree.write p.here path [] else m.tree.touch p.here path
        return ({ m with tree }, .file target.place)

/-- Reads from an open file that does not block. -/
def readFile (m : Machine) (number : Nat) (file : OpenFile) (most : Nat) :
    Except Errno (Machine × Bytes) := do
  let advance (content : Bytes) : Machine × Bytes :=
    let piece := (content.drop file.position).take most
    (m.setFile number { file with position := file.position + piece.length }, piece)
  match file.source with
  | .sink => return (m, [])
  | .zeros => return (m, List.replicate most 0)
  | .text content => return advance content
  | .file place =>
    match m.tree.node? place with
    | some (.file content _) => return advance content
    | some .directory | some .locked => throw .isDirectory
    | _ => return (m, [])
  | .reads pipe =>
    match m.pipes.lookup pipe with
    | none => return (m, [])
    | some p =>
      let (piece, p) := p.pop most
      return (m.setPipe pipe p, piece)
  | .writes _ => throw .badDescriptor

/-- The content of a file with a piece written at a position. -/
def spliced (content piece : Bytes) (position : Nat) : Bytes :=
  let before := content.take position
  before ++ List.replicate (position - before.length) 0 ++ piece ++
    content.drop (position + piece.length)

/-- Writes to an open file; `none` tells that nobody reads what is written. -/
def writeFile (m : Machine) (number : Nat) (file : OpenFile) (piece : Bytes) :
    Except Errno (Option Machine) := do
  match file.source with
  | .sink | .zeros => return some m
  | .text _ | .reads _ => throw .badDescriptor
  | .writes pipe =>
    if !m.hasReader pipe then return none
    else match m.pipes.lookup pipe with
      | some p => return some (m.setPipe pipe (p.push piece))
      | none => return none
  | .file place =>
    match m.tree.node? place with
    | some (.file content executable) =>
      let position := if file.append then content.length else file.position
      let tree := m.tree.set place (.file (spliced content piece position) executable)
      let file := { file with position := position + piece.length }
      return some (({ m with tree }).setFile number file)
    | _ => return some m

/-- Lets a process go on with a reply. -/
def reply (m : Machine) (p : Process) (next : Reply → Task) (r : Reply) : Machine :=
  m.update { p with activity := .ready (next r) (m.clock + 1) }

def block (m : Machine) (p : Process) (call : Call) (next : Reply → Task) : Machine :=
  m.update { p with activity := .blocked call next m.clock }

/-- Replies with a changed tree, or with what is wrong. -/
def replyTree (m : Machine) (p : Process) (next : Reply → Task) (result : Except Errno FileTree) :
    Machine :=
  match result with
  | .ok tree => ({ m with tree }).reply p next .done
  | .error errno => m.reply p next (.failed errno)

/-- The processes that a signal is for. -/
def recipients (m : Machine) (p : Process) : Recipient → List Process
  | .process id => m.processes.filter (·.id = id)
  | .group group => m.processes.filter (·.group = group)
  | .ownGroup => m.processes.filter (·.group = p.group)

def endedChild? (m : Machine) (p : Process) (child : Option Nat) : Option (Process × Status) :=
  m.processes.findSome? fun q =>
    if q.parent = p.id && child.all (· = q.id) then
      match q.activity with
      | .ended status => some (q, status)
      | _ => none
    else none

def hasChild (m : Machine) (p : Process) (child : Option Nat) : Bool :=
  m.processes.any fun q => q.parent = p.id && child.all (· = q.id)

/-- Whether a blocked process can go on. -/
def canGoOn (m : Machine) (p : Process) : Call → Bool
  | .wait child mayBeInterrupted =>
    (m.endedChild? p child).isSome || !m.hasChild p child ||
      (mayBeInterrupted && !p.pending.isEmpty)
  | .read descriptor _ =>
    match (p.descriptors.lookup descriptor).bind fun number => m.files.lookup number with
    | some ⟨.reads pipe, _, _⟩ =>
      (m.pipes.lookup pipe).any (!·.isEmpty) || !m.hasWriter pipe
    | _ => true
  | _ => true

/-- Whether a limit, if there is one, lets more than another. -/
def exceeds (limit other : Option Nat) : Bool :=
  match limit, other with
  | _, none => false
  | none, some _ => true
  | some a, some b => b < a

/-- Answers a call of a process. -/
def perform (m : Machine) (p : Process) (call : Call) (next : Reply → Task) : Machine :=
  let answer (r : Reply) : Machine := m.reply p next r
  let open? (descriptor : Nat) : Option (Nat × OpenFile) := do
    let number ← p.descriptors.lookup descriptor
    return (number, ← m.files.lookup number)
  let withDescriptor (target number : Nat) : Process :=
    { p with descriptors := (target, number) :: p.descriptors.filter (·.1 ≠ target) }
  match call with
  | .open path mode =>
    match m.openFile p path mode with
    | .error errno => answer (.failed errno)
    | .ok (m, source) =>
      let (m, number) := m.addFile ⟨source, 0, mode = .append⟩
      let descriptor := freeDescriptor p 0
      m.reply (withDescriptor descriptor number) next (.number descriptor)
  | .close descriptor =>
    if (p.descriptors.lookup descriptor).isNone then answer (.failed .badDescriptor)
    else
      let p := { p with descriptors := p.descriptors.filter (·.1 ≠ descriptor) }
      (m.reply p next .done).forgetFiles
  | .duplicate source target =>
    match p.descriptors.lookup source with
    | none => answer (.failed .badDescriptor)
    | some number => (m.reply (withDescriptor target number) next .done).forgetFiles
  | .keep source =>
    match p.descriptors.lookup source with
    | none => answer (.failed .badDescriptor)
    | some number =>
      let target := freeDescriptor p 10
      m.reply (withDescriptor target number) next (.number target)
  | .pipe =>
    let (m, pipe) := m.addPipe false
    let (m, reader) := m.addFile ⟨.reads pipe, 0, false⟩
    let (m, writer) := m.addFile ⟨.writes pipe, 0, false⟩
    let readEnd := freeDescriptor p 3
    let p := { p with descriptors := (readEnd, reader) :: p.descriptors }
    let writeEnd := freeDescriptor p 3
    let p := { p with descriptors := (writeEnd, writer) :: p.descriptors }
    m.reply p next (.numbers [readEnd, writeEnd])
  | .read descriptor most =>
    match open? descriptor with
    | none => answer (.failed .badDescriptor)
    | some (number, file) =>
      if m.canGoOn p call then
        match m.readFile number file most with
        | .ok (m, piece) => m.reply p next (.bytes piece)
        | .error errno => answer (.failed errno)
      else m.block p call next
  | .write descriptor piece =>
    match open? descriptor with
    | none => answer (.failed .badDescriptor)
    | some (number, file) =>
      match m.writeFile number file piece with
      | .error errno => answer (.failed errno)
      | .ok (some m) => m.reply p next .done
      | .ok none => (answer (.failed .brokenPipe)).deliver Signal.pipe p.id
  | .wait child _ =>
    match m.endedChild? p child with
    | some (q, status) =>
      let m := { m with processes := m.processes.filter (·.id ≠ q.id) }
      m.reply p next (.ended q.id status)
    | none =>
      if !m.hasChild p child then answer (.failed .noChild)
      else if m.canGoOn p call then answer .interrupted
      else m.block p call next
  | .send recipient signal =>
    match m.recipients p recipient with
    | [] => answer (.failed .noProcess)
    | targets => targets.foldl (fun m q => m.deliver signal q.id) (answer .done)
  | .dispose signal disposition =>
    let p := { p with
      ignored := p.ignored.filter (· ≠ signal)
      caught := p.caught.filter (· ≠ signal) }
    let p := match disposition with
      | .default => p
      | .ignore => { p with ignored := signal :: p.ignored }
      | .catch => { p with caught := signal :: p.caught }
    m.reply p next .done
  | .caught => m.reply { p with pending := [] } next (.numbers p.pending)
  | .sleep time => m.update { p with activity := .ready (next .done) (m.clock + time + 60) }
  | .ownId => answer (.number p.id)
  | .parentId => answer (.number p.parent)
  | .clock => answer (.number m.clock)
  | .changeDirectory path =>
    match m.tree.existing p.here path true with
    | .ok (place, node) =>
      if node.isDirectory then m.reply { p with here := place } next .done
      else answer (.failed .notDirectory)
    | .error errno => answer (.failed errno)
  | .currentDirectory => answer (.bytes (pathOf p.here))
  | .look path followLast =>
    match m.tree.existing p.here path followLast with
    | .ok (_, node) => answer (.node node)
    | .error errno =>
      match m.device? p path with
      | some (.ok _) => answer (.node .sink)
      | _ => answer (.failed errno)
  | .list path =>
    match m.tree.list p.here path with
    | .ok entries => answer (.entries entries)
    | .error errno => answer (.failed errno)
  | .createDirectory path => m.replyTree p next (m.tree.createDirectory p.here path)
  | .removeDirectory path => m.replyTree p next (m.tree.removeDirectory p.here path)
  | .remove path => m.replyTree p next (m.tree.remove p.here path)
  | .rename source target => m.replyTree p next (m.tree.rename p.here source target)
  | .link path target => m.replyTree p next (m.tree.link p.here path target)
  | .setExecutable path executable =>
    m.replyTree p next (m.tree.setExecutable p.here path executable)
  | .touch path => m.replyTree p next (m.tree.touch p.here path)
  | .exec file arguments environment =>
    match m.load p file arguments environment with
    | .ok p => (m.update p).forgetFiles
    | .error errno => answer (.failed errno)
  | .memoryLimit hard => answer (.bound (if hard then p.hardLimit else p.softLimit))
  | .limitMemory soft hard limit =>
    let changed := if soft then { p with softLimit := limit } else p
    let changed := if hard then { changed with hardLimit := limit } else changed
    if exceeds changed.softLimit changed.hardLimit then answer (.failed .invalid)
    else if exceeds changed.hardLimit p.hardLimit then answer (.failed .notPermitted)
    else m.reply changed next .done
  | .leadGroup => m.reply { p with group := p.id } next .done
  | .spend => answer .done

/-- The next step of a process. -/
def step (m : Machine) (p : Process) : Machine :=
  match p.activity with
  | .ended _ => m
  | .blocked call next _ => m.perform p call next
  | .ready (.exit code) _ => m.finish p (.exited (code % 256))
  | .ready (.call call next) _ => m.perform p call next
  | .ready (.fork child next) _ =>
    let id := m.lastProcess + 1
    let forked := { p with
      id
      parent := p.id
      pending := []
      activity := .ready child (m.clock + 500) }
    let m := { m with lastProcess := id, processes := m.processes ++ [forked] }
    m.update { p with activity := .ready (next id) (m.clock + 300) }

/-- When a process can take its next step. -/
def readyAt? (m : Machine) (p : Process) : Option Nat :=
  match p.activity with
  | .ready _ time => some time
  | .blocked call _ since => if m.canGoOn p call then some (max since m.clock) else none
  | .ended _ => none

/-- The process that is ready first, and when. -/
def nextProcess? (m : Machine) : Option (Process × Nat) :=
  m.processes.foldl (fun best p =>
    match m.readyAt? p with
    | none => best
    | some time =>
      match best with
      | some (q, earliest) => if time < earliest then some (p, time) else some (q, earliest)
      | none => some (p, time)) none

/-- The clock, moved on to a time limit if there is one. -/
def reach (m : Machine) (limit : Option Nat) : Machine :=
  { m with clock := max m.clock (limit.getD 0) }

/-- Runs the processes as long as `going` holds and one of them can go on, up to a time limit. -/
def runWhile (going : Machine → Bool) (limit : Option Nat) (m : Machine) : Nat → Machine
  | 0 => m
  | fuel + 1 =>
    if !going m then m
    else match m.nextProcess? with
      | none => m.reach limit
      | some (p, time) =>
        if limit.any (· < time) then m.reach limit
        else runWhile going limit (({ m with clock := max m.clock time }).step p) fuel

/-- More steps than are taken between two looks at the machine. -/
def manySteps : Nat := 100000000

/-- Runs the processes up to a time. -/
def runUntil (m : Machine) (time : Nat) : Machine :=
  runWhile (fun _ => true) (some time) m manySteps

end BugHunt.Machine
