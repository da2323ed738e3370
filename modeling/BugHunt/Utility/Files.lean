import BugHunt.Shell.Pattern
import BugHunt.Utility.Basic
/-!
Programs that copy, move, remove, create and list files.
-/

namespace BugHunt.Utility

/-- Hands on what comes in, as it comes. -/
def pump (descriptor : Nat) : Nat → Proc (Except Errno Unit)
  | 0 => return .ok ()
  | fuel + 1 => do
    match ← Proc.read descriptor Proc.blockSize with
    | .error errno => return .error errno
    | .ok [] => return .ok ()
    | .ok content =>
      match ← Proc.write 1 content with
      | .error errno => return .error errno
      | .ok () => pump descriptor fuel

def cat : Applet := fun c => do
  let (_, files) := splitOptions c.arguments
  let files := if files.isEmpty then [[0x2D]] else files
  files.foldlM (fun status file => do
    let result ← if file = [0x2D] then pump 0 Proc.manyReads else do
      match ← Proc.number (.open ⟨file⟩ .read) with
      | .error errno => pure (.error errno)
      | .ok descriptor =>
        let result ← pump descriptor Proc.manyReads
        let _ ← Proc.call (.close descriptor)
        pure result
    match result with
    | .ok () => return status
    | .error errno =>
      complain c.name (file ++ ofErrno errno)
      if file = [0x2D] && errno = .badDescriptor then
        complain c.name (utf8 "closing standard input" ++ ofErrno errno)
      return 1) 0

/-- Copies one file onto a path. -/
def copyFile (name : String) (source target : Bytes) (executable : Bool) : Proc Nat := do
  match ← Proc.contents ⟨source⟩ with
  | .error errno =>
    complain name (utf8 "cannot open " ++ quoted source ++ utf8 " for reading" ++ ofErrno errno)
    return 1
  | .ok content =>
    let isNew := (← Proc.look ⟨target⟩ true).toOption.isNone
    match ← Proc.number (.open ⟨target⟩ .write) with
    | .error errno =>
      complain name (utf8 "cannot create regular file " ++ quoted target ++ ofErrno errno)
      return 1
    | .ok descriptor =>
      let _ ← Proc.write descriptor content
      let _ ← Proc.call (.close descriptor)
      if isNew && executable then
        let _ ← Proc.call (.setExecutable ⟨target⟩ true)
      return 0

/-- Copies a file or, if it may, a directory with what is in it. -/
def copyTree (name : String) (recursive keepsLinks : Bool) (source target : Bytes) :
    Nat → Proc Nat
  | 0 => return 1
  | fuel + 1 => do
    match ← Proc.look ⟨source⟩ (!keepsLinks) with
    | .error errno =>
      complain name (utf8 "cannot stat " ++ quoted source ++ ofErrno errno)
      return 1
    | .ok (.link goal) =>
      let _ ← Proc.call (.remove ⟨target⟩)
      let _ ← Proc.call (.link ⟨target⟩ goal)
      return 0
    | .ok (.file _ executable) => copyFile name source target executable
    | .ok .sink => copyFile name source target false
    | .ok _ =>
      if !recursive then
        complain name (utf8 "-r not specified; omitting directory " ++ quoted source)
        return 1
      let _ ← Proc.call (.createDirectory ⟨target⟩)
      match ← Proc.list ⟨source⟩ with
      | .error errno =>
        complain name (utf8 "cannot access " ++ quoted source ++ ofErrno errno)
        return 1
      | .ok entries =>
        entries.foldlM (fun status (entry, _) => do
          let result ←
            copyTree name recursive keepsLinks (below source entry) (below target entry) fuel
          return if result = 0 then status else result) 0

/-- How deep directories may stand within each other. -/
def deepest : Nat := 200

/-- Sends each source to its place: the last argument, or a name in it if it is a directory. -/
def toTarget (name : String) (files : List Bytes)
    (move : Bytes → Bytes → Proc Nat) : Proc Nat := do
  match files.getLast?, files.dropLast with
  | none, _ => misuseText name "missing file operand"
  | some only, [] =>
    misuse name (utf8 "missing destination file operand after " ++ quoted only)
  | some target, sources =>
    if ← isDirectory target then
      sources.foldlM (fun status source => do
        let result ← move source (below target (lastPart source))
        return if result = 0 then status else result) 0
    else match sources with
      | [source] => move source target
      | _ =>
        match ← Proc.look ⟨target⟩ true with
        | .error errno => complain name (utf8 "target " ++ quoted target ++ ofErrno errno)
        | .ok _ => complain name (utf8 "target " ++ quoted target ++ utf8 ": Not a directory")
        return 1

def cp : Applet := fun c => do
  let (options, files) := splitOptions c.arguments
  let recursive := options.any fun o => o = 'r' || o = 'R' || o = 'a'
  toTarget c.name files fun source target =>
    copyTree c.name recursive (recursive || options.contains 'P' || options.contains 'd')
      source target deepest

def mv : Applet := fun c => do
  let (_, files) := splitOptions c.arguments
  toTarget c.name files fun source target => do
    match ← Proc.asked (.rename ⟨source⟩ ⟨target⟩) with
    | .ok () => return 0
    | .error .noEntry =>
      if (← Proc.look ⟨source⟩ false).toOption.isSome then
        complain c.name (utf8 "cannot move " ++ quoted source ++ utf8 " to " ++ quoted target
          ++ ofErrno .noEntry)
      else complain c.name (utf8 "cannot stat " ++ quoted source ++ ofErrno .noEntry)
      return 1
    | .error errno =>
      complain c.name (utf8 "cannot move " ++ quoted source ++ utf8 " to " ++ quoted target
        ++ ofErrno errno)
      return 1

def removeTree (name : String) (force recursive : Bool) (path : Bytes) : Nat → Proc Nat
  | 0 => return 1
  | fuel + 1 => do
    let trouble (errno : Errno) : Proc Nat := do
      complain name (utf8 "cannot remove " ++ quoted path ++ ofErrno errno)
      return 1
    match ← Proc.look ⟨path⟩ false with
    | .error errno => if force && errno = .noEntry then return 0 else trouble errno
    | .ok node =>
      if !node.isDirectory then
        match ← Proc.asked (.remove ⟨path⟩) with
        | .ok () => return 0
        | .error errno => trouble errno
      else if !recursive then trouble .isDirectory
      else
        let entries := (← Proc.list ⟨path⟩).toOption.getD []
        let status ← entries.foldlM (fun status (entry, _) => do
          let result ← removeTree name force recursive (below path entry) fuel
          return if result = 0 then status else result) 0
        match ← Proc.asked (.removeDirectory ⟨path⟩) with
        | .ok () => return status
        | .error errno => trouble errno

def rm : Applet := fun c => do
  let (options, files) := splitOptions c.arguments
  let force := options.contains 'f'
  let recursive := options.contains 'r' || options.contains 'R'
  if files.isEmpty && !force then
    return ← misuseText c.name "missing operand"
  files.foldlM (fun status file => do
    let result ← removeTree c.name force recursive file deepest
    return if result = 0 then status else result) 0

/-- The paths of a directory's parents, the outermost first, and of itself. -/
def ancestors (path : Bytes) : List Bytes :=
  (List.range path.length).filterMap fun i =>
    let front := path.take (i + 1)
    let next := path[i + 1]?
    if (next = none || next = some Path.slash) && front.getLast? ≠ some Path.slash then some front
    else none

def mkdir : Applet := fun c => do
  let (options, files) := splitOptions c.arguments
  if files.isEmpty then
    return ← misuseText c.name "missing operand"
  files.foldlM (fun status file => do
    let targets := if options.contains 'p' then ancestors file else [file]
    let result ← targets.foldlM (fun (result : Except Errno Unit) target => do
      match result with
      | .error errno => return .error errno
      | .ok () =>
        match ← Proc.asked (.createDirectory ⟨target⟩) with
        | .ok () => return .ok ()
        | .error .alreadyThere =>
          if options.contains 'p' && (← isDirectory target) then return .ok ()
          else return .error .alreadyThere
        | .error errno => return .error errno) (.ok ())
    match result with
    | .ok () => return status
    | .error errno =>
      complain c.name (utf8 "cannot create directory " ++ quoted file ++ ofErrno errno)
      return 1) 0

/-- Does one thing with each file; `what` begins the complaint about one. -/
def eachFile (name what : String) (files : List Bytes) (act : Bytes → Proc (Except Errno Unit)) :
    Proc Nat := do
  if files.isEmpty then
    return ← misuseText name "missing operand"
  files.foldlM (fun status file => do
    match ← act file with
    | .ok () => return status
    | .error errno =>
      complain name (utf8 what ++ quoted file ++ ofErrno errno)
      return 1) 0

def rmdir : Applet := fun c => do
  let (_, files) := splitOptions c.arguments
  eachFile c.name "failed to remove " files fun file => Proc.asked (.removeDirectory ⟨file⟩)

def touch : Applet := fun c => do
  let (_, files) := splitOptions c.arguments
  eachFile c.name "cannot touch " files fun file => Proc.asked (.touch ⟨file⟩)

/-- Whether a mode lets a file be executed, if it says anything about that. -/
def executes? (mode : List Char) : Option Bool :=
  if mode.all Char.isDigit then
    some ((mode.reverse.drop 2).head?.any fun c => (c.toNat - 48) % 2 = 1)
  else if !mode.contains 'x' then
    if mode.contains '=' then some false else none
  else if mode.contains '+' || mode.contains '=' then some true
  else some false

def chmod : Applet := fun c => do
  match c.arguments with
  | mode :: files =>
    let executable := executes? (Bytes.toLatin mode)
    files.foldlM (fun status file => do
      match ← Proc.look ⟨file⟩ true with
      | .error errno =>
        complain c.name (utf8 "cannot access " ++ quoted file ++ ofErrno errno)
        return 1
      | .ok _ =>
        match executable with
        | some executable =>
          let _ ← Proc.call (.setExecutable ⟨file⟩ executable)
          return status
        | none => return status) 0
  | [] => misuseText c.name "missing operand"

def ln : Applet := fun c => do
  let (options, files) := splitOptions c.arguments
  let place (target path : Bytes) : Proc Nat := do
    if options.contains 'f' then
      let _ ← Proc.call (.remove ⟨path⟩)
    if options.contains 's' then
      match ← Proc.asked (.link ⟨path⟩ ⟨target⟩) with
      | .ok () => return 0
      | .error errno =>
        complain c.name (utf8 "failed to create symbolic link " ++ quoted path ++ ofErrno errno)
        return 1
    else if (← Proc.look ⟨path⟩ false).toOption.isSome then
      complain c.name (utf8 "failed to create hard link " ++ quoted path ++ ofErrno .alreadyThere)
      return 1
    else copyTree c.name false false target path deepest
  match files with
  | [target] => place target (lastPart target)
  | files => toTarget c.name files place

/-- How a list of files is to be shown. -/
structure ListStyle where
  name : String
  /-- Which names are shown, in their order. -/
  shown : List Bytes → List Bytes
  /-- Whether directories are shown with what they hold, and with what these hold. -/
  deep : Bool

/-- Shows what directories hold. `headed` tells whether each gets a headline, and `first` whether
nothing stands before them. -/
def listDirectories (style : ListStyle) (headed : Bool) :
    Bool → List Bytes → Nat → Proc Nat
  | _, _, 0 => return 1
  | _, [], _ => return 0
  | first, directory :: rest, fuel + 1 => do
    match ← Proc.list ⟨directory⟩ with
    | .error errno =>
      complain style.name (utf8 "cannot open directory " ++ quoted directory ++ ofErrno errno)
      let _ ← listDirectories style headed first rest fuel
      return 2
    | .ok entries =>
      let names := style.shown (entries.map (·.1))
      let head : Bytes :=
        if headed then (if first then [] else [10]) ++ directory ++ utf8 ":\n" else []
      let _ ← Proc.write 1 (head ++ joinLines names)
      let inner := (names.filter fun name =>
        !Path.isIdle name && name ≠ utf8 ".." && (entries.lookup name).any Node.isDirectory).map
          (below directory)
      let status ← if style.deep then listDirectories style headed false inner fuel else pure 0
      let next ← listDirectories style headed false rest fuel
      return max status next

def ls : Applet := fun c => do
  let (options, files) := splitOptions c.arguments
  let all := options.contains 'a'
  let shown (names : List Bytes) : List Bytes :=
    let names := if all then utf8 "." :: utf8 ".." :: names else names
    (names.filter fun name =>
      all || options.contains 'A' || name.head? ≠ some Path.dot).mergeSort
        fun a b => !decide (b < a)
  let files := if files.isEmpty then [utf8 "."] else files.mergeSort fun a b => !decide (b < a)
  let (plain, directories, status) ← files.foldlM (fun (plain, directories, status) file => do
    match ← Proc.look ⟨file⟩ true with
    | .error errno =>
      complain c.name (utf8 "cannot access " ++ quoted file ++ ofErrno errno)
      return (plain, directories, 2)
    | .ok node =>
      if node.isDirectory && !options.contains 'd' then
        return (plain, directories ++ [file], status)
      else return (plain ++ [file], directories, status))
    (([] : List Bytes), ([] : List Bytes), 0)
  let _ ← Proc.write 1 (joinLines plain)
  let deep := options.contains 'R'
  let style : ListStyle := ⟨c.name, shown, deep⟩
  return max status
    (← listDirectories style (deep || 1 < files.length) plain.isEmpty directories manyEntries)
where
  manyEntries : Nat := 1000000

/-- Finds the value of a setting that is given as a name, a sign of equality and the value. -/
def setting? (name : String) (arguments : List Bytes) : Option Bytes :=
  let front := utf8 name ++ [0x3D]
  (arguments.find? fun a => front.isPrefixOf a).map (·.drop front.length)

/-- Copies blocks of a size from one descriptor to another, at most so many. -/
def copyBlocks (source target size : Nat) (copied : Nat) : Nat → Proc Nat
  | 0 => return copied
  | left + 1 => do
    match ← Proc.read source size with
    | .ok [] => return copied
    | .error _ => return copied
    | .ok block =>
      let _ ← Proc.write target block
      copyBlocks source target size (copied + block.length) left

/-- The size that a number, perhaps with a unit, stands for. -/
def size? (text : Bytes) : Option Nat :=
  let digits := text.takeWhile fun b => 0x30 ≤ b && b ≤ 0x39
  match decimal? digits, Bytes.toLatin (text.drop digits.length) with
  | some n, [] => some n
  | some n, ['k'] | some n, ['K'] => some (n * 1024)
  | some n, ['M'] => some (n * 1048576)
  | some n, ['b'] => some (n * 512)
  | _, _ => none

/-- Opens what a setting names, or stands by a descriptor that is open anyway. -/
def openNamed (name : String) (file : Option Bytes) (mode : OpenMode) (other : Nat) :
    Proc (Option Nat) := do
  match file with
  | none => return some other
  | some path =>
    match ← Proc.number (.open ⟨path⟩ mode) with
    | .ok descriptor => return some descriptor
    | .error errno =>
      complain name (utf8 "failed to open " ++ quoted path ++ ofErrno errno)
      return none

/-- Copies blocks of bytes. -/
def dd : Applet := fun c => do
  let number (name : String) : Option Nat := (setting? name c.arguments).bind size?
  let size := (number "bs").getD 512
  let count := (number "count").getD Proc.manyReads
  match ← openNamed c.name (setting? "if" c.arguments) .read 0 with
  | none => return 1
  | some source =>
    match ← openNamed c.name (setting? "of" c.arguments) .write 1 with
    | none => return 1
    | some target =>
      let copied ← copyBlocks source target size 0 count
      let blocks := s!"{copied / size}+{if copied % size = 0 then 0 else 1} records"
      Proc.writeText 2 s!"{blocks} in\n{blocks} out\n{copied} bytes copied\n"
      return 0

def readlink : Applet := fun c => do
  let (options, files) := splitOptions c.arguments
  files.foldlM (fun status file => do
    match ← Proc.look ⟨file⟩ false with
    | .ok (.link target) =>
      let _ ← Proc.write 1 (target.bytes ++ [10])
      return status
    | _ =>
      if options.contains 'f' then
        let here ← Proc.currentDirectory
        let path := Path.absolute ⟨here⟩ ⟨file⟩
        let _ ← Proc.write 1 (path.bytes ++ [10])
        return status
      else return 1) 0

/-- Where a path leads, without dots and links. -/
def resolve (path : Path) : Nat → Proc (Except Errno Path)
  | 0 => return .error .linkLoop
  | fuel + 1 => do
    match ← Proc.look path false with
    | .error errno => return .error errno
    | .ok (.link target) => resolve ((path.parent?.getD path).join target) fuel
    | .ok _ =>
      match path.fileName?, path.parent? with
      | some name, some parent =>
        return (← resolve parent fuel).map fun parent => parent.join ⟨name⟩
      | _, some parent =>
        return (← resolve parent fuel).map fun parent => (parent.parent?).getD parent
      | _, none => return .ok path

def realpath : Applet := fun c => do
  let (_, files) := splitOptions c.arguments
  if files.isEmpty then return ← misuseText c.name "missing operand"
  let here ← Proc.currentDirectory
  files.foldlM (fun status file => do
    match ← resolve (Path.absolute ⟨here⟩ ⟨file⟩) 1000 with
    | .ok path =>
      let _ ← Proc.write 1 (path.bytes ++ [10])
      return status
    | .error errno =>
      complain c.name (file ++ ofErrno errno)
      return 1) 0

/-- What entries a search shows. -/
structure Wanted where
  name : Option (List Shell.Item) := none
  kind : Option Char := none

/-- The paths of the wanted entries from a path on, the outer before the inner. -/
def entriesFrom (wanted : Wanted) (path : Bytes) : Nat → Proc (List Bytes)
  | 0 => return []
  | fuel + 1 => do
    match ← Proc.look ⟨path⟩ false with
    | .error _ => return []
    | .ok node =>
      let kind := match node with
        | .directory | .locked => 'd'
        | .link _ => 'l'
        | .file .. => 'f'
        | .sink => 'c'
      let fits :=
        wanted.name.all fun items => Shell.Pattern.fits items (Bytes.toLatin (lastPart path))
      let own := if fits && wanted.kind.all (· = kind) then [path] else []
      if kind ≠ 'd' then return own
      let names := ((← Proc.list ⟨path⟩).toOption.getD []).map (·.1)
      names.foldlM (fun all name => do
        return all ++ (← entriesFrom wanted (below path name) fuel)) own

def wantedBy : List Bytes → Wanted
  | [] => {}
  | option :: value :: rest =>
    let later := wantedBy rest
    if option = utf8 "-name" then
      let marked := (Bytes.toLatin value).map fun c => (c, false)
      { later with name := some (Shell.Pattern.ofMarked marked) }
    else if option = utf8 "-type" then { later with kind := (Bytes.toLatin value).head? }
    else wantedBy (value :: rest)
  | [_] => {}

/-- Shows the entries below directories. -/
def find : Applet := fun c => do
  let roots := c.arguments.takeWhile fun a => !isOption a
  let wanted := wantedBy (c.arguments.drop roots.length)
  let roots := if roots.isEmpty then [utf8 "."] else roots
  roots.foldlM (fun status root => do
    match ← Proc.look ⟨root⟩ false with
    | .error errno =>
      complain c.name (quoted root ++ ofErrno errno)
      return 1
    | .ok _ =>
      let _ ← Proc.write 1 (joinLines (← entriesFrom wanted root deepest))
      return status) 0

/-- Writes the input to the output and to files. -/
def tee : Applet := fun c => do
  let (options, files) := splitOptions c.arguments
  match ← Proc.readAll 0 with
  | .error _ => return 1
  | .ok content =>
    let _ ← Proc.write 1 content
    files.foldlM (fun status file => do
      let mode : OpenMode := if options.contains 'a' then .append else .write
      match ← Proc.number (.open ⟨file⟩ mode) with
      | .ok descriptor =>
        let _ ← Proc.write descriptor content
        let _ ← Proc.call (.close descriptor)
        return status
      | .error errno =>
        complain c.name (file ++ ofErrno errno)
        return 1) 0

end BugHunt.Utility
