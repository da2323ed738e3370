import BugHunt.Machine.Task
/-!
What the small programs of the model machine have in common: they complain under their name and go
through their arguments.
-/

namespace BugHunt.Utility

/-- A program: what it does with its arguments and environment. Its status is what it hands
over. -/
structure Context where
  name : String
  arguments : List Bytes
  environment : Environment

abbrev Applet := Context → Proc Nat

def complain (name : String) (message : Bytes) : Proc Unit := do
  let _ ← Proc.write 2 (utf8 s!"{name}: " ++ message ++ [10])

def complainText (name : String) (message : String) : Proc Unit := complain name (utf8 message)

/-- Complains about the arguments, and says where to read more. -/
def misuse (name : String) (message : Bytes) : Proc Nat := do
  complain name message
  Proc.writeText 2 s!"Try '{name} --help' for more information.\n"
  return 1

def misuseText (name : String) (message : String) : Proc Nat := misuse name (utf8 message)

/-- A file name in quotes. -/
def quoted (path : Bytes) : Bytes := [0x27] ++ path ++ [0x27]

def ofErrno (errno : Errno) : Bytes := utf8 s!": {errno.text}"

/-- Whether an argument is an option; a lone dash is not. -/
def isOption (argument : Bytes) : Bool :=
  argument.head? = some 0x2D && 1 < argument.length

/-- The letters of the options, and the other arguments. What follows two dashes is no option. -/
def splitOptions : List Bytes → List Char × List Bytes
  | [] => ([], [])
  | argument :: rest =>
    if argument = [0x2D, 0x2D] then ([], rest)
    else
      let (letters, others) := splitOptions rest
      if isOption argument then (Bytes.toLatin argument.tail ++ letters, others)
      else (letters, argument :: others)

/-- The content of a file, or of the standard input for a dash. -/
def input (path : Bytes) : Proc (Except Errno Bytes) :=
  if path = [0x2D] then Proc.readAll 0 else Proc.contents ⟨path⟩

/-- The contents of all files, or of the standard input when none is named, and whether all could
be read. -/
def inputs (name : String) (files : List Bytes) : Proc (Bytes × Bool) := do
  let files := if files.isEmpty then [[0x2D]] else files
  files.foldlM (fun (content, right) file => do
    match ← input file with
    | .ok more => return (content ++ more, right)
    | .error errno =>
      complain name (file ++ ofErrno errno)
      return (content, false)) ([], true)

/-- The lines of a text, without their ends, and whether the last one has its end. -/
def splitLines (content : Bytes) : List Bytes × Bool :=
  let pieces := content.splitOn 10
  if pieces.getLast? = some [] then (pieces.dropLast, true) else (pieces, false)

def joinLines (lines : List Bytes) : Bytes := lines.flatMap (· ++ [10])

/-- A number in decimal digits. -/
def decimal? (text : Bytes) : Option Nat :=
  if text.isEmpty || text.any (fun b => b < 0x30 || 0x39 < b) then none
  else some (text.foldl (fun n b => 10 * n + (b.toNat - 48)) 0)

/-- A path with a name below it. -/
def below (directory name : Bytes) : Bytes :=
  if directory.getLast? = some Path.slash then directory ++ name
  else directory ++ Path.slash :: name

/-- The last part of a path's text, slashes at its end left out. -/
def lastPart (path : Bytes) : Bytes :=
  let trimmed := (path.reverse.dropWhile (· = Path.slash)).reverse
  if trimmed.isEmpty then (if path.isEmpty then [] else [Path.slash])
  else (trimmed.reverse.takeWhile (· ≠ Path.slash)).reverse

def isDirectory (path : Bytes) : Proc Bool := do
  return (← Proc.look ⟨path⟩ true).toOption.any Node.isDirectory

end BugHunt.Utility
