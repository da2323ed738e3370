import BugHunt.Path
/-!
Why an operation on files or processes failed, and how that is said.
-/

namespace BugHunt

/-- The error numbers of the system that an operation can end with. -/
inductive Errno where
  | notPermitted
  | noEntry
  | noProcess
  | argumentsTooLong
  | badFormat
  | badDescriptor
  | noChild
  | noMemory
  | denied
  | alreadyThere
  | notDirectory
  | isDirectory
  | invalid
  | brokenPipe
  | nameTooLong
  | notEmpty
  | linkLoop
  deriving DecidableEq, Repr, Inhabited

def Errno.code : Errno → Nat
  | notPermitted => 1
  | noEntry => 2
  | noProcess => 3
  | argumentsTooLong => 7
  | badFormat => 8
  | badDescriptor => 9
  | noChild => 10
  | noMemory => 12
  | denied => 13
  | alreadyThere => 17
  | notDirectory => 20
  | isDirectory => 21
  | invalid => 22
  | brokenPipe => 32
  | nameTooLong => 36
  | notEmpty => 39
  | linkLoop => 40

def Errno.text : Errno → String
  | notPermitted => "Operation not permitted"
  | noEntry => "No such file or directory"
  | noProcess => "No such process"
  | argumentsTooLong => "Argument list too long"
  | badFormat => "Exec format error"
  | badDescriptor => "Bad file descriptor"
  | noChild => "No child processes"
  | noMemory => "Cannot allocate memory"
  | denied => "Permission denied"
  | alreadyThere => "File exists"
  | notDirectory => "Not a directory"
  | isDirectory => "Is a directory"
  | invalid => "Invalid argument"
  | brokenPipe => "Broken pipe"
  | nameTooLong => "File name too long"
  | notEmpty => "Directory not empty"
  | linkLoop => "Too many levels of symbolic links"

/-- Why an operation failed. -/
inductive Failure where
  | system (errno : Errno)
  /-- A temporary file or directory could not be made at the path. -/
  | making (path : Path) (cause : Failure)
  | notText
  | nulInName
  | nulInArgument
  | notRegular
  | endOfFile
  | badGzipHeader
  | gzipFieldTooLong
  | gzipChecksum
  | deflateIncomplete
  | deflateCorrupt
  deriving DecidableEq, Repr, Inhabited

def Errno.message (e : Errno) : String := s!"{e.text} (os error {e.code})"

def Failure.message : Failure → String
  | system errno => errno.message
  | making path cause => s!"{cause.message} at path {path.quoted}"
  | notText => "stream did not contain valid UTF-8"
  | nulInName => "file name contained an unexpected NUL byte"
  | nulInArgument => "nul byte found in provided data"
  | notRegular => "the source path is neither a regular file nor a symlink to a regular file"
  | endOfFile => "unexpected end of file"
  | badGzipHeader => "invalid gzip header"
  | gzipFieldTooLong => "gzip header field too long"
  | gzipChecksum => "corrupt gzip stream does not have a matching checksum"
  | deflateIncomplete => "incomplete deflate stream"
  | deflateCorrupt => "corrupt deflate stream"

/-- Whether the failure says that nothing is there. -/
def Failure.isMissing (f : Failure) : Bool := f == .system .noEntry

end BugHunt
