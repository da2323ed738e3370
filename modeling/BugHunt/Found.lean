import BugHunt.Artifact
import BugHunt.Failure
/-!
What a search of a directory comes upon.
-/

namespace BugHunt

inductive Found where
  | file (path : Path)
  | unreadable (path : Path) (errno : Errno)
  deriving DecidableEq, Repr

/-- The program that was found, if its name is that of one. -/
def Found.artifact? : Found → Option Artifact
  | file path => Artifact.ofPath? path
  | unreadable .. => none

/-- The complaint about what could not be read. -/
def Found.complaint? : Found → Option String
  | file _ => none
  | unreadable path errno =>
    some s!"Skipping unreadable entry: IO error for operation on {path.display}: {errno.message}"

end BugHunt
