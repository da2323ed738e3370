import BugHunt.Machine.Host
/-!
A machine as it starts: the small programs, a place to work in, and a place for temporary files in
it.
-/

namespace BugHunt.Machine

def programs : Place := [utf8 "usr", utf8 "bin"]

/-- The file of one of the machine's own programs. -/
def programFile (name : String) : Place × Node :=
  (programs ++ [utf8 name], .file (programMark ++ utf8 name) true)

/-- The directories on the way to a place, and the place. -/
def directoriesTo (place : Place) : List (Place × Node) :=
  (List.range place.length).map fun i => (place.take (i + 1), .directory)

/-- The name of the directory for temporary files. -/
def temporaryName : Bytes := utf8 "tmp"

/-- A machine whose host works in a directory with nothing but a place for temporary files. -/
def boot (here : Place) : Machine :=
  let temporary := here ++ [temporaryName]
  let own := (Utility.shells ++ Utility.table.map (·.1)).map programFile
  let base : List (Place × Node) := [
    ([utf8 "tmp"], .directory),
    ([utf8 "root"], .directory),
    ([utf8 "dev"], .directory),
    ([utf8 "dev", utf8 "null"], .sink),
    ([utf8 "bin"], .link "usr/bin")]
  let tree : FileTree := ⟨directoriesTo temporary ++ base ++ directoriesTo programs ++ own⟩
  { tree, here
    temporary := ⟨pathOf temporary⟩
    environment := [
      (utf8 "PATH", utf8 "/usr/local/sbin:/usr/local/bin:/usr/sbin:/usr/bin:/sbin:/bin"),
      (utf8 "HOME", utf8 "/root"),
      (utf8 "TMPDIR", pathOf temporary)] }

end BugHunt.Machine
