import BugHunt.Utility.Expr
import BugHunt.Utility.Files
import BugHunt.Utility.Grep
import BugHunt.Utility.Processes
import BugHunt.Utility.Sed
import BugHunt.Utility.Texts
/-!
The small programs of the model machine, by name.
-/

namespace BugHunt.Utility

def table : List (String × Applet) := [
  ("[", test), ("basename", basename), ("cat", cat), ("chmod", chmod), ("cmp", cmp), ("cp", cp),
  ("cut", cut), ("date", date), ("dd", dd), ("dirname", dirname), ("echo", echo), ("egrep", grep),
  ("env", env), ("expr", expr), ("false", status 1), ("fgrep", grep), ("find", find),
  ("grep", grep), ("head", head), ("id", printsLine "0"), ("kill", kill), ("ln", ln), ("ls", ls),
  ("md5sum", md5sum), ("mkdir", mkdir), ("mktemp", mktemp), ("mv", mv), ("nice", nice), ("nl", nl),
  ("nohup", nohup), ("paste", paste), ("printenv", printenv), ("printf", printf), ("pwd", pwd),
  ("readlink", readlink), ("realpath", realpath), ("rev", rev), ("rm", rm), ("rmdir", rmdir),
  ("sed", sed), ("seq", seq), ("setsid", setsid), ("sleep", sleep), ("sort", sort),
  ("sync", status 0), ("tac", tac), ("tail", tail), ("tee", tee), ("test", test),
  ("timeout", timeout), ("touch", touch), ("tr", tr), ("true", status 0),
  ("uname", printsLine "Linux"), ("uniq", uniq), ("wc", wc), ("which", which),
  ("whoami", printsLine "root"), ("xargs", xargs), ("yes", yes)]

/-- The names of shells. -/
def shells : List String := ["sh", "dash", "bash"]

def find? (name : String) : Option Applet := table.lookup name

end BugHunt.Utility
