/-!
Log lines.
-/

namespace BugHunt

inductive Level where
  | info
  | warn
  | error
  deriving DecidableEq, Repr

def Level.label : Level → String
  | info => "INFO"
  | warn => "WARN"
  | error => "ERROR"

structure LogLine where
  level : Level
  message : String
  deriving DecidableEq, Repr

/-- The level, a blank and the message. -/
def LogLine.text (line : LogLine) : String := s!"{line.level.label} {line.message}"

end BugHunt
