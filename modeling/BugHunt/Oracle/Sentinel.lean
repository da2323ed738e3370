import BugHunt.Json
import BugHunt.Oracle.Error
/-!
Crash sentinels: what is known about the crash of a stage, in a file beside the program that the
stage crashed on.
-/

namespace BugHunt

/-- The external stages of the oracle. -/
inductive Stage where
  | factGeneration
  | analysis
  deriving DecidableEq, Repr

def Stage.sentinelExtension : Stage → String
  | factGeneration => "factgen-crash"
  | analysis => "analysis-crash"

structure Sentinel where
  stage : Stage
  tool : Path
  artifact : Path
  output : Output
  deriving Repr

namespace Sentinel

/-- How many bytes of a tool's output are kept. -/
def tailSize : Nat := 16 * 1024

def path (s : Sentinel) : Path := s.artifact.withExtension s.stage.sentinelExtension

def ofOption : Option Int → Json
  | some n => .number n
  | none => .null

def toJson (s : Sentinel) : Json := .object [
  ("stage", .string s.stage.sentinelExtension),
  ("tool", .string s.tool.display),
  ("artifact", .string s.artifact.display),
  ("exit_code", ofOption s.output.exitCode),
  ("signal", ofOption s.output.signal),
  ("output_tail", .string (s.output.tail tailSize))]

def write (s : Sentinel) : Judging Path := do
  Action.orFail (Program.write s.path (utf8 s.toJson.pretty)) (.sentinel s.path)
  return s.path

end Sentinel
end BugHunt
