import BugHunt.Config.Bootstrap
import BugHunt.Host.Program
/-!
Reading a settings file.
-/

namespace BugHunt.Settings

/-- The settings in a file, which must hold text. -/
def load (path : Path) : Action ConfigError Settings := do
  let content ← Action.orFail (Program.read path) (.read path)
  match Text.decode? content with
  | none => throw (.read path .notText)
  | some text =>
    match ofText text with
    | .ok settings => return settings
    | .error cause => throw (.parse path cause)

/-- The settings file of a directory, read if it is there. -/
def defaultFile : Path := "pareduce.toml"

/-- The settings of the file asked for, or else of the default file, and which file was read. -/
def choose (asked : Option Path) : Action ConfigError (Settings × Option Path) := do
  match asked with
  | some path => return (← load path, some path)
  | none =>
    if ← Program.exists defaultFile then return (← load defaultFile, some defaultFile)
    else return ({}, none)

end BugHunt.Settings
