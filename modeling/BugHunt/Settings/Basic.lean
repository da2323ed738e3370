import BugHunt.Path
/-!
What a settings file may set. Whatever is left unset has a default in the configuration.
-/

namespace BugHunt

structure ToolSettings where
  clang : Option String := none
  clangxx : Option String := none
  llvmAs : Option String := none
  llvmDis : Option String := none
  llvmReduce : Option String := none
  creduce : Option String := none
  souffle : Option String := none
  git : Option String := none
  factgen : Option String := none
  deriving DecidableEq, Repr

/-- Times in seconds. -/
structure TimeoutSettings where
  compileSecs : Option Nat := none
  analysisSecs : Option Nat := none
  deriving DecidableEq, Repr

structure LimitSettings where
  /-- Zero lifts the limit. -/
  memoryBytes : Option Nat := none
  deriving DecidableEq, Repr

structure CompilerSettings where
  optLevels : Option (List (List String)) := none
  extraArgs : List String := []
  deriving DecidableEq, Repr

structure AnalysisSettings where
  assertions : Option (List String) := none
  contextSensitivity : Option String := none
  project : Option String := none
  libraryDir : Option String := none
  deriving DecidableEq, Repr

structure SearchSettings where
  roots : Option (List String) := none
  /-- Directories with the address to clone each from, in the order of the directories. -/
  repositories : Option (List (String × String)) := none
  deriving DecidableEq, Repr

structure Settings where
  tools : ToolSettings := {}
  timeouts : TimeoutSettings := {}
  limits : LimitSettings := {}
  compiler : CompilerSettings := {}
  analysis : AnalysisSettings := {}
  search : SearchSettings := {}
  deriving DecidableEq, Repr

end BugHunt
