import BugHunt.Artifact
import BugHunt.Config.Basic
/-!
The recursive call: the command by which a minimizer asks whether a candidate is still
interesting. One minimizer takes the command word by word, the other as a script.
-/

namespace BugHunt.Recursion

/-- The words of the recursive call, up to the candidate. -/
def words (c : Config) : List String :=
  c.selfExe.display :: "--no-reduce" :: c.passthroughArgs

/-- A quote within quotes: the quotes end, an escaped quote follows, and they begin again. -/
def escapeQuote (c : Char) : List Char :=
  if c = '\x27' then ['\x27', '\\', '\x27', '\x27'] else [c]

/-- A word that a shell reads as it stands. -/
def quote (word : String) : String :=
  String.ofList ('\x27' :: word.toList.flatMap escapeQuote ++ ['\x27'])

/-- The command of the script that tests the candidate `name`. -/
def scriptBody (c : Config) (name : String) : String :=
  " ".intercalate ("exec" :: quote c.selfExe.display :: "--no-reduce"
    :: c.passthroughArgs.map quote ++ [quote name])

/-- A script for the shell. -/
def script (body : String) : Bytes := utf8 s!"#!/bin/sh\n{body}\n"

/-- The options that tell a minimizer the recursive call. -/
def testOptions (c : Config) : List String :=
  s!"--test={c.selfExe.display}" :: "--test-arg=--no-reduce"
    :: c.passthroughArgs.map fun word => s!"--test-arg={word}"

end BugHunt.Recursion
