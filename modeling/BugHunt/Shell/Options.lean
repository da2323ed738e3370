import BugHunt.Shell.Grammar
/-!
The options of the shell, and how the words of a command name them.
-/

namespace BugHunt.Shell.Options

/-- The options by name; most have a letter as well. -/
def table : List (String × Option Char) := [
  ("errexit", some 'e'), ("noglob", some 'f'), ("ignoreeof", some 'I'), ("interactive", some 'i'),
  ("monitor", some 'm'), ("noexec", some 'n'), ("stdin", some 's'), ("xtrace", some 'x'),
  ("verbose", some 'v'), ("vi", some 'V'), ("emacs", some 'E'), ("noclobber", some 'C'),
  ("allexport", some 'a'), ("notify", some 'b'), ("nounset", some 'u'), ("privileged", some 'p'),
  ("nolog", none), ("debug", none)]

/-- The letters of the options that are on, the last option first. -/
def letters (on : List String) : Text :=
  (table.reverse.filter fun (name, _) => on.contains name).filterMap (·.2)

def nameOf? (letter : Char) : Option String :=
  (table.find? fun (_, l) => l = some letter).map (·.1)

def turn (name : String) (value : Bool) (on : List String) : List String :=
  if !value then on.filter (· ≠ name) else if on.contains name then on else on ++ [name]

/-- What words at the front of a command say about options. -/
structure Reading where
  on : List String
  /-- Whether all options are to be shown, and if so, as commands. -/
  shown : Option Bool := none
  /-- Whether a script stands among the other words. -/
  wantsScript : Bool := false
  /-- The other words, if they matter. -/
  rest : Option (List Text) := none

/-- Reads the letters of one word; the answer has the words that are left. -/
def readLetters (atStart value : Bool) (r : Reading) (words : List Text) :
    Text → Except String (Reading × List Text)
  | [] => .ok (r, words)
  | letter :: letters =>
    if atStart && letter = 'c' then
      readLetters atStart value { r with wantsScript := true } words letters
    else if atStart && letter = 'l' then readLetters atStart value r words letters
    else if letter = 'o' then
      match words with
      | [] => readLetters atStart value { r with shown := some (!value) } [] letters
      | name :: words =>
        let name := String.ofList name
        if (table.lookup name).isNone then .error s!"Illegal option -o {name}"
        else readLetters atStart value { r with on := turn name value r.on } words letters
    else match nameOf? letter with
      | some name => readLetters atStart value { r with on := turn name value r.on } words letters
      | none => .error s!"Illegal option -{letter}"

/-- Reads the words up to the first that is none of these. `atStart` tells that the shell is being
started. -/
def readWords (atStart : Bool) (r : Reading) (words : List Text) : Nat → Except String Reading
  | 0 => .ok r
  | fuel + 1 =>
    match words with
    | [] => .ok r
    | ['-'] :: rest =>
      let on := if atStart then r.on else turn "xtrace" false (turn "verbose" false r.on)
      .ok { r with on, rest := if rest.isEmpty then none else some rest }
    | ['-', '-'] :: rest => .ok { r with rest := some rest }
    | (sign :: letters) :: rest =>
      if sign = '-' || sign = '+' then do
        let (r, rest) ← readLetters atStart (sign = '-') r rest letters
        readWords atStart r rest fuel
      else .ok { r with rest := some words }
    | [] :: _ => .ok { r with rest := some words }

def read (atStart : Bool) (on : List String) (words : List Text) : Except String Reading :=
  readWords atStart { on } words (words.length + 1)

/-- All options with their states, for a reader or as commands that bring them about. -/
def listing (on : List String) (asCommands : Bool) : String :=
  let line (name : String) : String :=
    let isOn := on.contains name
    if asCommands then (if isOn then "set -o " else "set +o ") ++ name ++ "\n"
    else
      let fill := String.ofList (List.replicate (16 - name.length) ' ')
      name ++ fill ++ (if isOn then "on\n" else "off\n")
  (if asCommands then "" else "Current option settings\n")
    ++ "".intercalate (table.map fun (name, _) => line name)

end BugHunt.Shell.Options
