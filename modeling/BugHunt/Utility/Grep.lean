import BugHunt.Utility.Basic
import BugHunt.Utility.Regex
/-!
Looking for lines that match.
-/

namespace BugHunt.Utility

namespace Grep

/-- A test on lines. -/
structure Query where
  dialect : Regex.Dialect
  patterns : List (List Char)
  fixed : Bool
  whole : Bool
  word : Bool

def isWordChar (c : Char) : Bool := Shell.isNamePart c

/-- Whether a match stands alone, with no letters around it. -/
def standsAlone (letters : Array Char) (first last : Nat) : Bool :=
  !(0 < first && (letters[first - 1]?).any isWordChar) && !((letters[last]?).any isWordChar)

/-- Whether a plain text stands in a line. -/
def contains (d : Regex.Dialect) (text line : List Char) : Bool :=
  let same (a b : Char) : Bool := Regex.sameLetter d a b
  (List.range (line.length + 1)).any fun i =>
    let rest := line.drop i
    text.length ≤ rest.length && (text.zip rest).all fun (a, b) => same a b

def accepts (q : Query) (line : List Char) : Bool :=
  q.patterns.any fun pattern =>
    if q.fixed then
      if q.whole then pattern.length = line.length && contains q.dialect pattern line
      else contains q.dialect pattern line
    else
      let text := line.toArray
      let r := Regex.ofText q.dialect pattern
      let r := if q.whole then .sequence .lineStart (.sequence r .lineEnd) else r
      match Regex.search q.dialect r text 0 with
      | some (first, last, _) => !q.word || standsAlone text first last
      | none => false

/-- What matches in a line, one after another. -/
def matched (q : Query) (line : Array Char) (start : Nat) : Nat → List (List Char)
  | 0 => []
  | fuel + 1 =>
    let first? (p : List Char) := Regex.search q.dialect (Regex.ofText q.dialect p) line start
    match q.patterns.findSome? first? with
    | none => []
    | some (first, last, _) =>
      if first = last then matched q line (first + 1) fuel
      else (line.extract first last).toList :: matched q line last fuel

/-- The patterns that options name, and the other arguments. -/
def patternOptions : List Bytes → List Bytes × List Bytes
  | [] => ([], [])
  | argument :: rest =>
    if argument = utf8 "-e" then
      match rest with
      | pattern :: rest =>
        let (patterns, others) := patternOptions rest
        (pattern :: patterns, others)
      | [] => ([], [])
    else
      let (patterns, others) := patternOptions rest
      (patterns, argument :: others)

end Grep

def grep : Applet := fun c => do
  let (given, arguments) := Grep.patternOptions c.arguments
  let (options, files) := splitOptions arguments
  let (patterns, files) := if given.isEmpty then (files.take 1, files.drop 1) else (given, files)
  let has (o : Char) : Bool := options.contains o
  let q : Grep.Query := {
    dialect := ⟨has 'E' || c.name = "egrep", has 'i'⟩
    patterns := patterns.map Bytes.toLatin
    fixed := has 'F' || c.name = "fgrep"
    whole := has 'x'
    word := has 'w' }
  let named := (1 < files.length && !has 'h') || has 'H'
  let files := if files.isEmpty then [[0x2D]] else files
  let (found, trouble) ← files.foldlM (fun (found, trouble) file => do
    match ← input file with
    | .error errno =>
      if !has 's' then complain c.name (file ++ ofErrno errno)
      return (found, true)
    | .ok content =>
      let (lines, _) := splitLines content
      let hits := (lines.zipIdx 1).filter fun (line, _) =>
        Grep.accepts q (Bytes.toLatin line) != has 'v'
      let label : Bytes := if named then file ++ [0x3A] else []
      if has 'q' then pure ()
      else if has 'l' then
        if !hits.isEmpty then
          let _ ← Proc.write 1 (file ++ [10])
      else if has 'c' then
        let _ ← Proc.write 1 (label ++ utf8 s!"{hits.length}\n")
      else
        let _ ← Proc.write 1 (hits.flatMap fun (line, n) =>
          let head := label ++ (if has 'n' then utf8 s!"{n}:" else [])
          if has 'o' then
            let text := (Bytes.toLatin line).toArray
            (Grep.matched q text 0 (text.size + 1)).flatMap fun piece =>
              head ++ Bytes.ofLatin piece ++ [10]
          else head ++ line ++ [10])
      return (found || !hits.isEmpty, trouble)) (false, false)
  return if has 'q' && found then 0 else if trouble then 2 else if found then 0 else 1

end BugHunt.Utility
