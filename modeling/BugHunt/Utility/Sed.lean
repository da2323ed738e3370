import BugHunt.Utility.Basic
import BugHunt.Utility.Regex
/-!
Editing lines by a script: substitution, deletion, printing, quitting, at addresses.
-/

namespace BugHunt.Utility

namespace Sed

open Shell (Text)

inductive Address where
  | line (n : Nat)
  | last
  | pattern (text : Text)
  deriving Repr

inductive Edit where
  | substitute (pattern replacement : Text) (global print : Bool) (which : Nat) (ignoreCase : Bool)
  | delete
  | print
  | quit
  | transliterate (source target : Text)
  | append (text : Text)
  | insert (text : Text)
  | change (text : Text)
  | number
  | none
  deriving Repr

/-- An edit and the lines it is for. -/
structure Rule where
  first : Option Address
  second : Option Address
  negated : Bool
  edit : Edit
  deriving Repr

/-- A text up to a delimiter that no backslash hides, and what follows it. -/
def delimited (delimiter : Char) (done : Text) : Text → Text × Text
  | [] => (done.reverse, [])
  | '\\' :: c :: rest =>
    if c = delimiter then delimited delimiter (c :: done) rest
    else delimited delimiter (c :: '\\' :: done) rest
  | c :: rest =>
    if c = delimiter then (done.reverse, rest) else delimited delimiter (c :: done) rest

def address? (text : Text) : Option Address × Text :=
  match text with
  | '$' :: rest => (some .last, rest)
  | '/' :: rest =>
    let (pattern, rest) := delimited '/' [] rest
    (some (.pattern pattern), rest)
  | text =>
    let (n, rest) := Regex.digits text
    (n.map .line, rest)

def isEnd (c : Char) : Bool := c = ';' || c = '\n'

/-- One edit at the front of a script, and what follows it. -/
def edit? (text : Text) : Option (Edit × Text) :=
  let lineOf (rest : Text) : Text × Text :=
    let rest := rest.dropWhile fun c => c = ' ' || c = '\t' || c = '\\' || c = '\n'
    let line := rest.takeWhile (· ≠ '\n')
    (line, rest.drop line.length)
  match text with
  | 's' :: delimiter :: rest =>
    let (pattern, rest) := delimited delimiter [] rest
    let (replacement, rest) := delimited delimiter [] rest
    let flags := rest.takeWhile fun c => c.isAlphanum
    let which := (flags.filter Char.isDigit).foldl (fun n c => 10 * n + (c.toNat - 48)) 0
    some (.substitute pattern replacement (flags.contains 'g') (flags.contains 'p') which
      (flags.contains 'I' || flags.contains 'i'), rest.drop flags.length)
  | 'y' :: delimiter :: rest =>
    let (source, rest) := delimited delimiter [] rest
    let (target, rest) := delimited delimiter [] rest
    some (.transliterate source target, rest)
  | 'd' :: rest => some (.delete, rest)
  | 'p' :: rest => some (.print, rest)
  | 'q' :: rest => some (.quit, rest)
  | '=' :: rest => some (.number, rest)
  | 'a' :: rest => let (line, rest) := lineOf rest; some (.append line, rest)
  | 'i' :: rest => let (line, rest) := lineOf rest; some (.insert line, rest)
  | 'c' :: rest => let (line, rest) := lineOf rest; some (.change line, rest)
  | _ => Option.none

/-- The rules of a script. -/
def rules (script : Text) : Nat → Option (List Rule)
  | 0 => some []
  | fuel + 1 =>
    let script := script.dropWhile fun c => isEnd c || c = ' ' || c = '\t'
    if script.isEmpty then some []
    else
      let (first, rest) := address? script
      let (second, rest) := match rest with
        | ',' :: rest => address? rest
        | rest => (Option.none, rest)
      let rest := rest.dropWhile (· = ' ')
      let (negated, rest) := match rest with
        | '!' :: rest => (true, rest.dropWhile (· = ' '))
        | rest => (false, rest)
      match edit? rest with
      | Option.none => Option.none
      | some (edit, rest) =>
        let rest := rest.dropWhile (· = ' ')
        if !rest.isEmpty && !(rest.head?.any isEnd) then Option.none
        else (rules rest fuel).map fun more => ⟨first, second, negated, edit⟩ :: more

/-- The text that a replacement gives for a match. -/
def replaced (line : Array Char) (first last : Nat) (groups : Regex.Groups) : Text → Text
  | [] => []
  | '&' :: rest => (line.extract first last).toList ++ replaced line first last groups rest
  | '\\' :: c :: rest =>
    let piece : Text :=
      if '1' ≤ c && c ≤ '9' then
        match groups.lookup (c.toNat - 48) with
        | some (low, high) => (line.extract low high).toList
        | Option.none => []
      else if c = '0' then (line.extract first last).toList
      else if c = 'n' then ['\n']
      else if c = 't' then ['\t']
      else [c]
    piece ++ replaced line first last groups rest
  | c :: rest => c :: replaced line first last groups rest

/-- The line with matches replaced: all of them, or only the one of a number. -/
def substituteIn (d : Regex.Dialect) (r : Regex) (replacement : Text) (global : Bool) (which : Nat)
    (line : Array Char) (start count : Nat) : Nat → Text × Bool
  | 0 => ((line.extract start line.size).toList, false)
  | fuel + 1 =>
    match Regex.search d r line start with
    | Option.none => ((line.extract start line.size).toList, false)
    | some (first, last, groups) =>
      let before := (line.extract start first).toList
      let chosen := which ≤ count
      let piece := if chosen then replaced line first last groups replacement
        else (line.extract first last).toList
      let (skipped, next) : Text × Nat := if first = last then
          ((line.extract last (last + 1)).toList, last + 1)
        else ([], last)
      if line.size < next then (before ++ piece ++ skipped, chosen)
      else if chosen && !global then
        (before ++ piece ++ (line.extract last line.size).toList, true)
      else
        let (rest, more) :=
          substituteIn d r replacement global which line next (count + 1) fuel
        (before ++ piece ++ skipped ++ rest, chosen || more)

/-- What happens to the line at hand. -/
structure Turn where
  line : Text
  /-- What is written before the line. -/
  shown : List Text := []
  after : List Text := []
  deleted : Bool := false
  quits : Bool := false
  /-- The ranges that are open, by the place of their rule. -/
  opened : List (Nat × Bool)

def fits (d : Regex.Dialect) (number : Nat) (isLast : Bool) (line : Text) : Address → Bool
  | .line n => n = number
  | .last => isLast
  | .pattern p => (Regex.search d (Regex.ofText d p) line.toArray 0).isSome

/-- Whether a rule is for the line, and whether its range is open afterwards. -/
def applies (d : Regex.Dialect) (number : Nat) (isLast isOpen : Bool) (line : Text) (r : Rule) :
    Bool × Bool :=
  let (hit, stays) := match r.first, r.second with
    | Option.none, _ => (true, false)
    | some a, Option.none => (fits d number isLast line a, false)
    | some a, some b =>
      let reached := match b with
        | .line n => n ≤ number
        | b => fits d number isLast line b
      if isOpen then (true, !reached)
      else if fits d number isLast line a then
        (true, match b with
          | .line n => number < n
          | _ => true)
      else (false, false)
  (hit != r.negated, stays)

def apply (d : Regex.Dialect) (number : Nat) (isLast : Bool) (t : Turn) (place : Nat) (r : Rule) :
    Turn :=
  if t.deleted || t.quits then t
  else
    let (hit, stays) := applies d number isLast ((t.opened.lookup place).getD false) t.line r
    let t := { t with opened := (place, stays) :: t.opened.filter (·.1 ≠ place) }
    if !hit then t
    else match r.edit with
      | .substitute pattern replacement global print which ignoreCase =>
        let d := { d with ignoreCase }
        let line := t.line.toArray
        let (text, changed) := substituteIn d (Regex.ofText d pattern) replacement global
          (max which 1) line 0 1 (line.size + 2)
        let t := { t with line := text }
        if changed && print then { t with shown := t.shown ++ [text] } else t
      | .delete => { t with deleted := true }
      | .print => { t with shown := t.shown ++ [t.line] }
      | .quit => { t with quits := true }
      | .transliterate source target =>
        { t with line := t.line.map fun c =>
          ((source.zip target).lookup c).getD c }
      | .append text => { t with after := t.after ++ [text] }
      | .insert text => { t with shown := t.shown ++ [text] }
      | .change text => { t with shown := t.shown ++ [text], deleted := true }
      | .number => { t with shown := t.shown ++ [(toString number).toList] }
      | .none => t

/-- The lines that the rules make of lines. -/
def run (d : Regex.Dialect) (rules : List Rule) (quiet : Bool) (opened : List (Nat × Bool))
    (number : Nat) : List Text → List Text
  | [] => []
  | line :: rest =>
    let t := rules.zipIdx.foldl (fun t (r, place) => apply d number rest.isEmpty t place r)
      { line, opened }
    let shown := t.shown ++ (if quiet || t.deleted then [] else [t.line]) ++ t.after
    if t.quits then shown else shown ++ run d rules quiet t.opened (number + 1) rest

/-- The scripts among the arguments, and the files. -/
def scriptOptions : List Bytes → List Bytes × List Bytes
  | [] => ([], [])
  | argument :: rest =>
    if argument = utf8 "-e" then
      match rest with
      | script :: rest =>
        let (scripts, others) := scriptOptions rest
        (script :: scripts, others)
      | [] => ([], [])
    else
      let (scripts, others) := scriptOptions rest
      (scripts, argument :: others)

end Sed

def sed : Applet := fun c => do
  let (scripts, arguments) := Sed.scriptOptions c.arguments
  let (options, files) := splitOptions arguments
  let (scripts, files) := if scripts.isEmpty then (files.take 1, files.drop 1) else (scripts, files)
  let text := Bytes.toLatin ([10].intercalate scripts)
  let extended := options.contains 'E' || options.contains 'r'
  match Sed.rules text (text.length + 1) with
  | none =>
    complainText c.name "-e expression #1, char 1: unknown command"
    return 1
  | some rules =>
    let quiet := options.contains 'n'
    let edited (content : Bytes) : Bytes :=
      let (lines, ended) := splitLines content
      let shown := Sed.run ⟨extended, false⟩ rules quiet [] 1 (lines.map Bytes.toLatin)
      let joined := joinLines (shown.map Bytes.ofLatin)
      if ended then joined else joined.dropLast
    if options.contains 'i' then
      files.foldlM (fun status file => do
        match ← Proc.contents ⟨file⟩ with
        | .error errno =>
          complain c.name (utf8 "can't read " ++ file ++ ofErrno errno)
          return 2
        | .ok content =>
          match ← Proc.number (.open ⟨file⟩ .write) with
          | .ok descriptor =>
            let _ ← Proc.write descriptor (edited content)
            let _ ← Proc.call (.close descriptor)
            return status
          | .error _ => return 4) 0
    else
      let (content, right) ← (if files.isEmpty then [[0x2D]] else files).foldlM
        (fun (content, right) file => do
          match ← input file with
          | .ok more => return (content ++ more, right)
          | .error errno =>
            complain c.name (utf8 "can't read " ++ file ++ ofErrno errno)
            return (content, false)) (([] : Bytes), true)
      let _ ← Proc.write 1 (edited content)
      return if right then 0 else 2

end BugHunt.Utility
