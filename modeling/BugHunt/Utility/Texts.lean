import BugHunt.Shell.Escape
import BugHunt.Shell.Pattern
import BugHunt.Digest.Md5
import BugHunt.Utility.Basic
/-!
Programs that cut, count, sort and change lines.
-/

namespace BugHunt.Utility

/-- A count that an option gives, in the same or in the next argument: `letter`, or a bare
number. The other arguments keep their order. -/
def countOption (letter : UInt8) : List Bytes → Option Bytes × List Bytes
  | [] => (none, [])
  | argument :: rest =>
    if argument = [0x2D, letter] then
      match rest with
      | value :: rest =>
        let (later, others) := countOption letter rest
        (later <|> some value, others)
      | [] => (none, [])
    else
      let (later, others) := countOption letter rest
      match argument with
      | 0x2D :: l :: value =>
        if l = letter then (later <|> some value, others)
        else if letter = 0x6E && (decimal? (l :: value)).isSome then
          (later <|> some (l :: value), others)
        else (later, argument :: others)
      | _ => (later, argument :: others)

/-- The first lines, with their ends. -/
def firstLines (n : Nat) (content : Bytes) : Bytes :=
  let (lines, _) := splitLines content
  if lines.length ≤ n then content else joinLines (lines.take n)

def lastLines (n : Nat) (content : Bytes) : Bytes :=
  let (lines, ended) := splitLines content
  let kept := lines.drop (lines.length - n)
  if kept.isEmpty then [] else
  let joined := joinLines kept
  if ended then joined else joined.dropLast

/-- The front of what a descriptor yields, read no further than `enough` asks for. -/
def readWhile (enough : Bytes → Bool) (descriptor : Nat) (found : Bytes) :
    Nat → Proc (Except Errno Bytes)
  | 0 => return .ok found
  | fuel + 1 => do
    if enough found then return .ok found
    match ← Proc.read descriptor Proc.blockSize with
    | .error errno => return .error errno
    | .ok [] => return .ok found
    | .ok content => readWhile enough descriptor (found ++ content) fuel

/-- The front of a file, or of the standard input for a dash. -/
def front (enough : Bytes → Bool) (path : Bytes) : Proc (Except Errno Bytes) := do
  if path = [0x2D] then readWhile enough 0 [] Proc.manyReads
  else match ← Proc.number (.open ⟨path⟩ .read) with
    | .error errno => return .error errno
    | .ok descriptor =>
      let content ← readWhile enough descriptor [] Proc.manyReads
      let _ ← Proc.call (.close descriptor)
      return content

/-- Shows parts of files, each under its name if there are many. -/
def showParts (name : String) (files : List Bytes) (part : Bytes → Proc (Except Errno Bytes)) :
    Proc Nat := do
  let files := if files.isEmpty then [[0x2D]] else files
  let (_, status) ← files.foldlM (fun (first, status) file => do
    match ← part file with
    | .error errno =>
      let what := if errno = .isDirectory then "error reading " else "cannot open "
      let purpose := if errno = .isDirectory then "" else " for reading"
      complain name (utf8 what ++ quoted file ++ utf8 purpose ++ ofErrno errno)
      return (first, 1)
    | .ok shown =>
      let title := if file = [0x2D] then utf8 "standard input" else file
      let head : Bytes := if files.length < 2 then []
        else (if first then [] else [10]) ++ utf8 "==> " ++ title ++ utf8 " <==\n"
      let _ ← Proc.write 1 (head ++ shown)
      return (false, status)) (true, 0)
  return status

def head : Applet := fun c => do
  let (bytes, arguments) := countOption 0x63 c.arguments
  let (lines, arguments) := countOption 0x6E arguments
  let (_, files) := splitOptions arguments
  showParts c.name files fun file =>
    match bytes.bind decimal? with
    | some n => return (← front (fun found => n ≤ found.length) file).map (·.take n)
    | none =>
      let n := (lines.bind decimal?).getD 10
      return (← front (fun found => n ≤ found.countP (· = 10)) file).map (firstLines n)

/-- The end of a text that options ask for, by bytes or by lines; a plus sign counts from the
front. -/
def ending (bytes lines : Option Bytes) (content : Bytes) : Bytes :=
  match bytes, lines with
  | some (0x2B :: n), _ => content.drop ((decimal? n).getD 1 - 1)
  | some n, _ => content.takeLast ((decimal? n).getD 0)
  | none, some (0x2B :: n) =>
    let (all, ended) := splitLines content
    let kept := joinLines (all.drop ((decimal? n).getD 1 - 1))
    if ended then kept else kept.dropLast
  | none, n => lastLines ((n.bind decimal?).getD 10) content

def tail : Applet := fun c => do
  let (bytes, arguments) := countOption 0x63 c.arguments
  let (lines, arguments) := countOption 0x6E arguments
  let (_, files) := splitOptions arguments
  showParts c.name files fun file => return (← input file).map (ending bytes lines)

def isBlank (b : UInt8) : Bool := b = 0x20 || (0x09 ≤ b && b ≤ 0x0D)

/-- How many words a text has. -/
def countWords (content : Bytes) : Nat :=
  (content.foldl (fun (count, inWord) b =>
    if isBlank b then (count, false)
    else if inWord then (count, true)
    else (count + 1, true)) (0, false)).1

def padLeft (width : Nat) (text : String) : String :=
  String.ofList (List.replicate (width - text.length) ' ') ++ text

def wc : Applet := fun c => do
  let (options, files) := splitOptions c.arguments
  let options := if options.isEmpty then ['l', 'w', 'c'] else options
  let counts (content : Bytes) : List Nat :=
    (if options.contains 'l' then [content.countP (· = 10)] else [])
    ++ (if options.contains 'w' then [countWords content] else [])
    ++ (if options.contains 'c' || options.contains 'm' then [content.length] else [])
  let named := !files.isEmpty
  let files := if files.isEmpty then [[0x2D]] else files
  let (rows, status) ← files.foldlM (fun (rows, status) file => do
    match ← input file with
    | .ok content => return (rows ++ [(file, counts content, content.length)], status)
    | .error errno =>
      complain c.name (file ++ ofErrno errno)
      return (rows, 1)) (([] : List (Bytes × List Nat × Nat)), 0)
  let size := rows.foldl (fun total row => total + row.2.2) 0
  let width := if (counts []).length = 1 && files.length = 1 then 1
    else if !named then 7 else (toString size).length
  let line (row : Bytes × List Nat) : Bytes :=
    utf8 (" ".intercalate (row.2.map fun n => padLeft width (toString n)))
      ++ (if named then 0x20 :: row.1 else []) ++ [10]
  let _ ← Proc.write 1 (rows.flatMap fun row => line (row.1, row.2.1))
  if 1 < files.length then
    let total := rows.foldl (fun sums row => List.zipWith (· + ·) sums row.2.1)
      ((counts []).map fun _ => 0)
    let _ ← Proc.write 1 (line (utf8 "total", total))
  return status

/-- The number that a line begins with. -/
def leadingNumber (line : Bytes) : Int :=
  let text := line.dropWhile isBlank
  let (negative, digits) : Bool × Bytes := match text with
    | 0x2D :: rest => (true, rest)
    | rest => (false, rest)
  let digits := digits.takeWhile fun b => 0x30 ≤ b && b ≤ 0x39
  let n : Nat := digits.foldl (fun (n : Nat) b => 10 * n + (b.toNat - 48)) 0
  if negative then -(n : Int) else n

def sort : Applet := fun c => do
  let (options, files) := splitOptions c.arguments
  let (content, right) ← inputs c.name files
  let (lines, _) := splitLines content
  let numeric := options.contains 'n'
  let before (a b : Bytes) : Bool :=
    if numeric && leadingNumber a ≠ leadingNumber b then leadingNumber a < leadingNumber b
    else !decide (b < a)
  let sorted := lines.mergeSort before
  let sorted := if options.contains 'r' then sorted.reverse else sorted
  let sorted := if options.contains 'u' then
      sorted.foldr (fun line rest => if rest.head? = some line then rest else line :: rest) []
    else sorted
  let _ ← Proc.write 1 (joinLines sorted)
  return if right then 0 else 2

/-- Lines with how often each stands there in a row. -/
def runs (lines : List Bytes) : List (Bytes × Nat) :=
  lines.foldr (fun line rest =>
    match rest with
    | (other, n) :: more => if other = line then (other, n + 1) :: more else (line, 1) :: rest
    | [] => [(line, 1)]) []

def uniq : Applet := fun c => do
  let (options, files) := splitOptions c.arguments
  let (content, right) ← inputs c.name (files.take 1)
  let (lines, _) := splitLines content
  let kept := (runs lines).filter fun (_, n) =>
    (!options.contains 'd' || 1 < n) && (!options.contains 'u' || n = 1)
  let _ ← Proc.write 1 (kept.flatMap fun (line, n) =>
    (if options.contains 'c' then utf8 (padLeft 7 (toString n)) ++ [0x20] else []) ++ line ++ [10])
  return if right then 0 else 1

/-- The characters of a set, with ranges, classes and escapes. -/
def setOf : List Char → Nat → List Char
  | _, 0 => []
  | [], _ => []
  | '[' :: ':' :: rest, fuel + 1 =>
    let name := rest.takeWhile (· ≠ ':')
    let ranges := Shell.Pattern.classRanges (String.ofList name)
    let chars := (List.range 256).map Char.ofNat |>.filter fun c =>
      ranges.any fun (low, high) => low ≤ c && c ≤ high
    chars ++ setOf (rest.drop (name.length + 2)) fuel
  | low :: '-' :: high :: rest, fuel + 1 =>
    (List.range' low.toNat (high.toNat + 1 - low.toNat)).map Char.ofNat ++ setOf rest fuel
  | c :: rest, fuel + 1 => c :: setOf rest fuel

def setOfArgument (argument : Bytes) : List Char :=
  let text := Bytes.toLatin argument
  let (plain, _) := Shell.Escape.replace false [] text (text.length + 1)
  setOf plain (plain.length + 1)

/-- The text with each run of a character of the set made one. -/
def squeeze (set : List Char) (text : List Char) : List Char :=
  text.foldr (fun c rest => if set.contains c && rest.head? = some c then rest else c :: rest) []

def tr : Applet := fun c => do
  let (options, sets) := splitOptions c.arguments
  match ← Proc.readAll 0 with
  | .error _ => return 1
  | .ok content =>
    let text := Bytes.toLatin content
    let first := setOfArgument (sets.headD [])
    let second := setOfArgument ((sets.drop 1).headD [])
    let complement := options.contains 'c' || options.contains 'C'
    let inFirst (x : Char) : Bool := first.contains x != complement
    let last := second.getLastD ' '
    let replaceChar (x : Char) : Char :=
      if complement then (if inFirst x then last else x)
      else match first.idxOf? x with
        | some i => second[i]?.getD last
        | none => x
    let shown :=
      if options.contains 'd' then
        let kept := text.filter fun x => !inFirst x
        if options.contains 's' then squeeze second kept else kept
      else if sets.length < 2 then
        text.foldr (fun x rest => if inFirst x && rest.head? = some x then rest else x :: rest) []
      else
        let changed := text.map replaceChar
        if options.contains 's' then squeeze second changed else changed
    let _ ← Proc.write 1 (Bytes.ofLatin shown)
    return 0

/-- Whether a list such as `1,3-5` names a number. -/
def listed (list : Bytes) (n : Nat) : Bool :=
  (list.splitOn 0x2C).any fun range =>
    match range.splitOn 0x2D with
    | [one] => decimal? one = some n
    | [low, high] => (decimal? low).getD 1 ≤ n && n ≤ (decimal? high).getD n
    | _ => false

def cut : Applet := fun c => do
  let (delimiter, arguments) := countOption 0x64 c.arguments
  let (fields, arguments) := countOption 0x66 arguments
  let (chars, arguments) := countOption 0x63 arguments
  let (bytes, arguments) := countOption 0x62 arguments
  let (options, files) := splitOptions arguments
  let (content, right) ← inputs c.name files
  let (lines, _) := splitLines content
  let separator := (delimiter.bind List.head?).getD 9
  let line (text : Bytes) : List Bytes :=
    match fields, chars <|> bytes with
    | some list, _ =>
      if !text.contains separator then (if options.contains 's' then [] else [text])
      else
        let kept := ((Bytes.splitOn separator text).zipIdx 1).filter fun (_, n) => listed list n
        [[separator].intercalate (kept.map (·.1))]
    | none, some list => [((text.zipIdx 1).filter fun (_, n) => listed list n).map (·.1)]
    | none, none => [text]
  let _ ← Proc.write 1 (joinLines (lines.flatMap line))
  return if right then 0 else 1

def seq : Applet := fun c => do
  let numbers := (c.arguments.filter fun a => a ≠ utf8 "-w").map leadingNumber
  let (first, step, last) : Int × Int × Int := match numbers with
    | [last] => (1, 1, last)
    | [first, last] => (first, 1, last)
    | first :: step :: last :: _ => (first, step, last)
    | [] => (1, 1, 0)
  let count := if step = 0 then 0
    else if 0 < step then (if last < first then 0 else ((last - first) / step + 1).toNat)
    else if first < last then 0 else ((first - last) / (-step) + 1).toNat
  let lines := (List.range count).map fun (i : Nat) => utf8 (toString (first + step * i))
  let _ ← Proc.write 1 (joinLines lines)
  return 0

/-- Joins the lines of files side by side. -/
def paste : Applet := fun c => do
  let (_, files) := splitOptions c.arguments
  let columns ← files.mapM fun file => do
    return (splitLines ((← input file).toOption.getD [])).1
  let height := (columns.map List.length).foldl max 0
  let rows := (List.range height).map fun (i : Nat) =>
    [9].intercalate (columns.map fun column => (column[i]?).getD [])
  let _ ← Proc.write 1 (joinLines rows)
  return 0

/-- A path's text without an ending, unless that is all of it. -/
def withoutEnding (name ending : Bytes) : Bytes :=
  if name ≠ ending && ending.isSuffixOf name then name.take (name.length - ending.length)
  else name

def basename : Applet := fun c => do
  let (_, arguments) := splitOptions c.arguments
  match arguments with
  | [] => misuseText c.name "missing operand"
  | path :: rest =>
    let _ ← Proc.write 1 (withoutEnding (lastPart path) (rest.headD []) ++ [10])
    return 0

/-- The directory part of a path's text. -/
def directoryPart (path : Bytes) : Bytes :=
  let trimmed := path.reverse.dropWhile (· = Path.slash)
  let before := (trimmed.dropWhile (· ≠ Path.slash)).dropWhile (· = Path.slash)
  if !before.isEmpty then before.reverse
  else if path.head? = some Path.slash then [Path.slash]
  else [Path.dot]

def dirname : Applet := fun c => do
  let (_, paths) := splitOptions c.arguments
  if paths.isEmpty then
    return ← misuseText c.name "missing operand"
  let _ ← Proc.write 1 (joinLines (paths.map directoryPart))
  return 0

def rev : Applet := fun c => do
  let (content, right) ← inputs c.name c.arguments
  let (lines, _) := splitLines content
  let _ ← Proc.write 1 (joinLines (lines.map List.reverse))
  return if right then 0 else 1

def tac : Applet := fun c => do
  let (content, right) ← inputs c.name c.arguments
  let (lines, _) := splitLines content
  let _ ← Proc.write 1 (joinLines lines.reverse)
  return if right then 0 else 1

def nl : Applet := fun c => do
  let (_, files) := splitOptions c.arguments
  let (content, right) ← inputs c.name files
  let (lines, _) := splitLines content
  let (shown, _) := lines.foldl (fun (shown, n) line =>
    if line.isEmpty then (shown ++ [utf8 "       "], n)
    else (shown ++ [utf8 (padLeft 6 (toString n)) ++ 9 :: line], n + 1)) (([] : List Bytes), 1)
  let _ ← Proc.write 1 (joinLines shown)
  return if right then 0 else 1

def md5sum : Applet := fun c => do
  let files := if c.arguments.isEmpty then [[0x2D]] else c.arguments
  files.foldlM (fun status file => do
    match ← input file with
    | .ok content =>
      let _ ← Proc.write 1 (utf8 (Bytes.toHex (Digest.md5 content)) ++ utf8 "  " ++ file ++ [10])
      return status
    | .error errno =>
      complain c.name (file ++ ofErrno errno)
      return 1) 0

/-- Whether two files are the same, byte by byte. -/
def cmp : Applet := fun c => do
  let (options, files) := splitOptions c.arguments
  match files with
  | a :: b :: _ =>
    match ← input a, ← input b with
    | .ok x, .ok y =>
      if x = y then return 0
      let same := (List.zip x y).takeWhile fun (p, q) => p = q
      if !options.contains 's' then
        if same.length = min x.length y.length then
          let short := if x.length < y.length then a else b
          complain c.name (utf8 "EOF on " ++ short ++ utf8 s!" after byte {same.length}")
        else
          let line := (x.take same.length).countP (· = 10) + 1
          let _ ← Proc.write 1 (a ++ [0x20] ++ b
            ++ utf8 s!" differ: char {same.length + 1}, line {line}\n")
      return 1
    | .error errno, _ =>
      complain c.name (a ++ ofErrno errno)
      return 2
    | _, .error errno =>
      complain c.name (b ++ ofErrno errno)
      return 2
  | _ => return 2

end BugHunt.Utility
