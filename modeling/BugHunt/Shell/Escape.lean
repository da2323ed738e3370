import BugHunt.Shell.Arithmetic
/-!
Backslash escapes in printed text, and formats.
-/

namespace BugHunt.Shell.Escape

def isOctal (c : Char) : Bool := '0' ≤ c && c ≤ '7'

/-- The character of at most three octal digits, and what follows them. -/
def octal (text : Text) : Char × Text :=
  let digits := (text.take 3).takeWhile isOctal
  (Char.ofNat (Arithmetic.ofDigits 8 digits % 256), text.drop digits.length)

/-- The sign behind a backslash that stands for another character. -/
def letter? (c : Char) : Option Char :=
  match c with
  | 'a' => some '\x07'
  | 'b' => some '\x08'
  | 'e' => some '\x1b'
  | 'f' => some '\x0c'
  | 'n' => some '\n'
  | 'r' => some '\r'
  | 't' => some '\t'
  | 'v' => some '\x0b'
  | '\\' => some '\\'
  | _ => none

/-- The text with its escapes replaced, and whether an escape tells to stop there. An octal number
begins with a zero if `zero` says so. -/
def replace (zero : Bool) (done : Text) : Text → Nat → Text × Bool
  | _, 0 => (done.reverse, false)
  | [], _ => (done.reverse, false)
  | '\\' :: c :: rest, fuel + 1 =>
    if c = 'c' && zero then (done.reverse, true)
    else if c = '0' && zero then
      let (d, after) := octal rest
      replace zero (d :: done) after fuel
    else if isOctal c then
      let (d, after) := octal (c :: rest)
      replace zero (d :: done) after fuel
    else match letter? c with
      | some d => replace zero (d :: done) rest fuel
      | none => replace zero (c :: '\\' :: done) rest fuel
  | c :: rest, fuel + 1 => replace zero (c :: done) rest fuel

/-- Arguments as a line with escapes, for the command that echoes them. -/
def echo (arguments : List Text) : Text :=
  let (newline, words) := match arguments with
    | ['-', 'n'] :: rest => (false, rest)
    | rest => (true, rest)
  let text := [' '].intercalate words
  let (shown, stopped) := replace true [] text (text.length + 1)
  if newline && !stopped then shown ++ ['\n'] else shown

/-- One conversion of a format. -/
structure Conversion where
  flags : Text
  width : Nat
  precision : Option Nat
  letter : Char

def pad (c : Conversion) (text : Text) : Text :=
  let fill := List.replicate (c.width - text.length) ' '
  if c.flags.contains '-' then text ++ fill else fill ++ text

/-- A number with its sign or base in front, filled with zeros or blanks. -/
def padNumber (c : Conversion) (front digits : Text) : Text :=
  let digits := match c.precision with
    | some n => List.replicate (n - digits.length) '0' ++ digits
    | none => digits
  if c.flags.contains '0' && !c.flags.contains '-' && c.precision.isNone then
    front ++ List.replicate (c.width - front.length - digits.length) '0' ++ digits
  else pad c (front ++ digits)

def sign (c : Conversion) (negative : Bool) : Text :=
  if negative then ['-'] else if c.flags.contains '+' then ['+']
  else if c.flags.contains ' ' then [' '] else []

def digitsIn (base n : Nat) (upper : Bool) : Text :=
  (Nat.toDigits base n).map fun c => if upper then c.toUpper else c

/-- The number that an argument stands for, and what is wrong with it; a quoted character stands for
its code, and a number ends where its digits do. -/
def numberOf (signed : Bool) (argument : Text) : Int × Option String :=
  match argument with
  | '\x22' :: rest => (((rest.head?.map Char.toNat).getD 0 : Nat), none)
  | '\x27' :: rest => (((rest.head?.map Char.toNat).getD 0 : Nat), none)
  | text =>
    let (negative, digits) := Arithmetic.signed (text.dropWhile Arithmetic.isBlank)
    let (magnitude, length) := Arithmetic.literal digits
    let n : Int := if negative then -magnitude else magnitude
    let least : Int := if signed then -0x8000000000000000 else -0xFFFFFFFFFFFFFFFF
    let most : Int := if signed then 0x7FFFFFFFFFFFFFFF else 0xFFFFFFFFFFFFFFFF
    if length = 0 then (0, if text.isEmpty then none else some "expected numeric value")
    else
      let complaint := if length < digits.length then some "not completely converted"
        else if n < least || most < n then some "Numerical result out of range" else none
      let kept :=
        if most < n then most else if n < least then (if signed then least else most) else n
      (kept, complaint)

/-- What a format made of one argument. -/
structure Converted where
  text : Text
  stopped : Bool := false
  complaint : Option String := none

/-- One argument in the form that a conversion asks for; no form belongs to an unknown letter. -/
def convert (c : Conversion) (argument : Option Text) : Option Converted :=
  let word := argument.getD []
  let integer (front : Nat → Text) (base : Nat) (upper : Bool) : Converted :=
    let (n, complaint) := numberOf false word
    let magnitude := (n % 0x10000000000000000).toNat
    let front := if c.flags.contains '#' && magnitude ≠ 0 then front magnitude else []
    { text := padNumber c front (digitsIn base magnitude upper), complaint }
  match c.letter with
  | 's' => some { text := pad c (c.precision.elim word word.take) }
  | 'b' =>
    let (text, stopped) := replace true [] word (word.length + 1)
    some { text := pad c text, stopped }
  | 'c' => some { text := pad c [word.headD '\x00'] }
  | 'd' | 'i' =>
    let (n, complaint) := numberOf true word
    some { text := padNumber c (sign c (n < 0)) (digitsIn 10 n.natAbs false), complaint }
  | 'u' => some (integer (fun _ => []) 10 false)
  | 'o' => some (integer (fun _ => ['0']) 8 false)
  | 'x' => some (integer (fun _ => ['0', 'x']) 16 false)
  | 'X' => some (integer (fun _ => ['0', 'X']) 16 true)
  | _ => none

/-- What a format made of its arguments so far. -/
structure Printed where
  text : Text := []
  arguments : List Text
  stopped : Bool := false
  /-- Arguments that are no right numbers, with what is wrong with them. -/
  complaints : List (Text × String) := []
  /-- What is wrong with the format. -/
  fault : Option Text := none
  used : Bool := false

/-- A count in a format: digits, or a star that takes an argument. -/
def count (p : Printed) : Text → Printed × Option Int × Text
  | '*' :: rest =>
    match p.arguments with
    | [] => (p, some 0, rest)
    | a :: more =>
      ({ p with arguments := more, used := true }, some (numberOf true a).1, rest)
  | text =>
    let digits := text.takeWhile isDigit
    (p, if digits.isEmpty then none else some (Arithmetic.ofDigits 10 digits : Nat),
      text.drop digits.length)

def isFlag (c : Char) : Bool := c = '-' || c = '+' || c = ' ' || c = '0' || c = '#'

/-- Reads one conversion, from behind its sign, and prints an argument in its form; the answer has
what is left of the format. -/
def conversion (p : Printed) (format : Text) : Printed × Text :=
  let flags := format.takeWhile isFlag
  let (p, width, rest) := count p (format.drop flags.length)
  let (p, precision, rest) := match rest with
    | '.' :: rest =>
      let (p, precision, rest) := count p rest
      (p, some ((precision.getD 0).toNat), rest)
    | rest => (p, none, rest)
  let width := width.getD 0
  let flags := if width < 0 then '-' :: flags else flags
  match rest with
  | [] => ({ p with fault := some "missing format character".toList, stopped := true }, [])
  | letter :: rest =>
    match convert ⟨flags, width.natAbs, precision, letter⟩ p.arguments.head? with
    | none =>
      let directive := '%' :: format.take (format.length - rest.length)
      ({ p with fault := some (directive ++ ": invalid directive".toList), stopped := true }, rest)
    | some converted =>
      let complaints := converted.complaint.elim [] fun text => [(p.arguments.headD [], text)]
      ({ p with
        text := p.text ++ converted.text
        arguments := p.arguments.drop 1
        used := true
        stopped := converted.stopped
        complaints := p.complaints ++ complaints }, rest)

/-- One pass through a format. -/
def pass (p : Printed) : Text → Nat → Printed
  | _, 0 => p
  | [], _ => p
  | '%' :: '%' :: rest, fuel + 1 => pass { p with text := p.text ++ ['%'] } rest fuel
  | '%' :: rest, fuel + 1 =>
    let (p, rest) := conversion p rest
    if p.stopped then p else pass p rest fuel
  | '\\' :: c :: rest, fuel + 1 =>
    if isOctal c then
      let (d, rest) := octal (c :: rest)
      pass { p with text := p.text ++ [d] } rest fuel
    else match letter? c with
      | some d => pass { p with text := p.text ++ [d] } rest fuel
      | none => pass { p with text := p.text ++ ['\\'] } (c :: rest) fuel
  | c :: rest, fuel + 1 => pass { p with text := p.text ++ [c] } rest fuel

/-- Goes through a format as often as there are arguments for it. -/
def passes (format : Text) (p : Printed) : Nat → Printed
  | 0 => p
  | fuel + 1 =>
    let p := pass { p with used := false } format (format.length + 1)
    if p.stopped || p.arguments.isEmpty || !p.used then p else passes format p fuel

def printf (format : Text) (arguments : List Text) : Printed :=
  passes format { arguments } (arguments.length + 1)

end BugHunt.Shell.Escape
