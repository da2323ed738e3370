import BugHunt.Toml.Reader
import BugHunt.Toml.Value
/-!
Numbers, dates and times of TOML 1.0.
-/

namespace BugHunt.Toml

open Reader

def digitValue? (base : Nat) (c : Char) : Option Nat :=
  let n :=
    if '0' ≤ c ∧ c ≤ '9' then c.toNat - 48
    else if 'a' ≤ c ∧ c ≤ 'f' then c.toNat - 87
    else if 'A' ≤ c ∧ c ≤ 'F' then c.toNat - 55
    else base
  if n < base then some n else none

/-- Digits in groups with single underscores between them, first to last. -/
def groupedDigits (base : Nat) : Reader (List Nat) := do
  let run ← charsWhile fun c => (digitValue? base c).isSome || c = '_'
  let groups := run.splitOn '_'
  check (groups.all fun group => !group.isEmpty)
  return run.filterMap (digitValue? base)

def ofDigits (base : Nat) (ds : List Nat) : Nat := ds.foldl (fun n d => n * base + d) 0

def smallestInteger : Int := -0x8000000000000000
def largestInteger : Int := 0x7FFFFFFFFFFFFFFF

def integerOf (n : Int) : Reader Value := do
  check (smallestInteger ≤ n && n ≤ largestInteger)
  return .integer n

def sign : Reader Bool := do
  match ← peek? with
  | some '-' => char '-'; return true
  | some '+' => char '+'; return false
  | _ => return false

/-- The digits of a decimal number that does not begin with a superfluous zero. -/
def decimalDigits : Reader (List Nat) := do
  let ds ← groupedDigits 10
  check (ds.length = 1 || ds.head? != some 0)
  return ds

/-- Whether `ds` times a power of ten rounds to infinity as a number of double precision. -/
def overflows (ds : List Nat) (exponent : Int) : Bool :=
  let ds := ds.dropWhile (· = 0)
  if ds.isEmpty then false
  else
    let size := exponent + ds.length
    if size < 300 then false
    else if 320 < size then true
    else
      let n := ofDigits 10 ds
      let bound := Nat.pow 2 1024 - Nat.pow 2 970
      if 0 ≤ exponent then bound ≤ n * Nat.pow 10 exponent.toNat
      else bound * Nat.pow 10 (-exponent).toNat ≤ n

def exponentPart : Reader Int := do
  let _ ← satisfying fun c => c = 'e' || c = 'E'
  let negative ← sign
  let n := ofDigits 10 (← groupedDigits 10)
  return if negative then -n else n

def fractionPart : Reader (List Nat) := do
  char '.'
  groupedDigits 10

/-- A number with a fraction, an exponent or both; positive infinity is no such number. -/
def float : Reader Value := do
  let negative ← sign
  let whole ← decimalDigits
  let fraction ← optional fractionPart
  let exponent ← optional exponentPart
  check (fraction.isSome || exponent.isSome)
  let fraction := fraction.getD []
  check (negative || !overflows (whole ++ fraction) (exponent.getD 0 - fraction.length))
  return .float

def specialFloat : Reader Value := do
  let _ ← sign
  word "inf" <|> word "nan"
  return .float

def basedInteger (base : Nat) : Reader Value := do
  integerOf (ofDigits base (← groupedDigits base))

def integer : Reader Value := do
  if ← word? "0x" then basedInteger 16
  else if ← word? "0o" then basedInteger 8
  else if ← word? "0b" then basedInteger 2
  else
    let negative ← sign
    let n := ofDigits 10 (← decimalDigits)
    integerOf (if negative then -n else n)

def daysIn (year month : Nat) : Nat :=
  if month = 2 then
    if year % 4 = 0 && (year % 100 != 0 || year % 400 = 0) then 29 else 28
  else if month = 4 || month = 6 || month = 9 || month = 11 then 30
  else 31

/-- A number with leading zeros up to a width. -/
def padded (width n : Nat) : String :=
  let digits := toString n
  String.ofList (List.replicate (width - digits.length) '0') ++ digits

def date : Reader String := do
  let year ← digits 4 0
  char '-'
  let month ← digits 2 0
  check (1 ≤ month && month ≤ 12)
  char '-'
  let day ← digits 2 0
  check (1 ≤ day && day ≤ daysIn year month)
  return s!"{padded 4 year}-{padded 2 month}-{padded 2 day}"

/-- The digits of a fraction of a second, of which nine count and trailing zeros do not. -/
def secondFraction : Reader String := do
  char '.'
  let run ← charsWhile Char.isDigit
  check (!run.isEmpty)
  let kept := ((run.take 9).reverse.dropWhile (· = '0')).reverse
  return if kept.isEmpty then "" else "." ++ String.ofList kept

def time : Reader String := do
  let hour ← digits 2 0
  check (hour ≤ 23)
  char ':'
  let minute ← digits 2 0
  check (minute ≤ 59)
  char ':'
  let second ← digits 2 0
  check (second ≤ 60)
  let fraction := (← optional secondFraction).getD ""
  return s!"{padded 2 hour}:{padded 2 minute}:{padded 2 second}{fraction}"

def offset : Reader String := do
  let c ← next
  if c = 'Z' || c = 'z' then return "Z"
  check (c = '+' || c = '-')
  let hour ← digits 2 0
  check (hour ≤ 23)
  char ':'
  let minute ← digits 2 0
  check (minute ≤ 59)
  return s!"{c}{padded 2 hour}:{padded 2 minute}"

def timeAfterDate : Reader String := do
  let _ ← satisfying fun c => c = 'T' || c = 't' || c = ' '
  let time ← time
  let offset := (← optional offset).getD ""
  return s!"T{time}{offset}"

/-- A date, a time, or a date with a time. -/
def moment : Reader Value := do
  match ← optional date with
  | some date =>
    let rest ← optional timeAfterDate
    return .moment (date ++ rest.getD "")
  | none => return .moment (← time)

/-- Whatever begins with a sign or a digit. -/
def number : Reader Value := moment <|> float <|> specialFloat <|> integer

end BugHunt.Toml
