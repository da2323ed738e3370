import BugHunt.Shell.Grammar
/-!
Whole-number expressions, in words of 64 bits.
-/

namespace BugHunt.Shell.Arithmetic

inductive Trouble where
  | expecting (what : String)
  | divisionByZero
  /-- The text of a variable is no number. -/
  | illegalNumber (text : Text)
  deriving DecidableEq, Repr

/-- An expression that is being evaluated: what is left of it, and the variables, first found
first. -/
structure Work where
  rest : Text
  lookup : String → Option Text
  assigned : List (String × Int)

abbrev Evaluation := StateT Work (Except Trouble)

/-- The number that the low 64 bits of a number stand for. -/
def wrap (n : Int) : Int := Int.bmod n 0x10000000000000000

def digitValue (c : Char) : Nat :=
  if '0' ≤ c && c ≤ '9' then c.toNat - 48
  else if 'a' ≤ c && c ≤ 'f' then c.toNat - 87
  else if 'A' ≤ c && c ≤ 'F' then c.toNat - 55
  else 99

def ofDigits (base : Nat) (digits : Text) : Nat :=
  digits.foldl (fun n c => base * n + digitValue c) 0

/-- The number at the front of a text, decimal, octal or hexadecimal, and its length. -/
def literal (text : Text) : Nat × Nat :=
  match text with
  | '0' :: x :: rest =>
    if x = 'x' || x = 'X' then
      let digits := rest.takeWhile fun c => digitValue c < 16
      (ofDigits 16 digits, digits.length + 2)
    else
      let digits := (x :: rest).takeWhile fun c => digitValue c < 8
      (ofDigits 8 digits, digits.length + 1)
  | _ =>
    let digits := text.takeWhile isDigit
    (ofDigits 10 digits, digits.length)

def isBlank (c : Char) : Bool := c = ' ' || c = '\t' || c = '\n'

def trim (text : Text) : Text := ((text.dropWhile isBlank).reverse.dropWhile isBlank).reverse

/-- A sign at the front of a text, as whether it is a minus, and what follows it. -/
def signed (text : Text) : Bool × Text :=
  match text with
  | '-' :: rest => (true, rest)
  | '+' :: rest => (false, rest)
  | rest => (false, rest)

/-- The number that a text of decimal digits stands for, if it fits into a word. Blanks around it
and a sign before it are allowed. -/
def ofDecimal? (text : Text) : Option Int :=
  let (negative, digits) := signed (trim text)
  if digits.isEmpty || !digits.all isDigit then none
  else
    let n : Int := ofDigits 10 digits
    let n := if negative then -n else n
    if wrap n = n then some n else none

/-- The number that the text of a variable stands for. -/
def ofText (text : Text) : Except Trouble Int :=
  let text := trim text
  let (negative, digits) := signed text
  if text.isEmpty then .ok 0
  else
    let (n, length) := literal digits
    if length = 0 || length ≠ digits.length then .error (.illegalNumber text)
    else .ok (wrap (if negative then -(n : Int) else n))

def skip (count : Nat) : Evaluation Unit := modify fun w => { w with rest := w.rest.drop count }

def skipBlanks : Evaluation Unit :=
  modify fun w => { w with rest := w.rest.dropWhile isBlank }

/-- The binary operators with their ranks; longer signs stand before shorter ones. -/
def operators : List (String × Nat) := [
  ("||", 1), ("&&", 2), ("==", 6), ("!=", 6), ("<=", 7), (">=", 7), ("<<", 8), (">>", 8),
  ("|", 3), ("^", 4), ("&", 5), ("<", 7), (">", 7), ("+", 9), ("-", 9), ("*", 10), ("/", 10),
  ("%", 10)]

/-- The signs that assign after an operation, with the sign of that operation. -/
def assignments : List (String × String) := [
  ("<<=", "<<"), (">>=", ">>"), ("+=", "+"), ("-=", "-"), ("*=", "*"), ("/=", "/"), ("%=", "%"),
  ("&=", "&"), ("|=", "|"), ("^=", "^")]

def ofBool (b : Bool) : Int := if b then 1 else 0

/-- The bits of a number as a natural number. -/
def bits (n : Int) : Nat := (n % 0x10000000000000000).toNat

def apply (sign : String) (a b : Int) : Except Trouble Int :=
  match sign with
  | "||" => .ok (ofBool (a ≠ 0 || b ≠ 0))
  | "&&" => .ok (ofBool (a ≠ 0 && b ≠ 0))
  | "==" => .ok (ofBool (a = b))
  | "!=" => .ok (ofBool (a ≠ b))
  | "<=" => .ok (ofBool (a ≤ b))
  | ">=" => .ok (ofBool (b ≤ a))
  | "<" => .ok (ofBool (a < b))
  | ">" => .ok (ofBool (b < a))
  | "|" => .ok (wrap (bits a ||| bits b))
  | "^" => .ok (wrap (bits a ^^^ bits b))
  | "&" => .ok (wrap (bits a &&& bits b))
  | "<<" => .ok (wrap (a * (1 <<< (bits b % 64) : Nat)))
  | ">>" => .ok (a >>> (bits b % 64))
  | "+" => .ok (wrap (a + b))
  | "-" => .ok (wrap (a - b))
  | "*" => .ok (wrap (a * b))
  | "/" => if b = 0 then .error .divisionByZero else .ok (wrap (Int.tdiv a b))
  | "%" => if b = 0 then .error .divisionByZero else .ok (wrap (Int.tmod a b))
  | _ => .error (.expecting "primary")

/-- The binary operator at the front of a text, if its rank is high enough. -/
def operatorAt (rank : Nat) (text : Text) : Option (String × Nat) :=
  if assignments.any fun (sign, _) => sign.toList.isPrefixOf text then none
  else
    (operators.find? fun (sign, _) => sign.toList.isPrefixOf text).filter fun (_, r) => rank ≤ r

def valueOf (name : String) : Evaluation Int := do
  let w ← get
  match w.assigned.lookup name with
  | some n => return n
  | none =>
    match w.lookup name with
    | none => return 0
    | some text => ofText text

def assign (name : String) (value : Int) : Evaluation Int := do
  modify fun w => { w with assigned := (name, value) :: w.assigned }
  return value

mutual

/-- Evaluates a choice, an assignment, or what binds tighter. -/
def full : Nat → Evaluation Int
  | 0 => throw (.expecting "primary")
  | fuel + 1 => do
    skipBlanks
    let text := (← get).rest
    let name := text.takeWhile isNamePart
    let after := (text.drop name.length).dropWhile isBlank
    if isName name then
      match assignments.find? fun (sign, _) => sign.toList.isPrefixOf after with
      | some (sign, operation) =>
        modify fun w => { w with rest := after.drop sign.length }
        let value ← full fuel
        let old ← valueOf (String.ofList name)
        return ← assign (String.ofList name) (← apply operation old value)
      | none =>
        if after.head? = some '=' && (after.drop 1).head? ≠ some '=' then
          modify fun w => { w with rest := after.drop 1 }
          return ← assign (String.ofList name) (← full fuel)
    let condition ← binary 1 fuel
    skipBlanks
    match (← get).rest with
    | '?' :: _ =>
      skip 1
      let before ← get
      let yes ← full fuel
      let chosen ← get
      skipBlanks
      match (← get).rest with
      | ':' :: _ =>
        skip 1
        let rest := (← get).rest
        set { (if condition ≠ 0 then chosen else before) with rest }
        let no ← full fuel
        if condition ≠ 0 then
          let rest := (← get).rest
          set { chosen with rest }
          return yes
        else return no
      | _ => throw (.expecting "':'")
    | _ => return condition

/-- Evaluates operators of at least the rank. -/
def binary (rank : Nat) : Nat → Evaluation Int
  | 0 => throw (.expecting "primary")
  | fuel + 1 => do
    let first ← unary fuel
    operations rank first fuel

/-- Applies the operators that follow a value. -/
def operations (rank : Nat) (value : Int) : Nat → Evaluation Int
  | 0 => throw (.expecting "primary")
  | fuel + 1 => do
    skipBlanks
    match operatorAt rank (← get).rest with
    | none => return value
    | some (sign, r) =>
      skip sign.length
      let next ← binary (r + 1) fuel
      operations rank (← apply sign value next) fuel

def unary : Nat → Evaluation Int
  | 0 => throw (.expecting "primary")
  | fuel + 1 => do
    skipBlanks
    match (← get).rest with
    | '-' :: _ =>
      skip 1
      return wrap (-(← unary fuel))
    | '+' :: _ =>
      skip 1
      unary fuel
    | '!' :: _ =>
      skip 1
      return ofBool ((← unary fuel) = 0)
    | '~' :: _ =>
      skip 1
      return -(← unary fuel) - 1
    | '(' :: _ =>
      skip 1
      let value ← full fuel
      skipBlanks
      if (← get).rest.head? ≠ some ')' then throw (.expecting "')'")
      skip 1
      return value
    | c :: _ =>
      if isDigit c then
        let (n, length) := literal (← get).rest
        skip length
        return wrap n
      else if isNameStart c then
        let name := (← get).rest.takeWhile isNamePart
        skip name.length
        valueOf (String.ofList name)
      else throw (.expecting "primary")
    | [] => throw (.expecting "primary")

end

/-- The value of an expression and the variables it assigns, in their order. -/
def evaluate (lookup : String → Option Text) (text : Text) :
    Except Trouble (Int × List (String × Int)) := do
  if (text.dropWhile isBlank).isEmpty then return (0, [])
  let (value, work) ← (full (text.length * 4 + 20)).run ⟨text, lookup, []⟩
  if (work.rest.dropWhile isBlank).isEmpty then return (value, work.assigned.reverse)
  else throw (.expecting "EOF")

end BugHunt.Shell.Arithmetic
