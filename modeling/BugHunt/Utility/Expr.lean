import BugHunt.Shell.Arithmetic
import BugHunt.Utility.Basic
/-!
A program that computes one expression, each word of which is an argument.
-/

namespace BugHunt.Utility

namespace Expr

/-- The operators with their ranks. -/
def operators : List (String × Nat) := [
  ("|", 1), ("&", 2), ("<", 3), ("<=", 3), ("=", 3), ("==", 3), ("!=", 3), (">=", 3), (">", 3),
  ("+", 4), ("-", 4), ("*", 5), ("/", 5), ("%", 5)]

inductive Trouble where
  | syntaxError
  | notInteger
  | divisionByZero
  deriving DecidableEq

def Trouble.message : Trouble → String
  | syntaxError => "syntax error"
  | notInteger => "non-integer argument"
  | divisionByZero => "division by zero"

def integer? (word : Bytes) : Option Int :=
  let (negative, digits) : Bool × Bytes := match word with
    | 0x2D :: rest => (true, rest)
    | rest => (false, rest)
  (decimal? digits).map fun n => if negative then -(n : Int) else n

def isNull (word : Bytes) : Bool := word.isEmpty || integer? word = some 0

def ofInt (n : Int) : Bytes := utf8 (toString n)

def ofBool (b : Bool) : Bytes := if b then utf8 "1" else utf8 "0"

def compare (sign : String) (a b : Bytes) : Bool :=
  let (less, same) := match integer? a, integer? b with
    | some x, some y => (decide (x < y), decide (x = y))
    | _, _ => (decide (a < b), decide (a = b))
  match sign with
  | "<" => less
  | "<=" => less || same
  | "!=" => !same
  | ">=" => !less
  | ">" => !less && !same
  | _ => same

def apply (sign : String) (a b : Bytes) : Except Trouble Bytes :=
  match sign with
  | "|" => .ok (if isNull a then (if isNull b then utf8 "0" else b) else a)
  | "&" => .ok (if isNull a || isNull b then utf8 "0" else a)
  | "+" | "-" | "*" | "/" | "%" =>
    match integer? a, integer? b with
    | some x, some y =>
      match sign with
      | "+" => .ok (ofInt (x + y))
      | "-" => .ok (ofInt (x - y))
      | "*" => .ok (ofInt (x * y))
      | "/" => if y = 0 then .error .divisionByZero else .ok (ofInt (Int.tdiv x y))
      | _ => if y = 0 then .error .divisionByZero else .ok (ofInt (Int.tmod x y))
    | _, _ => .error .notInteger
  | sign => .ok (ofBool (compare sign a b))

def operatorAt (rank : Nat) (words : List Bytes) : Option (String × Nat) :=
  words.head?.bind fun word =>
    operators.find? fun (sign, r) => utf8 sign = word && rank ≤ r

mutual

/-- The value of operators of at least a rank, and the words behind them. -/
def binary (rank : Nat) (words : List Bytes) : Nat → Except Trouble (Bytes × List Bytes)
  | 0 => .error .syntaxError
  | fuel + 1 => do
    let (first, rest) ← primary words fuel
    operations rank first rest fuel

def operations (rank : Nat) (value : Bytes) (words : List Bytes) :
    Nat → Except Trouble (Bytes × List Bytes)
  | 0 => .error .syntaxError
  | fuel + 1 =>
    match operatorAt rank words with
    | none => .ok (value, words)
    | some (sign, r) => do
      let (next, rest) ← binary (r + 1) (words.drop 1) fuel
      operations rank (← apply sign value next) rest fuel

def primary (words : List Bytes) : Nat → Except Trouble (Bytes × List Bytes)
  | 0 => .error .syntaxError
  | fuel + 1 =>
    match words with
    | [] => .error .syntaxError
    | word :: rest =>
      if word = utf8 "(" then do
        let (value, rest) ← binary 1 rest fuel
        match rest with
        | closing :: rest => if closing = utf8 ")" then .ok (value, rest) else .error .syntaxError
        | [] => .error .syntaxError
      else if word = utf8 "length" then
        match rest with
        | operand :: rest => .ok (ofInt operand.length, rest)
        | [] => .error .syntaxError
      else .ok (word, rest)

end

def evaluate (words : List Bytes) : Except Trouble Bytes := do
  match ← binary 1 words (words.length * 8 + 10) with
  | (value, []) => .ok value
  | _ => .error .syntaxError

end Expr

def expr : Applet := fun c => do
  match Expr.evaluate c.arguments with
  | .ok value =>
    let _ ← Proc.write 1 (value ++ [10])
    return if Expr.isNull value then 1 else 0
  | .error trouble =>
    complainText c.name trouble.message
    return 2

end BugHunt.Utility
