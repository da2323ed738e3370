import BugHunt.Shell.State
/-!
Conditions on files, texts and numbers, as commands test them.
-/

namespace BugHunt.Shell.Condition

/-- What is wrong with a condition. -/
abbrev Complaint := Text

abbrev Testing := ExceptT Complaint Proc

def pathOf (text : Text) : Path := ⟨Bytes.ofLatin text⟩

def node? (followLast : Bool) (text : Text) : Testing (Option Node) :=
  ExceptT.lift do
    return (← Proc.look (pathOf text) followLast).toOption

def isLink : Node → Bool
  | .link _ => true
  | _ => false

def isSink : Node → Bool
  | .sink => true
  | _ => false

def hasSize : Node → Bool
  | .file content _ => !content.isEmpty
  | .directory | .locked => true
  | _ => false

def canExecute : Node → Bool
  | .file _ executable => executable
  | .directory | .locked => true
  | _ => false

/-- What a word of a condition can be. -/
inductive Token where
  | done
  | operand
  | unary (operator : Char)
  | binary (operator : String)
  | not
  | and
  | or
  | opening
  | closing
  deriving DecidableEq

def isUnary (t : Text) : Bool :=
  match t with
  | ['-', c] => "rwxefdcbpugksthnzLSOG".toList.contains c
  | _ => false

def binaryOperators : List String :=
  ["=", "!=", "<", ">", "-eq", "-ne", "-gt", "-ge", "-lt", "-le", "-nt", "-ot", "-ef"]

def isBinary (t : Text) : Bool := binaryOperators.any fun name => name.toList = t

/-- What the first word is. It is no operator where that would leave it without operands. -/
def token (words : List Text) : Token :=
  match words with
  | [] => .done
  | ['!'] :: _ => .not
  | ['-', 'a'] :: _ => .and
  | ['-', 'o'] :: _ => .or
  | [')'] :: _ => .closing
  | ['('] :: rest => if rest.isEmpty then .operand else .opening
  | word :: rest =>
    if isBinary word then .binary (String.ofList word)
    else if isUnary word then
      match rest with
      | [] => .operand
      | [_] => .unary (word.getLastD ' ')
      | next :: _ => if isBinary next then .operand else .unary (word.getLastD ' ')
    else .operand

def number (t : Text) : Testing Int :=
  match Arithmetic.ofDecimal? t with
  | some n => return n
  | none => throw ("Illegal number: ".toList ++ t)

def unary (operator : Char) (operand : Text) : Testing Bool := do
  match operator with
  | 'n' => return !operand.isEmpty
  | 'z' => return operand.isEmpty
  | 't' => do
    let _ ← number operand
    return false
  | 'h' | 'L' => return (← node? false operand).any isLink
  | 'e' => return (← node? true operand).isSome
  | 'f' => return (← node? true operand).any Node.isFile
  | 'd' => return (← node? true operand).any Node.isDirectory
  | 'c' => return (← node? true operand).any isSink
  | 's' => return (← node? true operand).any hasSize
  | 'r' | 'w' | 'O' | 'G' => return (← node? true operand).isSome
  | 'x' => return (← node? true operand).any canExecute
  | _ => return false

def binary (operator : String) (a b : Text) : Testing Bool := do
  match operator with
  | "=" => return a = b
  | "!=" => return a ≠ b
  | "<" => return decide (a < b)
  | ">" => return decide (b < a)
  | "-eq" => return (← number a) = (← number b)
  | "-ne" => return (← number a) ≠ (← number b)
  | "-gt" => return decide ((← number b) < (← number a))
  | "-ge" => return decide ((← number b) ≤ (← number a))
  | "-lt" => return decide ((← number a) < (← number b))
  | "-le" => return decide ((← number a) ≤ (← number b))
  | "-ef" => return (← node? true a).isSome && a = b
  | _ => return false

mutual

/-- Tests alternatives. `t` tells what the first word is; the answer has the words from the last one
on that was used. -/
def alternatives (t : Token) (words : List Text) : Nat → Testing (Bool × List Text)
  | 0 => throw []
  | fuel + 1 => do
    let (first, words) ← conjunction t words fuel
    if token (words.drop 1) = .or then
      let words := words.drop 2
      let (second, words) ← alternatives (token words) words fuel
      return (first || second, words)
    else return (first, words)
termination_by structural fuel => fuel

def conjunction (t : Token) (words : List Text) : Nat → Testing (Bool × List Text)
  | 0 => throw []
  | fuel + 1 => do
    let (first, words) ← negation t words fuel
    if token (words.drop 1) = .and then
      let words := words.drop 2
      let (second, words) ← conjunction (token words) words fuel
      return (first && second, words)
    else return (first, words)
termination_by structural fuel => fuel

def negation (t : Token) (words : List Text) : Nat → Testing (Bool × List Text)
  | 0 => throw []
  | fuel + 1 => do
    if t = .not then
      let next := token (words.drop 1)
      let (value, words) ← negation next (if next = .done then words else words.drop 1) fuel
      return (!value, words)
    else primary t words fuel
termination_by structural fuel => fuel

/-- Tests what no operator joins. An expression that is missing does not hold. -/
def primary (t : Token) (words : List Text) : Nat → Testing (Bool × List Text)
  | 0 => throw []
  | fuel + 1 => do
    match t with
    | .done => return (false, words)
    | .opening =>
      let words := words.drop 1
      if token words = .closing then return (false, words)
      let (value, words) ← alternatives (token words) words fuel
      let words := words.drop 1
      if token words ≠ .closing then throw "closing paren expected".toList
      return (value, words)
    | .unary operator =>
      match words.drop 1 with
      | [] => throw (['-', operator] ++ ": argument expected".toList)
      | operand :: rest => return (← unary operator operand, operand :: rest)
    | _ =>
      match token (words.drop 1), words.drop 2 with
      | .binary operator, [] => throw (operator.toList ++ ": argument expected".toList)
      | .binary operator, second :: rest =>
        return (← binary operator (words.headD []) second, second :: rest)
      | _, _ => return (!(words.headD []).isEmpty, words)
termination_by structural fuel => fuel

end

/-- What an expression of all the words comes to. -/
def whole (t : Token) (words : List Text) : Testing Bool := do
  let (value, left) ← alternatives t words (words.length * 6 + 10)
  match left with
  | word :: _ :: _ =>
    let named := if word.isEmpty then [] else word ++ [':', ' ']
    throw (named ++ "unexpected operator".toList)
  | _ => return value

/-- Reads a short condition from its outside: three words with a binary operator in the middle are
always an operation; else a negation before at most three words, and brackets around at most two,
are taken off. The answer tells whether the rest is negated, and what its first word is. -/
def outermost (negated : Bool) (words : List Text) : Bool × Token × List Text :=
  if words.length = 3 && isBinary (words.getD 1 []) then (negated, .operand, words)
  else if words.length = 3 || words.length = 4 then
    match words with
    | ['!'] :: rest => outermost true rest
    | ['('] :: rest =>
      if rest.getLast? = some [')'] then (negated, token rest.dropLast, rest.dropLast)
      else (negated, .opening, words)
    | words => (negated, token words, words)
  else (negated, token words, words)

/-- Whether the words hold, or what is wrong with them. -/
def test (words : List Text) : Proc (Except Complaint Bool) :=
  ExceptT.run do
    if words.isEmpty then return false
    let (negated, first, words) := outermost false words
    return (← whole first words) != negated

end BugHunt.Shell.Condition
