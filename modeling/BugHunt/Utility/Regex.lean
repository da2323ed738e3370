import BugHunt.Shell.Pattern
/-!
Regular expressions, basic and extended, and where they match in a line.
-/

namespace BugHunt.Utility

open Shell (Text)

inductive Regex where
  | empty
  | char (c : Char)
  | any
  | set (negated : Bool) (ranges : List (Char × Char))
  | sequence (first second : Regex)
  | choice (first second : Regex)
  | loop (least : Nat) (most : Option Nat) (body : Regex)
  | group (number : Nat) (body : Regex)
  | lineStart
  | lineEnd
  | again (number : Nat)
  deriving Repr, Inhabited

namespace Regex

/-- Which grammar, and how letters compare. -/
structure Dialect where
  extended : Bool
  ignoreCase : Bool
  deriving Repr

/-- The rest of an expression, and how many groups were opened before it. -/
structure Left where
  rest : Text
  groups : Nat

def digits (text : Text) : Option Nat × Text :=
  let ds := text.takeWhile Char.isDigit
  (if ds.isEmpty then none else some (ds.foldl (fun n c => 10 * n + (c.toNat - 48)) 0),
    text.drop ds.length)

/-- The bounds of a repetition, up to the closing sign. -/
def bounds (d : Dialect) (text : Text) : Option ((Nat × Option Nat) × Text) :=
  let (low, rest) := digits text
  let (high, rest) : Option Nat × Text := match rest with
    | ',' :: rest => digits rest
    | rest => (low, rest)
  let rest? : Option Text := match d.extended, rest with
    | true, '\x7d' :: rest => some rest
    | false, '\\' :: '\x7d' :: rest => some rest
    | _, _ => none
  rest?.map fun rest => ((low.getD 0, high), rest)

/-- The repetition at the front of a text, if there is one. -/
def repetition? (d : Dialect) (text : Text) : Option ((Nat × Option Nat) × Text) :=
  match text with
  | '*' :: rest => some ((0, none), rest)
  | '+' :: rest => if d.extended then some ((1, none), rest) else none
  | '?' :: rest => if d.extended then some ((0, some 1), rest) else none
  | '\\' :: '+' :: rest => if d.extended then none else some ((1, none), rest)
  | '\\' :: '?' :: rest => if d.extended then none else some ((0, some 1), rest)
  | '\x7b' :: rest => if d.extended then bounds d rest else none
  | '\\' :: '\x7b' :: rest => if d.extended then none else bounds d rest
  | _ => none

def repeated (d : Dialect) (body : Regex) (left : Left) : Nat → Regex × Left
  | 0 => (body, left)
  | fuel + 1 =>
    match repetition? d left.rest with
    | some ((least, most), rest) => repeated d (.loop least most body) { left with rest } fuel
    | none => (body, left)

def isChoice (d : Dialect) (text : Text) : Option Text :=
  match d.extended, text with
  | true, '|' :: rest => some rest
  | false, '\\' :: '|' :: rest => some rest
  | _, _ => none

def isClose (d : Dialect) (text : Text) : Option Text :=
  match d.extended, text with
  | true, ')' :: rest => some rest
  | false, '\\' :: ')' :: rest => some rest
  | _, _ => none

mutual

/-- Reads alternatives. -/
def alternatives (d : Dialect) (left : Left) : Nat → Regex × Left
  | 0 => (.empty, left)
  | fuel + 1 =>
    let (first, left) := sequenceOf d .empty true left fuel
    match isChoice d left.rest with
    | some rest =>
      let (second, left) := alternatives d { left with rest } fuel
      (.choice first second, left)
    | none => (first, left)
termination_by structural fuel => fuel

/-- Reads what follows one another. -/
def sequenceOf (d : Dialect) (done : Regex) (atStart : Bool) (left : Left) : Nat → Regex × Left
  | 0 => (done, left)
  | fuel + 1 =>
    if left.rest.isEmpty || (isChoice d left.rest).isSome
        || (left.groups ≠ 0 && (isClose d left.rest).isSome) then (done, left)
    else
      let (atom, left) := atom d atStart left fuel
      let (atom, left) := match atom with
        | .lineStart => (atom, left)
        | atom => repeated d atom left fuel
      sequenceOf d (.sequence done atom) (atom matches .lineStart) left fuel
termination_by structural fuel => fuel

def atom (d : Dialect) (atStart : Bool) (left : Left) : Nat → Regex × Left
  | 0 => (.empty, left)
  | fuel + 1 =>
    let inGroup (rest : Text) : Regex × Left :=
      let number := left.groups + 1
      let (body, left) := alternatives d ⟨rest, number⟩ fuel
      match isClose d left.rest with
      | some rest => (.group number body, { left with rest })
      | none => (.group number body, left)
    match left.rest with
    | [] => (.empty, left)
    | '.' :: rest => (.any, { left with rest })
    | '^' :: rest =>
      if atStart || d.extended then (.lineStart, { left with rest })
      else (.char '^', { left with rest })
    | '$' :: rest =>
      if rest.isEmpty || d.extended || (isClose d rest).isSome || (isChoice d rest).isSome then
        (.lineEnd, { left with rest })
      else (.char '$', { left with rest })
    | '[' :: rest =>
      let (negated, inner) := match rest with
        | '^' :: inner => (true, inner)
        | inner => (false, inner)
      match Shell.Pattern.ranges true [] (inner.map (·, false)) (inner.length + 1) with
      | some (found, after) => (.set negated found, { left with rest := after.map (·.1) })
      | none => (.char '[', { left with rest })
    | '(' :: rest => if d.extended then inGroup rest else (.char '(', { left with rest })
    | '\\' :: '(' :: rest => if d.extended then (.char '(', { left with rest }) else inGroup rest
    | '\\' :: 'n' :: rest => (.char '\n', { left with rest })
    | '\\' :: 't' :: rest => (.char '\t', { left with rest })
    | '\\' :: c :: rest =>
      if '1' ≤ c && c ≤ '9' then (.again (c.toNat - 48), { left with rest })
      else (.char c, { left with rest })
    | c :: rest => (.char c, { left with rest })
termination_by structural fuel => fuel

end

/-- The expression that a text stands for. -/
def ofText (d : Dialect) (text : Text) : Regex :=
  (alternatives d ⟨text, 0⟩ (text.length * 4 + 20)).1

/-- Where groups begin and end. -/
abbrev Groups := List (Nat × (Nat × Nat))

def sameLetter (d : Dialect) (a b : Char) : Bool :=
  a = b || (d.ignoreCase && a.toLower = b.toLower)

def inRanges (d : Dialect) (ranges : List (Char × Char)) (c : Char) : Bool :=
  let within (c : Char) : Bool := ranges.any fun (low, high) => low ≤ c && c ≤ high
  within c || (d.ignoreCase && (within c.toLower || within c.toUpper))

/-- Matches from a position on; `next` goes on with what follows. Greedy loops are tried first. -/
def matchAt (d : Dialect) (letters : Array Char) (r : Regex) (here : Nat) (groups : Groups)
    (next : Nat → Groups → Option (Nat × Groups)) : Nat → Option (Nat × Groups)
  | 0 => none
  | fuel + 1 =>
    match r with
    | .empty => next here groups
    | .char c =>
      match letters[here]? with
      | some x => if sameLetter d c x then next (here + 1) groups else none
      | none => none
    | .any => if here < letters.size then next (here + 1) groups else none
    | .set negated ranges =>
      match letters[here]? with
      | some x => if inRanges d ranges x != negated then next (here + 1) groups else none
      | none => none
    | .sequence a b =>
      matchAt d letters a here groups (fun i gs => matchAt d letters b i gs next fuel) fuel
    | .choice a b =>
      (matchAt d letters a here groups next fuel).or (matchAt d letters b here groups next fuel)
    | .loop least most body =>
      let more := if most = some 0 then none else
        matchAt d letters body here groups (fun i gs =>
          if i = here && least = 0 then none
          else matchAt d letters (.loop (least - 1) (most.map (· - 1)) body) i gs next fuel) fuel
      match more with
      | some found => some found
      | none => if least = 0 then next here groups else none
    | .group n body =>
      matchAt d letters body here groups (fun i gs => next i ((n, (here, i)) :: gs)) fuel
    | .lineStart => if here = 0 then next here groups else none
    | .lineEnd => if here = letters.size then next here groups else none
    | .again n =>
      match groups.lookup n with
      | none => none
      | some (low, high) =>
        let length := high - low
        let again := letters.extract here (here + length)
        if letters.extract low high = again && here + length ≤ letters.size then
          next (here + length) groups
        else none

/-- The first match at or after a position: where it begins and ends, and its groups. -/
def search (d : Dialect) (r : Regex) (letters : Array Char) (start : Nat) :
    Option (Nat × Nat × Groups) :=
  (List.range' start (letters.size + 1 - start)).findSome? fun i =>
    (matchAt d letters r i [] (fun j gs => some (j, gs)) (letters.size * 4 + 2000)).map
      fun (j, gs) => (i, j, gs)

end Regex
end BugHunt.Utility
