import BugHunt.Shell.Grammar
/-!
Patterns for file names and texts. In a pattern each character says whether it is quoted; a quoted
character stands for itself.
-/

namespace BugHunt.Shell

/-- Characters, each with `true` if it is quoted. -/
abbrev Marked := List (Char × Bool)

/-- One item of a pattern. -/
inductive Item where
  | char (c : Char)
  | any
  | star
  | set (negated : Bool) (ranges : List (Char × Char))
  deriving Repr

namespace Pattern

/-- The characters of a named class, as ranges. -/
def classRanges : String → List (Char × Char)
  | "alpha" => [('a', 'z'), ('A', 'Z')]
  | "digit" => [('0', '9')]
  | "alnum" => [('a', 'z'), ('A', 'Z'), ('0', '9')]
  | "upper" => [('A', 'Z')]
  | "lower" => [('a', 'z')]
  | "space" => [(' ', ' '), ('\t', '\r')]
  | "blank" => [(' ', ' '), ('\t', '\t')]
  | "punct" => [('!', '/'), (':', '@'), ('[', '\x60'), ('\x7b', '~')]
  | "xdigit" => [('0', '9'), ('a', 'f'), ('A', 'F')]
  | _ => []

/-- The ranges of a set up to its closing bracket, and what follows it. -/
def ranges (first : Bool) (found : List (Char × Char)) :
    Marked → Nat → Option (List (Char × Char) × Marked)
  | _, 0 => none
  | [], _ => none
  | (']', false) :: rest, fuel + 1 =>
    if first then ranges false ((']', ']') :: found) rest fuel else some (found, rest)
  | ('[', false) :: (':', false) :: rest, fuel + 1 =>
    let name := rest.takeWhile fun d => d.1 ≠ ':'
    ranges false (classRanges (String.ofList (name.map (·.1))) ++ found)
      (rest.drop (name.length + 2)) fuel
  | (low, _) :: ('-', false) :: (high, quoted) :: rest, fuel + 1 =>
    if high = ']' && !quoted then
      ranges false ((low, low) :: found) (('-', true) :: (high, quoted) :: rest) fuel
    else ranges false ((low, high) :: found) rest fuel
  | (c, _) :: rest, fuel + 1 => ranges false ((c, c) :: found) rest fuel

/-- The items that marked characters stand for. A bracket that is never closed is a plain one. -/
def items : Marked → Nat → List Item
  | _, 0 => []
  | [], _ => []
  | ('*', false) :: rest, fuel + 1 => .star :: items rest fuel
  | ('?', false) :: rest, fuel + 1 => .any :: items rest fuel
  | ('[', false) :: rest, fuel + 1 =>
    let (negated, inner) := match rest with
      | ('!', false) :: inner => (true, inner)
      | ('^', false) :: inner => (true, inner)
      | inner => (false, inner)
    match ranges true [] inner (inner.length + 1) with
    | some (found, after) => .set negated found :: items after fuel
    | none => .char '[' :: items rest fuel
  | ('\\', false) :: (c, _) :: rest, fuel + 1 => .char c :: items rest fuel
  | (c, _) :: rest, fuel + 1 => .char c :: items rest fuel

def ofMarked (marked : Marked) : List Item := items marked (marked.length + 1)

def Item.accepts (c : Char) : Item → Bool
  | .char d => c = d
  | .any | .star => true
  | .set negated ranges => (ranges.any fun (low, high) => low ≤ c && c ≤ high) != negated

/-- Whether a whole text fits. -/
def fits : List Item → Text → Bool
  | [], text => text.isEmpty
  | .star :: items, text =>
    if items.isEmpty then true
    else if fits items text then true
    else match text with
      | [] => false
      | _ :: rest => fits (.star :: items) rest
  | item :: items, c :: rest => Item.accepts c item && fits items rest
  | _ :: _, [] => false
termination_by items text => (text.length, items.length)

def hasSpecial (marked : Marked) : Bool :=
  marked.any fun (c, quoted) => !quoted && (c = '*' || c = '?' || c = '[')

/-- How much of the front of a text a pattern takes away, shortest or longest. -/
def trimFront (items : List Item) (longest : Bool) (text : Text) : Text :=
  let lengths := List.range (text.length + 1)
  let lengths := if longest then lengths.reverse else lengths
  match lengths.find? fun n => fits items (text.take n) with
  | some n => text.drop n
  | none => text

def trimEnd (items : List Item) (longest : Bool) (text : Text) : Text :=
  let lengths := List.range (text.length + 1)
  let lengths := if longest then lengths else lengths.reverse
  match lengths.find? fun n => fits items (text.drop n) with
  | some n => text.take n
  | none => text

end Pattern
end BugHunt.Shell
