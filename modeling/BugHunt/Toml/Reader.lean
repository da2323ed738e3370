/-!
Reading a text from its front. A reader takes what it recognizes and leaves the rest, or fails
without having taken anything.
-/

namespace BugHunt.Toml

abbrev Reader := StateT (List Char) Option

namespace Reader

def atEnd : Reader Bool := return (← get).isEmpty

def peek? : Reader (Option Char) := return (← get).head?

def next : Reader Char := do
  match ← get with
  | [] => failure
  | c :: rest => set rest; return c

def check (b : Bool) : Reader Unit := if b then pure () else failure

def satisfying (p : Char → Bool) : Reader Char := do
  let c ← next
  check (p c)
  return c

def char (c : Char) : Reader Unit := do
  let _ ← satisfying (· = c)

/-- Takes a word if the text begins with it. -/
def word? (w : String) : Reader Bool := do
  let text ← get
  if w.toList.isPrefixOf text then set (text.drop w.length); return true else return false

def word (w : String) : Reader Unit := do check (← word? w)

def charsWhile (p : Char → Bool) : Reader (List Char) := do
  let text ← get
  set (text.dropWhile p)
  return text.takeWhile p

def skipWhile (p : Char → Bool) : Reader Unit := modify (·.dropWhile p)

/-- A number of `n` decimal digits. -/
def digits : Nat → Nat → Reader Nat
  | 0, value => return value
  | n + 1, value => do
    let c ← satisfying Char.isDigit
    digits n (value * 10 + (c.toNat - 48))

end Reader
end BugHunt.Toml
