import BugHunt.Bytes
/-!
JSON text (RFC 8259): values with null, whole numbers, strings and objects, printed over several
lines with two blanks for each level.
-/

namespace BugHunt

inductive Json where
  | null
  | number (n : Int)
  | string (text : String)
  | object (entries : List (String × Json))
  deriving Repr, Inhabited

namespace Json

/-- A character as it stands in a string. -/
def escapeChar (c : Char) : List Char :=
  if c = '\x22' then ['\\', '\x22']
  else if c = '\\' then ['\\', '\\']
  else if c = '\x08' then ['\\', 'b']
  else if c = '\t' then ['\\', 't']
  else if c = '\n' then ['\\', 'n']
  else if c = '\x0c' then ['\\', 'f']
  else if c = '\r' then ['\\', 'r']
  else if c < ' ' then
    ['\\', 'u', '0', '0', Bytes.hexDigit (c.toNat / 16), Bytes.hexDigit (c.toNat % 16)]
  else [c]

def quote (text : String) : List Char :=
  '\x22' :: text.toList.flatMap escapeChar ++ ['\x22']

def indentation (depth : Nat) : List Char := '\n' :: List.replicate (2 * depth) ' '

mutual

/-- The text of a value that stands `depth` levels deep. -/
def print (depth : Nat) : Json → List Char
  | null => "null".toList
  | number n => (toString n).toList
  | string text => quote text
  | object [] => ['\x7b', '\x7d']
  | object (entry :: entries) =>
    '\x7b' :: printEntry (depth + 1) entry ++ printEntries (depth + 1) entries
      ++ indentation depth ++ ['\x7d']

def printEntry (depth : Nat) : String × Json → List Char
  | (key, value) => indentation depth ++ quote key ++ [':', ' '] ++ print depth value

def printEntries (depth : Nat) : List (String × Json) → List Char
  | [] => []
  | entry :: entries => ',' :: printEntry depth entry ++ printEntries depth entries

end

/-- The text of a value, without a line end after it. -/
def pretty (value : Json) : String := String.ofList (value.print 0)

end Json
end BugHunt
