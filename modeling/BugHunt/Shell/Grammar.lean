/-!
Scripts of the shell. A character stands for one byte.
-/

namespace BugHunt.Shell

abbrev Text := List Char

/-- What a redirection does with its word. -/
inductive RedirectionKind where
  | input
  | output
  /-- Output to a file that may be there already, whatever the options say. -/
  | overwrite
  | append
  | update
  | duplicate
  | document
  deriving DecidableEq, Repr

/-- When the word of an expansion stands in for a parameter's value. -/
inductive Fallback where
  | default
  | assign
  | error
  | alternative
  deriving DecidableEq, Repr

mutual

/-- A part of a word. -/
inductive Part where
  | text (chars : Text) (quoted : Bool)
  | parameter (name : String) (change : Change) (quoted : Bool)
  | substitution (body : List Entry) (quoted : Bool)
  | arithmetic (expression : List Part) (quoted : Bool)

/-- What an expansion makes of a parameter's value. -/
inductive Change where
  | none
  | length
  | fallback (kind : Fallback) (orEmpty : Bool) (word : List Part)
  | trim (atEnd longest : Bool) (pattern : List Part)
  /-- No expansion at all; that is noticed only when it is to be carried out. -/
  | bad

inductive Redirection where
  | mk (descriptor : Nat) (kind : RedirectionKind) (word : List Part)

inductive Command where
  | simple (line : Nat) (assignments : List (String × List Part)) (words : List (List Part))
    (redirections : List Redirection)
  | subshell (body : List Entry) (redirections : List Redirection)
  | group (body : List Entry) (redirections : List Redirection)
  | conditional (branches : List (List Entry × List Entry)) (otherwise : List Entry)
    (redirections : List Redirection)
  | loop (whileTrue : Bool) (condition body : List Entry) (redirections : List Redirection)
  | each (name : String) (words : Option (List (List Part))) (body : List Entry)
    (redirections : List Redirection)
  | choice (word : List Part) (arms : List (List (List Part) × List Entry))
    (redirections : List Redirection)
  | define (name : String) (body : Command)
  /-- A command of many parts, with the line that it begins on. -/
  | onLine (line : Nat) (command : Command)

inductive Pipeline where
  | mk (negated : Bool) (commands : List Command)

/-- Pipelines joined by "and" or by "or", with `true` for an "and". -/
inductive Entry where
  | mk (first : Pipeline) (rest : List (Bool × Pipeline)) (background : Bool)

end

abbrev Word := List Part

instance : Inhabited Command := ⟨.simple 0 [] [] []⟩

/-- Characters that end a word. -/
def isMeta (c : Char) : Bool :=
  c = ' ' || c = '\t' || c = '\n' || c = ';' || c = '&' || c = '|' || c = '<' || c = '>'
    || c = '(' || c = ')'

def isNameStart (c : Char) : Bool :=
  ('a' ≤ c && c ≤ 'z') || ('A' ≤ c && c ≤ 'Z') || c = '_'

def isDigit (c : Char) : Bool := '0' ≤ c && c ≤ '9'

def isNamePart (c : Char) : Bool := isNameStart c || isDigit c

def isName (text : Text) : Bool :=
  match text with
  | [] => false
  | c :: rest => isNameStart c && rest.all isNamePart

/-- Parameters whose names are one sign. -/
def isSpecial (c : Char) : Bool :=
  c = '@' || c = '*' || c = '#' || c = '?' || c = '-' || c = '$' || c = '!'

/-- Words that begin, join or end commands. -/
def reserved : List String :=
  ["if", "then", "else", "elif", "fi", "while", "until", "for", "do", "done", "case", "esac",
    "in", "\x7b", "\x7d", "!"]

/-- The reserved words that a list of commands ends before. -/
def closing : List String :=
  ["then", "else", "elif", "fi", "do", "done", "esac", "\x7d"]

end BugHunt.Shell
