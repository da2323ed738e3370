import BugHunt.Toml.Number
/-!
TOML 1.0 documents: strings, keys, arrays, inline tables, and how the lines of a document build its
tables. A table may be defined once; dotted keys extend only tables that dotted keys made.
-/

namespace BugHunt.Toml

open Reader

def isBlank (c : Char) : Bool := c = ' ' || c = '\t'

/-- Whether a character may stand in a comment or a literal string. -/
def isPlain (c : Char) : Bool := c = '\t' || (' ' ≤ c && c != '\x7f')

def isBareKey (c : Char) : Bool := c.isAlphanum || c = '_' || c = '-'

def newline : Reader Unit := char '\n' <|> word "\r\n"

def blanks : Reader Unit := skipWhile isBlank

def comment : Reader Unit := do
  char '#'
  skipWhile isPlain

/-- Blanks and a comment up to the end of the line. -/
def lineEnd : Reader Unit := do
  blanks
  let _ ← optional comment
  if !(← atEnd) then newline

/-- Blanks, comments and line ends, at most `rounds` of them. -/
def filler : Nat → Reader Unit
  | 0 => pure ()
  | rounds + 1 => do
    blanks
    let _ ← optional comment
    if (← optional newline).isSome then filler rounds

/-- The character with the code point that `n` hexadecimal digits give. -/
def codePoint (n : Nat) : Reader Char := do
  let text ← get
  let ds := (text.take n).filterMap (digitValue? 16)
  check (ds.length = n)
  set (text.drop n)
  let value := ofDigits 16 ds
  check (value < 0xD800 || (0xE000 ≤ value && value < 0x110000))
  return Char.ofNat value

/-- What follows a backslash. -/
def escaped : Reader Char := do
  match ← next with
  | 'b' => return '\x08'
  | 't' => return '\t'
  | 'n' => return '\n'
  | 'f' => return '\x0c'
  | 'r' => return '\r'
  | '\x22' => return '\x22'
  | '\\' => return '\\'
  | 'u' => codePoint 4
  | 'U' => codePoint 8
  | _ => failure

/-- The rest of a basic string, `done` being its beginning, last character first. -/
def basicRest (done : List Char) : Nat → Reader String
  | 0 => failure
  | rounds + 1 => do
    let c ← next
    if c = '\x22' then return String.ofList done.reverse
    else if c = '\\' then basicRest ((← escaped) :: done) rounds
    else do
      check (isPlain c)
      basicRest (c :: done) rounds

/-- How many of the character stand at the front. -/
def countFront (c : Char) : Reader Nat := return ((← get).takeWhile (· = c)).length

/-- The rest of a string over several lines. Up to two quotes may stand before its end. -/
def longRest (quote : Char) (escapes : Bool) (done : List Char) : Nat → Reader String
  | 0 => failure
  | rounds + 1 => do
    let quotes ← countFront quote
    if 0 < quotes then
      let kept := if quotes < 3 then quotes else min (quotes - 3) 2
      let done := List.replicate kept quote ++ done
      if quotes < 3 then
        modify (·.drop quotes)
        longRest quote escapes done rounds
      else
        modify (·.drop (kept + 3))
        return String.ofList done.reverse
    else if (← optional newline).isSome then longRest quote escapes ('\n' :: done) rounds
    else
      let c ← next
      if c = '\\' && escapes then
        let toLineEnd : Reader Unit := do
          blanks
          newline
          skipLines rounds
        if (← optional toLineEnd).isSome then longRest quote escapes done rounds
        else longRest quote escapes ((← escaped) :: done) rounds
      else do
        check (isPlain c)
        longRest quote escapes (c :: done) rounds
where
  skipLines : Nat → Reader Unit
  | 0 => pure ()
  | rounds + 1 => do
    blanks
    if (← optional newline).isSome then skipLines rounds

def literalRest : Reader String := do
  let text ← charsWhile fun c => c != '\'' && isPlain c
  char '\''
  return String.ofList text

def string (rounds : Nat) : Reader String := do
  if ← word? "\x22\x22\x22" then
    let _ ← optional newline
    longRest '\x22' true [] rounds
  else if ← word? "'''" then
    let _ ← optional newline
    longRest '\'' false [] rounds
  else if ← word? "'" then literalRest
  else do
    char '\x22'
    basicRest [] rounds

def simpleKey (rounds : Nat) : Reader String := do
  match ← peek? with
  | some '\x22' => char '\x22'; basicRest [] rounds
  | some '\'' => char '\''; literalRest
  | _ =>
    let text ← charsWhile isBareKey
    check (!text.isEmpty)
    return String.ofList text

/-- How deep values may nest and how long dotted keys may be. -/
def depthLimit : Nat := 80

/-- A dotted key: the keys on the way and the last one. -/
def keyParts (done : List String) : Nat → Reader (List String)
  | 0 => failure
  | rounds + 1 => do
    blanks
    let key ← simpleKey rounds
    blanks
    if ← word? "." then keyParts (key :: done) rounds
    else
      check (done.length + 1 < depthLimit)
      return (key :: done).reverse

/-- A table as it grows: whether it has been defined by no header of its own, and whether dotted
keys made it. -/
inductive Item where
  | value (v : Value)
  | table (implicitly dotted : Bool) (entries : List (String × Item))
  | tables (items : List Item)
  deriving Inhabited

mutual

def Item.toValue : Item → Value
  | .value v => v
  | .table _ _ entries => .table (entriesValue entries)
  | .tables items => .array (itemsValue items)

def entriesValue : List (String × Item) → List (String × Value)
  | [] => []
  | (key, item) :: rest => (key, item.toValue) :: entriesValue rest

def itemsValue : List Item → List Value
  | [] => []
  | item :: rest => item.toValue :: itemsValue rest

end

def setEntry (entries : List (String × Item)) (key : String) (item : Item) :
    List (String × Item) :=
  entries.map fun entry => if entry.1 = key then (key, item) else entry

/-- Changes the table that a path leads to, making the tables on the way that are missing. With
`dotted`, only tables without a header of their own may lie on the way. -/
def Item.update (dotted : Bool) (change : Item → Option (α × Item)) :
    List String → Item → Option (α × Item)
  | [], item => change item
  | key :: path, .table implicitly wasDotted entries =>
    match entries.lookup key with
    | none => do
      let (result, child) ← update dotted change path (.table true dotted [])
      return (result, .table implicitly wasDotted (entries ++ [(key, child)]))
    | some (.value _) => none
    | some (.tables items) => do
      let last ← items.getLast?
      let (result, last) ← update dotted change path last
      return (result,
        .table implicitly wasDotted (setEntry entries key (.tables (items.dropLast ++ [last]))))
    | some (.table childImplicitly childDotted children) => do
      if dotted && !childImplicitly then none
      let (result, child) ←
        update dotted change path (.table childImplicitly childDotted children)
      return (result, .table implicitly wasDotted (setEntry entries key child))
  | _ :: _, _ => none

/-- Adds a key to a table that was made the way `path`, which leads to it, asks for. -/
def Item.insertNew (path : List String) (key : String) (value : Value) :
    Item → Option (Unit × Item)
  | .table implicitly dotted entries =>
    if dotted = path.isEmpty || (entries.lookup key).isSome then none
    else some ((), .table implicitly dotted (entries ++ [(key, .value value)]))
  | _ => none

/-- Adds a dotted key below a table. -/
def Item.insert (item : Item) (keys : List String) (value : Value) : Option Item := do
  let key ← keys.getLast?
  let path := keys.dropLast
  return (← item.update true (insertNew path key value) path).2

mutual

/-- A value that lies `depth` levels deep. -/
def value (depth : Nat) : Nat → Reader Value
  | 0 => failure
  | rounds + 1 => do
    match ← peek? with
    | some '\x22' | some '\'' => return .string (← string rounds)
    | some '[' =>
      check (depth + 1 < depthLimit)
      char '['
      filler rounds
      if ← word? "]" then return .array []
      return .array (← arrayRest (depth + 1) [] rounds)
    | some '\x7b' =>
      check (depth + 1 < depthLimit)
      char '\x7b'
      blanks
      if ← word? "\x7d" then return .table []
      let item ← inlineRest (depth + 1) (.table false false []) rounds
      return item.toValue
    | some 't' => word "true"; return .boolean true
    | some 'f' => word "false"; return .boolean false
    | some _ => number
    | none => failure

/-- The rest of an array from an item on. -/
def arrayRest (depth : Nat) (done : List Value) : Nat → Reader (List Value)
  | 0 => failure
  | rounds + 1 => do
    let item ← value depth rounds
    filler rounds
    if ← word? "," then
      filler rounds
      if ← word? "]" then return (item :: done).reverse
      arrayRest depth (item :: done) rounds
    else
      char ']'
      return (item :: done).reverse

/-- The rest of an inline table from a key on. No comma may stand before its end. -/
def inlineRest (depth : Nat) (item : Item) : Nat → Reader Item
  | 0 => failure
  | rounds + 1 => do
    let keys ← keyParts [] rounds
    char '='
    blanks
    let v ← value depth rounds
    blanks
    let item ← StateT.lift (item.insert keys v)
    if ← word? "," then inlineRest depth item rounds
    else
      char '\x7d'
      return item

end

/-- The tables read so far, and the one that lines are being added to. -/
structure Building where
  root : Item
  path : List String
  isArray : Bool
  current : Item

namespace Building

def start : Building := ⟨.table false false [], [], false, .table false false []⟩

/-- Puts the current table into its place below the root. -/
def finish (b : Building) : Option Item :=
  match b.path.getLast? with
  | none => some b.current
  | some key =>
    let place : Item → Option (Unit × Item)
      | .table implicitly dotted entries =>
        match entries.lookup key, b.isArray with
        | none, true =>
          some ((), .table implicitly dotted (entries ++ [(key, .tables [b.current])]))
        | some (.tables items), true =>
          let items := .tables (items ++ [b.current])
          some ((), .table implicitly dotted (setEntry entries key items))
        | none, false => some ((), .table implicitly dotted (entries ++ [(key, b.current)]))
        | some (.table true _ _), false =>
          some ((), .table implicitly dotted (setEntry entries key b.current))
        | _, _ => none
      | _ => none
    (·.2) <$> b.root.update false place b.path.dropLast

/-- Begins the table of a header. A table that exists only for its children's sake is taken up. -/
def startTable (b : Building) (path : List String) : Option Building := do
  let root ← b.finish
  let key ← path.getLast?
  let take : Item → Option (Item × Item)
    | .table implicitly dotted entries =>
      match entries.lookup key with
      | none => some (.table false false [], .table implicitly dotted entries)
      | some (.table true false children) =>
        some (.table false false children,
          .table implicitly dotted (entries.filter fun entry => entry.1 != key))
      | _ => none
    | _ => none
  let (current, root) ← root.update false take path.dropLast
  return ⟨root, path, false, current⟩

/-- Begins one more table of an array of tables. -/
def startArrayTable (b : Building) (path : List String) : Option Building := do
  let root ← b.finish
  let key ← path.getLast?
  let look : Item → Option (Unit × Item)
    | .table implicitly dotted entries =>
      match entries.lookup key with
      | none => some ((), .table implicitly dotted (entries ++ [(key, .tables [])]))
      | some (.tables items) =>
        some ((), .table implicitly dotted (setEntry entries key (.tables items)))
      | _ => none
    | _ => none
  let ((), root) ← root.update false look path.dropLast
  return ⟨root, path, true, .table false false []⟩

end Building

/-- The lines of a document from here on. -/
def lines (b : Building) : Nat → Reader Building
  | 0 => failure
  | rounds + 1 => do
    blanks
    match ← peek? with
    | none => return b
    | some '#' => lineEnd; lines b rounds
    | some '\n' | some '\r' => newline; lines b rounds
    | some '[' =>
      char '['
      let isArray ← word? "["
      let path ← keyParts [] rounds
      word (if isArray then "]]" else "]")
      lineEnd
      let b ← StateT.lift (if isArray then b.startArrayTable path else b.startTable path)
      lines b rounds
    | some _ =>
      let keys ← keyParts [] rounds
      char '='
      blanks
      let v ← value 0 rounds
      lineEnd
      let current ← StateT.lift (b.current.insert keys v)
      lines { b with current } rounds

/-- The entries of the document's root table, in the order in which they were defined. -/
def parse? (text : String) : Option (List (String × Value)) := do
  let chars := text.toList
  let chars := if chars.head? = some '\uFEFF' then chars.drop 1 else chars
  let (b, _) ← lines .start (chars.length + 1) chars
  match (← b.finish).toValue with
  | .table entries => some entries
  | _ => none

end BugHunt.Toml
