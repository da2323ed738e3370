import BugHunt.Shell.Grammar
/-!
Reading scripts. A script is read one line of commands at a time, so that what stands before an
error is still run.
-/

namespace BugHunt.Shell

/-- What keeps a script from being read, and where. -/
structure Fault where
  line : Nat
  message : String
  deriving DecidableEq, Repr

/-- What is left of a script. -/
structure Source where
  rest : Text
  line : Nat

abbrev Reader := StateT Source (Except Fault)

/-- Where the parts of a word end. -/
inductive Stop where
  | word
  | quote
  | brace
  | arithmetic (depth : Nat)
  | never
  deriving DecidableEq

namespace Reader

def fault (message : String) : Reader α := do
  throw ⟨(← get).line, s!"Syntax error: {message}"⟩

def peek : Reader (Option Char) := return (← get).rest.head?

def startsWith (text : String) : Reader Bool := return text.toList.isPrefixOf (← get).rest

/-- Drops characters. -/
def drop (count : Nat) : Reader Unit :=
  modify fun s =>
    ⟨s.rest.drop count, s.line + (s.rest.take count).countP (· = '\n')⟩

def takeWhile (accepts : Char → Bool) : Reader Text := do
  let found := (← get).rest.takeWhile accepts
  drop found.length
  return found

/-- The blanks, joined lines and comments at the front of a text. -/
def blankLength : Text → Nat
  | ' ' :: rest => blankLength rest + 1
  | '\t' :: rest => blankLength rest + 1
  | '\\' :: '\n' :: rest => blankLength rest + 2
  | '#' :: rest => 1 + (rest.takeWhile (· ≠ '\n')).length
  | _ => 0

def skipBlanks : Reader Unit := do drop (blankLength (← get).rest)

/-- Whether the end of a line, or of the script, comes next. -/
def skipNewlines : Nat → Reader Unit
  | 0 => return ()
  | fuel + 1 => do
    skipBlanks
    if (← peek) = some '\n' then
      drop 1
      skipNewlines fuel

/-- The next word, if it has no quotes and no expansions. -/
def peekPlain : Reader String := do
  let rest := (← get).rest
  let plain := rest.takeWhile fun c =>
    !isMeta c && c ≠ '\\' && c ≠ '\x22' && c ≠ '\x27' && c ≠ '$' && c ≠ '\x60'
  match rest.drop plain.length with
  | [] => return String.ofList plain
  | c :: _ => return if isMeta c then String.ofList plain else ""

/-- What stands at the front, as it is named in a complaint. -/
def here : Reader String := do
  match (← get).rest with
  | [] => return "end of file unexpected"
  | '\n' :: _ => return "newline unexpected"
  | c :: rest =>
    let number := (c :: rest).takeWhile isDigit
    let sign := ((c :: rest).drop number.length).head?
    if sign = some '<' || sign = some '>' then return "redirection unexpected"
    else if isMeta c then
      let sign := if rest.head? = some c then [c, c] else [c]
      return s!"\x22{String.ofList sign}\x22 unexpected"
    else
      let word := ← peekPlain
      return if reserved.contains word then s!"\x22{word}\x22 unexpected" else "word unexpected"

/-- Complains about what stands at the front; the end of a line counts as read by then. -/
def unexpectedWith (more : String) : Reader α := do
  let found ← here
  if (← peek) = some '\n' then drop 1
  fault (found ++ more)

def unexpected : Reader α := unexpectedWith ""

def expecting (what : String) : Reader α := unexpectedWith s!" (expecting \x22{what}\x22)"

/-- Takes a reserved word that must come next. -/
def require (word : String) : Reader Unit := do
  skipBlanks
  if (← peekPlain) = word then drop word.length else expecting word

/-- Puts a character into the parts of a word, last first. -/
def addChar (c : Char) (quoted : Bool) : List Part → List Part
  | .text chars q :: rest => if q = quoted then .text (c :: chars) q :: rest
    else .text [c] quoted :: .text chars q :: rest
  | parts => .text [c] quoted :: parts

/-- Puts the characters of the parts, kept last first, into their order. -/
def inOrder (parts : List Part) : List Part :=
  parts.reverse.map fun
    | .text chars quoted => .text chars.reverse quoted
    | part => part

/-- The text of a word that has no expansions, without its quotes. -/
def plainText (word : List Part) : Text :=
  word.flatMap fun
    | .text chars _ => chars
    | _ => []

def isQuoted (word : List Part) : Bool :=
  word.any fun
    | .text _ quoted => quoted
    | _ => false

/-- Splits a document that begins on the next line from what is left: the document, what stands
before and after it, and how many lines it takes. -/
def takeDocument (stripTabs : Bool) (limit : Text) (rest : Text) : Text × Text :=
  let current := rest.takeWhile (· ≠ '\n')
  let strip (line : Text) : Text := if stripTabs then line.dropWhile (· = '\t') else line
  let rec lines (body : List Text) (rest : Text) : Nat → List Text × Text
    | 0 => (body, rest)
    | fuel + 1 =>
      if rest.isEmpty then (body, [])
      else
        let line := strip (rest.takeWhile (· ≠ '\n'))
        let after := rest.drop ((rest.takeWhile (· ≠ '\n')).length + 1)
        if line = limit then (body, after) else lines ((line ++ ['\n']) :: body) after fuel
  let following := rest.drop (current.length + 1)
  let (body, after) := lines [] following (following.length + 1)
  (body.reverse.flatten, current ++ '\n' :: after)

/-- The text between backquotes: a backslash hides the next backquote, backslash or dollar. -/
def backquoted (quoted : Bool) : Text → Text → Option (Text × Text)
  | done, '\x60' :: rest => some (done.reverse, rest)
  | done, '\\' :: c :: rest =>
    if c = '\x60' || c = '\\' || c = '$' || (quoted && c = '\x22') then
      backquoted quoted (c :: done) rest
    else backquoted quoted (c :: '\\' :: done) rest
  | done, c :: rest => backquoted quoted (c :: done) rest
  | _, [] => none

/-- The operation behind a parameter's name, without its word. -/
def changeSign : Text → Option ((List Part → Change) × Bool × Nat)
  | ':' :: '-' :: _ => some (.fallback .default true, false, 2)
  | ':' :: '=' :: _ => some (.fallback .assign true, false, 2)
  | ':' :: '?' :: _ => some (.fallback .error true, false, 2)
  | ':' :: '+' :: _ => some (.fallback .alternative true, false, 2)
  | '-' :: _ => some (.fallback .default false, false, 1)
  | '=' :: _ => some (.fallback .assign false, false, 1)
  | '?' :: _ => some (.fallback .error false, false, 1)
  | '+' :: _ => some (.fallback .alternative false, false, 1)
  | '#' :: '#' :: _ => some (.trim false true, true, 2)
  | '#' :: _ => some (.trim false false, true, 1)
  | '%' :: '%' :: _ => some (.trim true true, true, 2)
  | '%' :: _ => some (.trim true false, true, 1)
  | _ => none

/-- The name of a parameter at the front of a text in braces. -/
def parameterName : Text → Text
  | [] => []
  | c :: rest =>
    if isNameStart c then c :: rest.takeWhile isNamePart
    else if isDigit c then c :: rest.takeWhile isDigit
    else if isSpecial c then [c]
    else []

mutual

/-- Reads parts up to their end; `parts` are those before, last first. -/
def parts (stop : Stop) (quoted : Bool) (parts : List Part) : Nat → Reader (List Part)
  | 0 => fault "too deep"
  | fuel + 1 => do
    match (← get).rest with
    | [] =>
      match stop with
      | .word | .never => return parts
      | .quote => fault "Unterminated quoted string"
      | .brace => fault "Missing '\x7d'"
      | .arithmetic _ => fault "Missing '))'"
    | '\\' :: '\n' :: _ =>
      drop 2
      Reader.parts stop quoted parts fuel
    | '\\' :: c :: _ =>
      let hidden := !quoted || c = '$' || c = '\x60' || c = '\\'
        || (c = '\x22' && stop ≠ .never) || (c = '\x7d' && stop = .brace)
      if hidden then
        drop 2
        Reader.parts stop quoted (addChar c true parts) fuel
      else
        drop 1
        Reader.parts stop quoted (addChar '\\' true parts) fuel
    | '\\' :: [] =>
      drop 1
      Reader.parts stop quoted (addChar '\\' true parts) fuel
    | '$' :: _ => do
      let parts ← dollar quoted parts fuel
      Reader.parts stop quoted parts fuel
    | '\x60' :: rest =>
      match backquoted quoted [] rest with
      | none =>
        drop (rest.length + 1)
        fault "EOF in backquote substitution"
      | some (inner, after) =>
        let line := (← get).line
        match (entries fuel).run ⟨inner, line⟩ with
        | .error f => throw f
        | .ok (body, left) =>
          if !left.rest.isEmpty then unexpected
          modify fun s => ⟨after, s.line⟩
          Reader.parts stop quoted (.substitution body quoted :: parts) fuel
    | '\x22' :: _ =>
      if stop = .quote then
        drop 1
        return parts
      else if stop = .never || stop matches .arithmetic _ then
        drop 1
        Reader.parts stop quoted (addChar '\x22' quoted parts) fuel
      else
        drop 1
        let inner ← Reader.parts .quote true (.text [] true :: parts) fuel
        Reader.parts stop quoted inner fuel
    | '\x27' :: rest =>
      if quoted then
        drop 1
        Reader.parts stop quoted (addChar '\x27' true parts) fuel
      else
        let inner := rest.takeWhile (· ≠ '\x27')
        if (rest.drop inner.length).isEmpty then
          drop (rest.length + 1)
          fault "Unterminated quoted string"
        drop (inner.length + 2)
        Reader.parts stop quoted (.text inner.reverse true :: parts) fuel
    | c :: _ =>
      match stop with
      | .brace =>
        if c = '\x7d' then
          drop 1
          return parts
        if c = '\n' && !quoted then fault "Missing '\x7d'"
      | .word => if isMeta c then return parts
      | .arithmetic depth =>
        if c = '(' then
          drop 1
          return ← Reader.parts (.arithmetic (depth + 1)) quoted (addChar c quoted parts) fuel
        if c = ')' then
          if 0 < depth then
            drop 1
            return ← Reader.parts (.arithmetic (depth - 1)) quoted (addChar c quoted parts) fuel
          else if ← startsWith "))" then
            drop 2
            return parts
          else unexpected
      | _ => pure ()
      drop 1
      Reader.parts stop quoted (addChar c quoted parts) fuel
termination_by structural fuel => fuel

/-- Reads an expansion, or a plain dollar. -/
def dollar (quoted : Bool) (parts : List Part) : Nat → Reader (List Part)
  | 0 => fault "too deep"
  | fuel + 1 => do
    drop 1
    match (← get).rest with
    | '(' :: '(' :: _ =>
      drop 2
      let inner ← Reader.parts (.arithmetic 0) true [] fuel
      return .arithmetic (inOrder inner) quoted :: parts
    | '(' :: _ =>
      drop 1
      let body ← entries fuel
      if (← peek) ≠ some ')' then expecting ")"
      drop 1
      return .substitution body quoted :: parts
    | '\x7b' :: '#' :: c :: rest =>
      if (isNamePart c || isSpecial c)
          && (rest.dropWhile fun d => isNameStart c && isNamePart d || isDigit c && isDigit d).head?
            = some '\x7d' then
        drop 2
        let name := parameterName (← get).rest
        drop (name.length + 1)
        return .parameter (String.ofList name) .length quoted :: parts
      else braced quoted parts fuel
    | '\x7b' :: _ => braced quoted parts fuel
    | c :: rest =>
      if isNameStart c then
        let name := c :: rest.takeWhile isNamePart
        drop name.length
        return .parameter (String.ofList name) .none quoted :: parts
      else if isDigit c || isSpecial c then
        drop 1
        return .parameter (String.ofList [c]) .none quoted :: parts
      else return addChar '$' quoted parts
    | [] => return addChar '$' quoted parts
termination_by structural fuel => fuel

/-- Reads an expansion in braces. -/
def braced (quoted : Bool) (parts : List Part) : Nat → Reader (List Part)
  | 0 => fault "too deep"
  | fuel + 1 => do
    drop 1
    let name := parameterName (← get).rest
    drop name.length
    let bad : Reader (List Part) := do
      let _ ← Reader.parts .brace quoted [] fuel
      return .parameter (String.ofList name) .bad quoted :: parts
    if name.isEmpty then bad
    else match changeSign (← get).rest with
      | some (change, isPattern, width) =>
        drop width
        let word ← Reader.parts .brace (quoted && !isPattern) [] fuel
        return .parameter (String.ofList name) (change (inOrder word)) quoted :: parts
      | none =>
        if (← peek) ≠ some '\x7d' then bad
        else
          drop 1
          return .parameter (String.ofList name) .none quoted :: parts
termination_by structural fuel => fuel

/-- Reads the next word, if one comes next. -/
def word? : Nat → Reader (Option Word)
  | 0 => fault "too deep"
  | fuel + 1 => do
    skipBlanks
    match (← get).rest with
    | [] => return none
    | c :: _ =>
      if isMeta c then return none
      return some (inOrder (← Reader.parts .word false [] fuel))
termination_by structural fuel => fuel

/-- Reads the next redirection, if one comes next. -/
def redirection? : Nat → Reader (Option Redirection)
  | 0 => fault "too deep"
  | fuel + 1 => do
    skipBlanks
    let rest := (← get).rest
    let digits := rest.takeWhile isDigit
    let number := digits.foldl (fun n c => 10 * n + (c.toNat - 48)) 0
    let descriptor (other : Nat) : Nat := if digits.isEmpty then other else number
    let simple (kind : RedirectionKind) (other width : Nat) : Reader (Option Redirection) := do
      drop (digits.length + width)
      match ← word? fuel with
      | some word => return some (.mk (descriptor other) kind word)
      | none => unexpected
    match rest.drop digits.length with
    | '<' :: '<' :: '-' :: _ => document true (descriptor 0) (digits.length + 3) fuel
    | '<' :: '<' :: _ => document false (descriptor 0) (digits.length + 2) fuel
    | '<' :: '&' :: _ => simple .duplicate 0 2
    | '<' :: '>' :: _ => simple .update 0 2
    | '<' :: _ => simple .input 0 1
    | '>' :: '>' :: _ => simple .append 1 2
    | '>' :: '&' :: _ => simple .duplicate 1 2
    | '>' :: '|' :: _ => simple .overwrite 1 2
    | '>' :: _ => simple .output 1 1
    | _ => return none
termination_by structural fuel => fuel

/-- Reads a document that the lines below hold. -/
def document (stripTabs : Bool) (descriptor width : Nat) : Nat → Reader (Option Redirection)
  | 0 => fault "too deep"
  | fuel + 1 => do
    drop width
    match ← word? fuel with
    | none => unexpected
    | some limit =>
      let (body, rest) := takeDocument stripTabs (plainText limit) (← get).rest
      modify fun s => ⟨rest, s.line⟩
      if isQuoted limit then return some (.mk descriptor .document [.text body true])
      let line := (← get).line
      match (Reader.parts .never true [] fuel).run ⟨body, line⟩ with
      | .error f => throw f
      | .ok (parts, _) => return some (.mk descriptor .document (inOrder parts))
termination_by structural fuel => fuel

/-- Reads the redirections behind a command. -/
def redirections (found : List Redirection) : Nat → Reader (List Redirection)
  | 0 => fault "too deep"
  | fuel + 1 => do
    match ← redirection? fuel with
    | some redirection => redirections (redirection :: found) fuel
    | none => return found.reverse
termination_by structural fuel => fuel

/-- Reads the rest of a simple command. -/
def simple (line : Nat) (assignments : List (String × Word)) (words : List Word)
    (redirections : List Redirection) : Nat → Reader Command
  | 0 => fault "too deep"
  | fuel + 1 => do
    match ← redirection? fuel with
    | some redirection => simple line assignments words (redirection :: redirections) fuel
    | none =>
      skipBlanks
      let rest := (← get).rest
      let name := rest.takeWhile isNamePart
      if words.isEmpty && isName name && (rest.drop name.length).head? = some '=' then
        drop (name.length + 1)
        let value ← Reader.parts .word false [] fuel
        simple line ((String.ofList name, inOrder value) :: assignments) words redirections fuel
      else match ← word? fuel with
        | some word => simple line assignments (word :: words) redirections fuel
        | none =>
          return .simple line assignments.reverse words.reverse redirections.reverse
termination_by structural fuel => fuel

/-- Reads a command. -/
def command : Nat → Reader Command
  | 0 => fault "too deep"
  | fuel + 1 => do
    skipBlanks
    let line := (← get).line
    let plain ← peekPlain
    if (← peek) = some '(' then
      drop 1
      let body ← entries fuel
      if (← peek) ≠ some ')' then expecting ")"
      drop 1
      return .onLine line (.subshell body (← redirections [] fuel))
    else if plain = "\x7b" then
      drop 1
      let body ← entries fuel
      require "\x7d"
      return .onLine line (.group body (← redirections [] fuel))
    else if plain = "if" then
      drop 2
      let (branches, otherwise) ← branches [] fuel
      return .onLine line (.conditional branches otherwise (← redirections [] fuel))
    else if plain = "while" || plain = "until" then
      drop 5
      let condition ← entries fuel
      let body ← loopBody fuel
      return .onLine line (.loop (plain = "while") condition body (← redirections [] fuel))
    else if plain = "for" then
      drop 3
      skipBlanks
      let name ← takeWhile isNamePart
      if !isName name then fault "Bad for loop variable"
      skipNewlines fuel
      if (← peekPlain) = "in" then
        drop 2
        let words ← wordList [] fuel
        skipBlanks
        if (← peek) = some ';' then drop 1
        let body ← loopBody fuel
        let redirected ← redirections [] fuel
        return .onLine line (.each (String.ofList name) (some words) body redirected)
      else
        if (← peek) = some ';' then drop 1
        let body ← loopBody fuel
        return .onLine line (.each (String.ofList name) none body (← redirections [] fuel))
    else if plain = "case" then
      drop 4
      match ← word? fuel with
      | none => unexpected
      | some word =>
        skipNewlines fuel
        require "in"
        let arms ← arms [] fuel
        return .onLine line (.choice word arms (← redirections [] fuel))
    else if closing.contains plain || plain = "!" then unexpected
    else
      let rest := (← get).rest
      let name := rest.takeWhile isNamePart
      let after := (rest.drop name.length).dropWhile fun c => c = ' ' || c = '\t'
      match after with
      | '(' :: close =>
        if isName name && (close.dropWhile fun c => c = ' ' || c = '\t').head? = some ')' then
          drop (rest.length - (close.dropWhile fun c => c = ' ' || c = '\t').length + 1)
          skipNewlines fuel
          return .define (String.ofList name) (← command fuel)
        else words line fuel
      | _ => words line fuel
termination_by structural fuel => fuel

/-- Reads a simple command, which must have something in it. -/
def words (line : Nat) : Nat → Reader Command
  | 0 => fault "too deep"
  | fuel + 1 => do
    match ← simple line [] [] [] fuel with
    | .simple _ [] [] [] => unexpected
    | .simple line [] [word] [] =>
      if (← peek) ≠ some '(' then return .simple line [] [word] []
      drop 1
      skipBlanks
      if (← peek) = some ')' then fault "Bad function name" else expecting ")"
    | command => return command
termination_by structural fuel => fuel

/-- Reads the words of a loop over words. -/
def wordList (found : List Word) : Nat → Reader (List Word)
  | 0 => fault "too deep"
  | fuel + 1 => do
    match ← word? fuel with
    | some word => wordList (word :: found) fuel
    | none => return found.reverse
termination_by structural fuel => fuel

def loopBody : Nat → Reader (List Entry)
  | 0 => fault "too deep"
  | fuel + 1 => do
    skipNewlines fuel
    require "do"
    let body ← entries fuel
    require "done"
    return body
termination_by structural fuel => fuel

/-- Reads the branches of a conditional, from behind its first word. -/
def branches (found : List (List Entry × List Entry)) :
    Nat → Reader (List (List Entry × List Entry) × List Entry)
  | 0 => fault "too deep"
  | fuel + 1 => do
    let condition ← entries fuel
    require "then"
    let body ← entries fuel
    let found := (condition, body) :: found
    skipBlanks
    let plain ← peekPlain
    if plain = "elif" then
      drop 4
      branches found fuel
    else if plain = "else" then
      drop 4
      let otherwise ← entries fuel
      require "fi"
      return (found.reverse, otherwise)
    else
      require "fi"
      return (found.reverse, [])
termination_by structural fuel => fuel

/-- Reads the arms of a choice. -/
def arms (found : List (List Word × List Entry)) :
    Nat → Reader (List (List Word × List Entry))
  | 0 => fault "too deep"
  | fuel + 1 => do
    skipNewlines fuel
    if (← peekPlain) = "esac" then
      drop 4
      return found.reverse
    if (← peek) = some '(' then drop 1
    let patterns ← patterns [] fuel
    let body ← entries fuel
    let found := (patterns, body) :: found
    if ← startsWith ";;" then
      drop 2
      arms found fuel
    else
      skipBlanks
      if (← peekPlain) ≠ "esac" then expecting ";;"
      drop 4
      return found.reverse
termination_by structural fuel => fuel

/-- Reads the patterns of an arm. -/
def patterns (found : List Word) : Nat → Reader (List Word)
  | 0 => fault "too deep"
  | fuel + 1 => do
    match ← word? fuel with
    | none => expecting ")"
    | some word =>
      skipBlanks
      match ← peek with
      | some '|' =>
        drop 1
        patterns (word :: found) fuel
      | some ')' =>
        drop 1
        return (word :: found).reverse
      | _ => expecting ")"
termination_by structural fuel => fuel

/-- Reads commands joined by pipes. -/
def piped (found : List Command) : Nat → Reader (List Command)
  | 0 => fault "too deep"
  | fuel + 1 => do
    let command ← command fuel
    skipBlanks
    if (← startsWith "|") && !(← startsWith "||") then
      drop 1
      skipNewlines fuel
      piped (command :: found) fuel
    else return (command :: found).reverse
termination_by structural fuel => fuel

def pipeline : Nat → Reader Pipeline
  | 0 => fault "too deep"
  | fuel + 1 => do
    skipBlanks
    if (← peekPlain) = "!" then
      drop 1
      return .mk true (← piped [] fuel)
    else return .mk false (← piped [] fuel)
termination_by structural fuel => fuel

/-- Reads pipelines joined by "and" or "or". -/
def joined (found : List (Bool × Pipeline)) : Nat → Reader (List (Bool × Pipeline))
  | 0 => fault "too deep"
  | fuel + 1 => do
    skipBlanks
    let isAnd ← startsWith "&&"
    if isAnd || (← startsWith "||") then
      drop 2
      skipNewlines fuel
      let next ← pipeline fuel
      joined ((isAnd, next) :: found) fuel
    else return found.reverse
termination_by structural fuel => fuel

/-- Reads one entry and its separator. The answer tells whether more may follow. -/
def entry : Nat → Reader (Entry × Bool)
  | 0 => fault "too deep"
  | fuel + 1 => do
    let first ← pipeline fuel
    let rest ← joined [] fuel
    skipBlanks
    if ← startsWith ";;" then return (.mk first rest false, false)
    match ← peek with
    | some '&' =>
      drop 1
      return (.mk first rest true, true)
    | some ';' =>
      drop 1
      return (.mk first rest false, true)
    | some '\n' => return (.mk first rest false, true)
    | _ => return (.mk first rest false, false)
termination_by structural fuel => fuel

/-- Reads entries up to what closes them. -/
def entries : Nat → Reader (List Entry)
  | 0 => fault "too deep"
  | fuel + 1 => do
    skipNewlines (fuel + 1)
    let atEnd ← match ← peek with
      | none => pure true
      | some c => pure (c = ')')
    if atEnd || (← startsWith ";;") || closing.contains (← peekPlain) then return []
    let (entry, more) ← entry fuel
    if more then return entry :: (← entries fuel)
    else return [entry]
termination_by structural fuel => fuel

end

/-- Reads the entries of one line. -/
def lineEntries : Nat → Reader (List Entry)
  | 0 => fault "too deep"
  | fuel + 1 => do
    let (entry, more) ← entry fuel
    skipBlanks
    match ← peek with
    | none | some '\n' => return [entry]
    | _ => if more then return entry :: (← lineEntries fuel) else unexpected

end Reader

/-- The next line of commands of a script, if it has one, and what is left of it. -/
def nextLine (s : Source) : Except Fault (Option (List Entry × Source)) :=
  let fuel := s.rest.length * 4 + 100
  let read : Reader (Option (List Entry)) := do
    Reader.skipNewlines fuel
    match ← Reader.peek with
    | none => return none
    | some _ => return some (← Reader.lineEntries fuel)
  (read.run s).map fun (found, left) => found.map fun entries => (entries, left)

end BugHunt.Shell
