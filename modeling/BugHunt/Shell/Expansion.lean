import BugHunt.Shell.State
/-!
What words stand for: their expansions, the fields these fall into, and the file names that fit.
-/

namespace BugHunt.Shell

/-- What an expansion yields. -/
inductive Glyph where
  /-- A character that stands in a word. -/
  | char (c : Char) (quoted : Bool)
  /-- A character of a value, at which fields may be cut. -/
  | soft (c : Char)
  /-- Quotes: there is a field here, even an empty one. -/
  | mark
  /-- No parameters where all were asked for: an empty field here is none. -/
  | void
  /-- The end of a field. -/
  | border

namespace Expansion

def ofValue (quoted : Bool) (value : Text) : List Glyph :=
  if quoted then .mark :: value.map (.char · true) else value.map .soft

/-- All positional parameters. -/
def allParameters (s : State) (asOne quoted : Bool) : List Glyph :=
  if asOne && quoted then
    ofValue true ((Sh.separators s).take 1 |>.intercalate s.positional)
  else if s.positional.isEmpty then (if quoted then [.void] else [])
  else [Glyph.border].intercalate (s.positional.map (ofValue quoted))

/-- The characters of an expansion that is not cut into fields. -/
def plain (glyphs : List Glyph) : Text :=
  glyphs.filterMap fun
    | .char c _ | .soft c => some c
    | .border => some ' '
    | .mark | .void => none

/-- The pattern that an expansion stands for. -/
def marked (glyphs : List Glyph) : Marked :=
  glyphs.filterMap fun
    | .char c quoted => some (c, quoted)
    | .soft c => some (c, false)
    | .border => some (' ', true)
    | .mark | .void => none

/-- A field that is being put together, last character first. -/
structure Field where
  chars : Marked
  quoted : Bool
  void : Bool

def Field.empty : Field := ⟨[], false, false⟩

/-- Whether something stands in a field. -/
def Field.stands (f : Field) : Bool := !f.chars.isEmpty || (f.quoted && !f.void)

/-- Cuts an expansion into fields. `afterBlank` tells whether a blank has just ended a field. -/
def cut (separators : Text) (field : Field) (afterBlank : Bool) : List Glyph → List Marked
  | [] => if field.stands then [field.chars.reverse] else []
  | .char c quoted :: rest =>
    cut separators { field with chars := (c, quoted) :: field.chars } false rest
  | .mark :: rest => cut separators { field with quoted := true } false rest
  | .void :: rest => cut separators { field with void := true } false rest
  | .border :: rest =>
    if field.stands then field.chars.reverse :: cut separators .empty false rest
    else cut separators .empty false rest
  | .soft c :: rest =>
    if !separators.contains c then
      cut separators { field with chars := (c, false) :: field.chars } false rest
    else if c = ' ' || c = '\t' || c = '\n' then
      if field.stands then field.chars.reverse :: cut separators .empty true rest
      else cut separators field afterBlank rest
    else if afterBlank && !field.stands then cut separators .empty false rest
    else field.chars.reverse :: cut separators .empty false rest

/-- The pieces of a pattern between slashes. -/
def splitSlashes (pattern : Marked) : List Marked :=
  pattern.foldr (fun entry pieces =>
    if entry.1 = '/' then [] :: pieces
    else match pieces with
      | [] => [[entry]]
      | piece :: others => (entry :: piece) :: others) [[]]

def pathOf (text : Text) : Path := ⟨Bytes.ofLatin text⟩

/-- The names in a directory that fit one piece of a pattern, in order. -/
def namesIn (directory : Text) (piece : Marked) : Proc (List Text) := do
  let path := if directory.isEmpty then ['.'] else directory
  match ← Proc.list (pathOf path) with
  | .error _ => return []
  | .ok entries =>
    let items := Pattern.ofMarked piece
    let hidden := (piece.head?.map (·.1)) = some '.'
    let names := entries.map fun (name, _) => Bytes.toLatin name
    let names := if hidden then ['.'] :: ['.', '.'] :: names else names
    return (names.filter fun name =>
      (hidden || name.head? ≠ some '.') && Pattern.fits items name).mergeSort
        fun a b => !decide (b < a)

/-- The paths that begin with one of `found` and fit the pieces. -/
def paths (found : List Text) : List Marked → Proc (List Text)
  | [] => return found
  | piece :: rest => do
    let last := rest.isEmpty
    let ending : Text := if last then [] else ['/']
    let plainPiece := piece.map (·.1)
    let next ←
      if Pattern.hasSpecial piece then
        found.foldlM (fun all directory => do
          let names ← namesIn directory piece
          return all ++ names.map fun name => directory ++ name ++ ending) []
      else pure (found.map fun directory => directory ++ plainPiece ++ ending)
    paths next rest

/-- The files that fit a field, or the field itself when there is none. -/
def files (keepsPatterns : Bool) (field : Marked) : Proc (List Text) := do
  let text := field.map (·.1)
  if keepsPatterns || !Pattern.hasSpecial field then return [text]
  let found ← paths [[]] (splitSlashes field)
  let there ← found.filterM fun path => do
    return (← Proc.look (pathOf path) false).toOption.isSome
  return if there.isEmpty then [text] else there

/-- The home directory where a word begins with a tilde. -/
def tilde (s : State) : List Part → List Part
  | .text ('~' :: rest) false :: parts =>
    if rest.isEmpty && parts.isEmpty || rest.head? = some '/' then
      match Sh.valueOf s "HOME" with
      | some home => .text home true :: .text rest false :: parts
      | none => .text ('~' :: rest) false :: parts
    else .text ('~' :: rest) false :: parts
  | parts => parts

/-- A part without the quotes around it. -/
def requoted (quoted : Bool) : Part → Part
  | .text chars q => .text chars (q || quoted)
  | part => part

def needsValue (s : State) (name : String) : Sh Unit := do
  if s.has "nounset" && name ≠ "@" && name ≠ "*" then Sh.fail s!"{name}: parameter not set"

mutual

/-- What the parts of a word yield. `output` runs commands and gives their output. -/
def word (output : List Entry → Sh Text) (parts : List Part) : Nat → Sh (List Glyph)
  | 0 => return []
  | fuel + 1 => do
    match parts with
    | [] => return []
    | part :: rest =>
      let first ← one output part fuel
      return first ++ (← word output rest fuel)
termination_by structural fuel => fuel

def one (output : List Entry → Sh Text) (part : Part) : Nat → Sh (List Glyph)
  | 0 => return []
  | fuel + 1 => do
    match part with
    | .text chars quoted =>
      return (if quoted then [.mark] else []) ++ chars.map (.char · quoted)
    | .substitution body quoted => return ofValue quoted (← output body)
    | .arithmetic inner quoted =>
      let text := plain (← word output inner fuel)
      let s ← get
      match Arithmetic.evaluate (Sh.valueOf s) text with
      | .ok (value, assigned) =>
        assigned.forM fun (name, n) => Sh.assign name (toString n).toList
        return ofValue quoted (toString value).toList
      | .error .divisionByZero =>
        Sh.failText "arithmetic expression: division by zero: \x22" text "\x22"
      | .error (.expecting what) =>
        Sh.failText s!"arithmetic expression: expecting {what}: \x22" text "\x22"
      | .error (.illegalNumber wrong) => Sh.failText "Illegal number: " wrong ""
    | .parameter name change quoted => parameter output name change quoted fuel
termination_by structural fuel => fuel

def parameter (output : List Entry → Sh Text) (name : String) (change : Change) (quoted : Bool) :
    Nat → Sh (List Glyph)
  | 0 => return []
  | fuel + 1 => do
    let s ← get
    let value := Sh.valueOf s name
    let shown : List Glyph :=
      if name = "@" then allParameters s false quoted
      else if name = "*" then allParameters s true quoted
      else ofValue quoted (value.getD [])
    match change with
    | .bad => Sh.fail "Bad substitution"
    | .none =>
      if value.isNone then needsValue s name
      return shown
    | .length =>
      if value.isNone then needsValue s name
      return ofValue quoted (toString (value.getD []).length).toList
    | .fallback kind orEmpty parts =>
      let lacks := value.isNone || (orEmpty && value = some [])
      match kind with
      | .default => if lacks then word output (parts.map (requoted quoted)) fuel else return shown
      | .alternative =>
        if lacks then return (if quoted then [.mark] else [])
        else word output (parts.map (requoted quoted)) fuel
      | .assign =>
        if !lacks then return shown
        let text := plain (← word output parts fuel)
        Sh.assign name text
        return ofValue quoted text
      | .error =>
        if !lacks then return shown
        let text := plain (← word output parts fuel)
        let ending := if orEmpty then " or null" else ""
        if text.isEmpty then Sh.fail s!"{name}: parameter not set{ending}"
        else Sh.failText s!"{name}: " text ""
    | .trim atEnd longest parts =>
      if value.isNone then needsValue s name
      let items := Pattern.ofMarked (marked (← word output parts fuel))
      let text := value.getD []
      return ofValue quoted
        (if atEnd then Pattern.trimEnd items longest text
          else Pattern.trimFront items longest text)
termination_by structural fuel => fuel

end

/-- How deep expansions may stand within each other, and how many parts a word may have. -/
def depth : Nat := 1000000

/-- The text of a word that is not cut into fields. -/
def text (output : List Entry → Sh Text) (parts : Word) : Sh Text := do
  return plain (← word output (tilde (← get) parts) depth)

def pattern (output : List Entry → Sh Text) (parts : Word) : Sh (List Item) := do
  return Pattern.ofMarked (marked (← word output (tilde (← get) parts) depth))

/-- The fields that a word falls into. -/
def fields (output : List Entry → Sh Text) (parts : Word) : Sh (List Text) := do
  let glyphs ← word output (tilde (← get) parts) depth
  let s ← get
  (cut (Sh.separators s) .empty false glyphs).foldlM (fun all field => do
    return all ++ (← Sh.ofProc (files (s.has "noglob") field))) []

end Expansion
end BugHunt.Shell
