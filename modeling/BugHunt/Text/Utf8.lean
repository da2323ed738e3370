import BugHunt.Bytes
/-!
Reading bytes as UTF-8. Bytes that are no text are cut into maximal ill-formed runs, each of
which is shown as one replacement character.
-/

namespace BugHunt.Text

/-- A whole character, or a run of bytes that begins none. -/
inductive Chunk where
  | char (c : Char)
  | illFormed (bytes : Bytes)
  deriving Repr, DecidableEq

def isContinuation (b : UInt8) : Bool :=
  0x80 ≤ b && b ≤ 0xBF

/-- The range of second bytes that a lead byte allows; surrogates, overlong forms and
values above the last code point are shut out here. -/
def secondRange (lead : UInt8) : UInt8 × UInt8 :=
  if lead = 0xE0 then (0xA0, 0xBF)
  else if lead = 0xED then (0x80, 0x9F)
  else if lead = 0xF0 then (0x90, 0xBF)
  else if lead = 0xF4 then (0x80, 0x8F)
  else (0x80, 0xBF)

/-- How many continuation bytes follow a lead byte; `none` for a byte that leads nothing. -/
def trailCount (lead : UInt8) : Option Nat :=
  if lead < 0x80 then some 0
  else if 0xC2 ≤ lead && lead ≤ 0xDF then some 1
  else if 0xE0 ≤ lead && lead ≤ 0xEF then some 2
  else if 0xF0 ≤ lead && lead ≤ 0xF4 then some 3
  else none

/-- The continuation bytes, at most `n`, that stand at the front of `rest` after `lead`. -/
def trail (lead : UInt8) (n : Nat) (rest : Bytes) : Bytes :=
  match n, rest with
  | 0, _ => []
  | _ + 1, [] => []
  | n + 1, b :: rest =>
    let (low, high) := secondRange lead
    if low ≤ b && b ≤ high then b :: (rest.take n).takeWhile isContinuation else []

/-- The code point whose lead byte and continuation bytes are given. -/
def codePoint (lead : UInt8) (trail : Bytes) : Nat :=
  let head := match trail.length with
    | 0 => lead.toNat
    | 1 => lead.toNat % 0x20
    | 2 => lead.toNat % 0x10
    | _ => lead.toNat % 0x08
  trail.foldl (fun value b => value * 64 + b.toNat % 64) head

/-- The chunk that starts with `lead`, and how many bytes of `rest` belong to it. -/
def scan (lead : UInt8) (rest : Bytes) : Chunk × Nat :=
  match trailCount lead with
  | none => (.illFormed [lead], 0)
  | some n =>
    let found := trail lead n rest
    if found.length = n then (.char (Char.ofNat (codePoint lead found)), n)
    else (.illFormed (lead :: found), found.length)

/-- The chunks of `bytes`, last first, in front of `done`. -/
def chunksOnto (done : List Chunk) : Bytes → List Chunk
  | [] => done
  | lead :: rest =>
    let (chunk, used) := scan lead rest
    chunksOnto (chunk :: done) (rest.drop used)
termination_by bytes => bytes.length
decreasing_by exact Nat.lt_succ_of_le (List.drop_sublist ..).length_le

/-- The bytes cut into characters and ill-formed runs. -/
def chunks (bytes : Bytes) : List Chunk :=
  (chunksOnto [] bytes).reverse

def Chunk.shown : Chunk → Char
  | .char c => c
  | .illFormed _ => '\uFFFD'

def Chunk.char? : Chunk → Option Char
  | .char c => some c
  | .illFormed _ => none

/-- The text of `bytes`, with a replacement character for each ill-formed run. -/
def lossy (bytes : Bytes) : String :=
  String.ofList ((chunks bytes).map Chunk.shown)

/-- The text of `bytes`, if they are well-formed. -/
def decode? (bytes : Bytes) : Option String :=
  ((chunks bytes).mapM Chunk.char?).map String.ofList

def isText (bytes : Bytes) : Bool :=
  (chunks bytes).all fun chunk => chunk.char?.isSome

end BugHunt.Text
