import BugHunt.Bytes
/-!
Deflate streams (RFC 1951). Decoding keeps what it produced however it ends: at the end of the
stream, for want of input, at damaged data, or because the room for output is full.
-/

namespace BugHunt.Gzip

/-- Why decoding ended. -/
inductive Stop where
  | finished
  | starved
  | corrupt
  | full
  deriving DecidableEq, Repr, Inhabited

/-- What has been read and written so far; `taken` counts bits. -/
structure Decoding where
  input : Array UInt8
  taken : Nat
  output : Array UInt8
  room : Nat
  deriving Repr

abbrev Decoder := EStateM Stop Decoding

namespace Decoder

/-- The next bit of the input, the least significant of a byte first. -/
def bit : Decoder Nat := fun s =>
  match s.input[s.taken / 8]? with
  | none => .error .starved s
  | some b => .ok ((b.toNat >>> (s.taken % 8)) % 2) { s with taken := s.taken + 1 }

/-- A number of `n` bits, the least significant first. -/
def bits : Nat → Decoder Nat
  | 0 => pure 0
  | n + 1 => do
    let low ← bit
    let high ← bits n
    return low + 2 * high

/-- Skips to the next byte. -/
def align : Decoder Unit :=
  modify fun s => { s with taken := (s.taken + 7) / 8 * 8 }

def emit (b : UInt8) : Decoder Unit := fun s =>
  if s.output.size < s.room then .ok () { s with output := s.output.push b }
  else .error .full s

/-- Repeats `count` bytes from `distance` back; before the first byte lie zeros. -/
def copy (distance : Nat) : Nat → Decoder Unit
  | 0 => pure ()
  | count + 1 => do
    let s ← get
    emit (if distance ≤ s.output.size then s.output.getD (s.output.size - distance) 0 else 0)
    copy distance count

end Decoder

/-- A canonical prefix code: how many codes have each length from one on, and the symbols in the
order of their codes. -/
structure Code where
  counts : List Nat
  symbols : Array Nat
  deriving Repr

namespace Code

/-- The code that gives symbol `i` the length `lengths[i]`; length zero leaves a symbol out. -/
def ofLengths (lengths : List Nat) : Code where
  counts := (List.range 15).map fun n => lengths.count (n + 1)
  symbols := ((List.range 15).flatMap fun n =>
    lengths.zipIdx.filterMap fun (length, symbol) =>
      if length = n + 1 then some symbol else none).toArray

/-- How much of the space of 15-bit words the codes take up. -/
def weight (c : Code) : Nat :=
  c.counts.zipIdx.foldl (fun total (count, n) => total + count <<< (14 - n)) 0

/-- Whether the code can be used: it is complete, or has at most one symbol. -/
def isSound (c : Code) : Bool :=
  c.weight = 1 <<< 15 || c.symbols.size ≤ 1

/-- Reads one symbol. `first` and `code` are the first code of the current length and the bits
read so far, `index` the place of the first symbol of that length. -/
def readFrom (c : Code) (first code index : Nat) : List Nat → Decoder Nat
  | [] => throw .corrupt
  | count :: counts => do
    let code := code + (← Decoder.bit)
    if code < first + count then
      match c.symbols[index + (code - first)]? with
      | some symbol => return symbol
      | none => throw .corrupt
    else readFrom c ((first + count) * 2) (code * 2) (index + count) counts

def read (c : Code) : Decoder Nat := c.readFrom 0 0 0 c.counts

end Code

/-- Base length and extra bits of the length symbols from 257 on. -/
def lengthBases : Array (Nat × Nat) := #[
  (3, 0), (4, 0), (5, 0), (6, 0), (7, 0), (8, 0), (9, 0), (10, 0), (11, 1), (13, 1), (15, 1),
  (17, 1), (19, 2), (23, 2), (27, 2), (31, 2), (35, 3), (43, 3), (51, 3), (59, 3), (67, 4),
  (83, 4), (99, 4), (115, 4), (131, 5), (163, 5), (195, 5), (227, 5), (258, 0)]

/-- Base distance and extra bits of the distance symbols. -/
def distanceBases : Array (Nat × Nat) := #[
  (1, 0), (2, 0), (3, 0), (4, 0), (5, 1), (7, 1), (9, 2), (13, 2), (17, 3), (25, 3), (33, 4),
  (49, 4), (65, 5), (97, 5), (129, 6), (193, 6), (257, 7), (385, 7), (513, 8), (769, 8),
  (1025, 9), (1537, 9), (2049, 10), (3073, 10), (4097, 11), (6145, 11), (8193, 12), (12289, 12),
  (16385, 13), (24577, 13)]

/-- The order in which a block header lists the lengths of the code for lengths. -/
def lengthOrder : List Nat := [16, 17, 18, 0, 8, 7, 9, 6, 10, 5, 11, 4, 12, 3, 13, 2, 14, 1, 15]

def fixedLengths : List Nat :=
  List.replicate 144 8 ++ List.replicate 112 9 ++ List.replicate 24 7 ++ List.replicate 8 8

def fixedCodes : Code × Code :=
  (.ofLengths fixedLengths, .ofLengths (List.replicate 32 5))

def baseAndExtra (table : Array (Nat × Nat)) (symbol : Nat) : Decoder Nat :=
  match table[symbol]? with
  | none => throw .corrupt
  | some (base, extra) => return base + (← Decoder.bits extra)

/-- Literals and matches up to the end of a block; every symbol takes a bit, which bounds the
number of rounds. -/
def symbols (literals distances : Code) : Nat → Decoder Unit
  | 0 => throw .starved
  | rounds + 1 => do
    let symbol ← literals.read
    if symbol < 256 then
      Decoder.emit (UInt8.ofNat symbol)
      symbols literals distances rounds
    else if symbol = 256 then
      pure ()
    else
      let length ← baseAndExtra lengthBases (symbol - 257)
      let distance ← baseAndExtra distanceBases (← distances.read)
      Decoder.copy distance length
      symbols literals distances rounds

/-- Code lengths, `wanted` in number, in front of which `done` have been read, last first. -/
def readLengths (code : Code) (done : List Nat) (wanted : Nat) : Nat → Decoder (List Nat)
  | 0 => throw .starved
  | rounds + 1 =>
    if done.length = wanted then return done.reverse
    else if wanted < done.length then throw .corrupt
    else do
      let symbol ← code.read
      if symbol < 16 then readLengths code (symbol :: done) wanted rounds
      else if symbol = 16 then
        match done with
        | [] => throw .corrupt
        | last :: _ =>
          let times := 3 + (← Decoder.bits 2)
          readLengths code (List.replicate times last ++ done) wanted rounds
      else if symbol = 17 then
        let times := 3 + (← Decoder.bits 3)
        readLengths code (List.replicate times 0 ++ done) wanted rounds
      else
        let times := 11 + (← Decoder.bits 7)
        readLengths code (List.replicate times 0 ++ done) wanted rounds

def readList (width : Nat) : Nat → Decoder (List Nat)
  | 0 => return []
  | n + 1 => do
    let value ← Decoder.bits width
    return value :: (← readList width n)

def soundCode (lengths : List Nat) : Decoder Code :=
  let code := Code.ofLengths lengths
  if code.isSound then return code else throw .corrupt

/-- The two codes that a block brings along. -/
def dynamicCodes (rounds : Nat) : Decoder (Code × Code) := do
  let literalCount := 257 + (← Decoder.bits 5)
  let distanceCount := 1 + (← Decoder.bits 5)
  let listed := 4 + (← Decoder.bits 4)
  if literalCount > 286 || distanceCount > 30 then throw .corrupt
  let given ← readList 3 listed
  let lengthOf (symbol : Nat) : Nat := ((lengthOrder.zip given).lookup symbol).getD 0
  let code ← soundCode ((List.range 19).map lengthOf)
  let lengths ← readLengths code [] (literalCount + distanceCount) rounds
  let distances ← soundCode (lengths.drop literalCount)
  let literals ← soundCode (lengths.take literalCount)
  return (literals, distances)

def storedBytes : Nat → Decoder Unit
  | 0 => pure ()
  | n + 1 => do
    Decoder.emit (UInt8.ofNat (← Decoder.bits 8))
    storedBytes n

/-- One block; tells whether it is the last. -/
def block (rounds : Nat) : Decoder Bool := do
  let last ← Decoder.bit
  match ← Decoder.bits 2 with
  | 0 =>
    Decoder.align
    let length ← Decoder.bits 16
    let complement ← Decoder.bits 16
    if length + complement != 0xFFFF then throw .corrupt
    storedBytes length
  | 1 => symbols fixedCodes.1 fixedCodes.2 rounds
  | 2 =>
    let (literals, distances) ← dynamicCodes rounds
    symbols literals distances rounds
  | _ => throw .corrupt
  return last = 1

def blocks (rounds : Nat) : Nat → Decoder Unit
  | 0 => throw .starved
  | left + 1 => do
    if ← block rounds then Decoder.align else blocks rounds left

/-- What decoding produced, why it ended, and how many bytes of input it took. -/
structure Inflated where
  output : Array UInt8
  stop : Stop
  taken : Nat
  deriving Repr

/-- Decodes a stream into at most `room` bytes. -/
def inflate (room : Nat) (input : Bytes) : Inflated :=
  let bound := 8 * input.length + 1
  match blocks bound bound ⟨input.toArray, 0, #[], room⟩ with
  | .ok _ s => ⟨s.output, .finished, s.taken / 8⟩
  | .error stop s => ⟨s.output, stop, (s.taken + 7) / 8⟩

end BugHunt.Gzip
