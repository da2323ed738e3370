import BugHunt.Failure
import BugHunt.Gzip.Crc
import BugHunt.Gzip.Inflate
/-!
Gzip files (RFC 1952): the header of a member, what the first read of one byte gives, and the
contents of all members.
-/

namespace BugHunt.Gzip

/-- The longest name or comment that a header may hold. -/
def longestField : Nat := 65535

/-- The bytes before a zero byte and the bytes after it. -/
def zeroTerminated (bytes : Bytes) : Except Failure (Bytes × Bytes) :=
  let text := bytes.takeWhile (· != 0)
  if longestField < text.length then .error .gzipFieldTooLong
  else match bytes.drop text.length with
    | [] => .error .endOfFile
    | _ :: rest => .ok (text, rest)

/-- Drops `n` bytes that must be there. -/
def skip (n : Nat) (bytes : Bytes) : Except Failure Bytes :=
  if bytes.length < n then .error .endOfFile else .ok (bytes.drop n)

/-- The bit of the header's flag byte that announces a part. -/
inductive Flag where
  | checksum
  | extra
  | name
  | comment

def Flag.mask : Flag → UInt8
  | checksum => 0x02
  | extra => 0x04
  | name => 0x08
  | comment => 0x10

def Flag.isSet (flag : Flag) (flags : UInt8) : Bool := flags &&& flag.mask != 0

/-- The optional parts of a header in their order, up to the header's own checksum. -/
def optionalParts (flags : UInt8) (rest : Bytes) : Except Failure Bytes := do
  let rest ←
    if Flag.extra.isSet flags then
      match rest with
      | low :: high :: rest => skip (low.toNat + 256 * high.toNat) rest
      | _ => .error .endOfFile
    else .ok rest
  let rest ← if Flag.name.isSet flags then (·.2) <$> zeroTerminated rest else .ok rest
  if Flag.comment.isSet flags then (·.2) <$> zeroTerminated rest else .ok rest

/-- What follows the header of the member that `file` begins with. -/
def afterHeader (file : Bytes) : Except Failure Bytes :=
  match file with
  | id₁ :: id₂ :: method :: flags :: _ :: _ :: _ :: _ :: _ :: _ :: rest =>
    if id₁ != 0x1F || id₂ != 0x8B || method != 8 || flags &&& 0xE0 != 0 then
      .error .badGzipHeader
    else do
      let body ← optionalParts flags rest
      if Flag.checksum.isSet flags then
        match body with
        | low :: high :: body' =>
          let header := file.take (file.length - body.length)
          if low.toNat + 256 * high.toNat = (crc32 header).toNat % 65536 then .ok body'
          else .error .gzipChecksum
        | _ => .error .endOfFile
      else .ok body
  | _ => .error .endOfFile

/-- A number whose least significant byte comes first. -/
def littleEndianValue : Bytes → Nat
  | [] => 0
  | b :: rest => b.toNat + 256 * littleEndianValue rest

/-- Checks that the eight bytes after a member's data state its checksum and length; gives what
follows them. -/
def afterTrailer (content rest : Bytes) : Except Failure Bytes :=
  if rest.length < 8 then .error .endOfFile
  else if littleEndianValue (rest.take 4) = (crc32 content).toNat
      && littleEndianValue ((rest.drop 4).take 4) = content.length % 0x100000000 then
    .ok (rest.drop 8)
  else .error .gzipChecksum

/-- How much of a file is read at once. -/
def bufferSize : Nat := 32768

/-- How far decoding runs ahead of what has been handed out. -/
def runAhead : Nat := 32768

/-- The first byte of the data, decoded from what `window` bytes of the file hold. Decoding that
stops for want of input before the first byte goes on with the next buffer. -/
def firstByte (file body : Bytes) (window : Nat) : Except Failure (Option UInt8) :=
  let found := inflate runAhead (body.take (window - (file.length - body.length)))
  match found.stop, found.output[0]? with
  | .corrupt, _ => .error .deflateCorrupt
  | _, some b => .ok (some b)
  | .starved, none =>
    if window < file.length then firstByte file body (window + bufferSize)
    else .error .deflateIncomplete
  | _, none => do
    let _ ← afterTrailer [] (body.drop found.taken)
    return none
termination_by file.length - window
decreasing_by simp [bufferSize]; omega

/-- What reading one byte of the decompressed file gives: a byte, the end, or a failure. -/
def firstRead (file : Bytes) : Except Failure (Option UInt8) := do
  let body ← afterHeader file
  let header := file.length - body.length
  firstByte file body ((header / bufferSize + 1) * bufferSize)

/-- The content of the member that `file` begins with, and what follows the member. -/
def member (file : Bytes) : Except Failure (Bytes × Bytes) := do
  let body ← afterHeader file
  let found := inflate (1032 * body.length + 258) body
  match found.stop with
  | .finished =>
    let content := found.output.toList
    return (content, ← afterTrailer content (body.drop found.taken))
  | .corrupt => .error .deflateCorrupt
  | .starved | .full => .error .deflateIncomplete

/-- The contents of at most `count` members that fill the file. -/
def members : Nat → Bytes → Except Failure Bytes
  | 0, _ => .error .endOfFile
  | count + 1, file => do
    let (content, rest) ← member file
    if rest = [] then return content else return content ++ (← members count rest)

/-- The contents of a whole file: one or more members after one another. -/
def contents (file : Bytes) : Except Failure Bytes := members file.length file

end BugHunt.Gzip
