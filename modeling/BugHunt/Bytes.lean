/-!
Byte strings. File contents, arguments and path text may hold any bytes, so they are lists of
bytes and become text only where they are shown.
-/

namespace BugHunt

abbrev Bytes := List UInt8

/-- The UTF-8 form of a text. -/
def utf8 (text : String) : Bytes :=
  text.toList.flatMap String.utf8EncodeChar

namespace Bytes

/-- One character per byte, for grammars whose special signs are all ASCII. -/
def toLatin (bytes : Bytes) : List Char :=
  bytes.map fun b => Char.ofNat b.toNat

/-- The bytes behind a list of one-byte characters. -/
def ofLatin (chars : List Char) : Bytes :=
  chars.map fun c => UInt8.ofNat c.toNat

/-- The last `n` bytes, or all of them when there are fewer. -/
def takeLast (n : Nat) (bytes : Bytes) : Bytes :=
  bytes.drop (bytes.length - n)

/-- The pieces between the occurrences of a separator; never the empty list. -/
def splitOn (separator : UInt8) (bytes : Bytes) : List Bytes :=
  bytes.foldr (fun b pieces =>
    if b = separator then [] :: pieces
    else match pieces with
      | [] => [[b]]
      | piece :: others => (b :: piece) :: others) [[]]

/-- The sixteen digits of lower-case hexadecimal. -/
def hexDigit (n : Nat) : Char :=
  if n < 10 then Char.ofNat (48 + n) else Char.ofNat (87 + n)

/-- Two lower-case hexadecimal digits per byte. -/
def toHex (bytes : Bytes) : String :=
  String.ofList (bytes.flatMap fun b => [hexDigit (b.toNat / 16), hexDigit (b.toNat % 16)])

theorem takeLast_length (n : Nat) (bytes : Bytes) :
    (bytes.takeLast n).length = min n bytes.length := by
  simp [takeLast]; omega

theorem takeLast_of_le {n : Nat} {bytes : Bytes} (h : bytes.length ≤ n) :
    bytes.takeLast n = bytes := by
  simp [takeLast, Nat.sub_eq_zero_of_le h]

end Bytes
end BugHunt
