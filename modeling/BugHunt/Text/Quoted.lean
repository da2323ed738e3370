import BugHunt.Text.GraphemeExtend
import BugHunt.Text.Utf8
/-!
Byte strings inside a message: double quotes around the text, escapes for what would not be
seen as itself, and two hexadecimal digits for each byte that is no text.
-/

namespace BugHunt.Text

/-- The lower-case hexadecimal digits of a number, without leading zeros. -/
def hexNumber (n : Nat) : List Char :=
  Nat.toDigits 16 n

/-- Two upper-case hexadecimal digits. -/
def hexByte (b : UInt8) : List Char :=
  [Bytes.hexDigit (b.toNat / 16), Bytes.hexDigit (b.toNat % 16)].map Char.toUpper

def quoteChar (c : Char) : List Char :=
  if c = '\x00' then ['\\', '0']
  else if c = '\t' then ['\\', 't']
  else if c = '\n' then ['\\', 'n']
  else if c = '\r' then ['\\', 'r']
  else if c = '\x22' then ['\\', '\x22']
  else if c = '\\' then ['\\', '\\']
  else if isGraphemeExtend c || !isPrintable c then
    ['\\', 'u', '\x7b'] ++ hexNumber c.toNat ++ ['\x7d']
  else [c]

def quoteChunk : Chunk → List Char
  | .char c => quoteChar c
  | .illFormed bytes => bytes.flatMap fun b => ['\\', 'x'] ++ hexByte b

/-- The quoted form of a byte string. -/
def quoted (bytes : Bytes) : String :=
  String.ofList (['\x22'] ++ (chunks bytes).flatMap quoteChunk ++ ['\x22'])

end BugHunt.Text
