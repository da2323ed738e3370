import BugHunt.Artifact
import BugHunt.Config.Basic
import BugHunt.Digest.Md5
/-!
Variants of a program: one for each set of flags a source is compiled with, the program itself for
IR. A variant's key names the program, its contents and its flags.
-/

namespace BugHunt

/-- Where a variant's IR lies and the key it is cached under. -/
structure Plan where
  irPath : Path
  flags : List String
  key : String
  deriving DecidableEq, Repr

namespace Plan

/-- Whether a character may stand in the part of a file name that lists flags. -/
def isNameChar (c : Char) : Bool :=
  c.isAlphanum || c = '-' || c = '.' || c = '_' || c = '=' || c = '+'

/-- The text with an underscore for each character that may not stand in a file name. -/
def sanitize (text : String) : String := text.map fun c => if isNameChar c then c else '_'

/-- The first sixteen hexadecimal digits of a digest. -/
def shortDigest (message : Bytes) : String := Bytes.toHex ((Digest.md5 message).take 8)

def stemOf (path : Path) : String := (path.stem?.map Text.lossy).getD "program"

def extensionOf (path : Path) : String := (path.extension?.map Text.lossy).getD ""

/-- What a source's digest is taken of: its contents, then a zero byte and the text of each flag
and each extra argument. -/
def digested (content : Bytes) (arguments : List String) : Bytes :=
  content ++ arguments.flatMap fun argument => 0 :: utf8 argument

def irKey (path : Path) (content : Bytes) : String :=
  s!"{stemOf path}.{extensionOf path}.{shortDigest content}"

def sourceKey (path : Path) (content : Bytes) (flags extraArgs : List String) : String :=
  let flagText := sanitize (".".intercalate flags)
  let digest := shortDigest (digested content (flags ++ extraArgs))
  s!"{stemOf path}.{flagText}.{digest}"

/-- The plan for compiling an artifact with `content` into `outDir`. IR is its own variant. -/
def ofContent (extraArgs : List String) (outDir : Path) (a : Artifact) (flags : List String)
    (content : Bytes) : Plan :=
  if a.isSource then
    let key := sourceKey a.path content flags extraArgs
    ⟨outDir / s!"{key}.bc", flags, key⟩
  else ⟨a.path, [], irKey a.path content⟩

end Plan

/-- A plan and whether its IR is there. -/
structure Variant extends Plan where
  success : Bool
  deriving DecidableEq, Repr

def Variant.name (v : Variant) : String := v.irPath.name

/-- The sets of flags that an artifact is compiled with; IR is taken as it is. -/
def flagSets (c : Config) (a : Artifact) : List (List String) :=
  if a.isSource then c.optLevels else [[]]

end BugHunt
