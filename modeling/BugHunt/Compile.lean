import BugHunt.Tool.Run
import BugHunt.Variant
/-!
Compiling sources to bitcode, and turning bitcode and textual IR into one another.
-/

namespace BugHunt

inductive CompileError where
  | run (error : RunError)
  | notBitcode (tool : String) (path : Path)
  | toolFailed (tool : String) (path : Path) (detail : String)
  | toolTimedOut (tool : String) (path : Path)
  | notIr (path : Path)
  | files (path : Path) (cause : Failure)
  deriving DecidableEq, Repr

namespace CompileError

def message : CompileError → String
  | run error => error.message
  | notBitcode tool path =>
    s!"`{tool}` succeeded but {path.quoted} does not look like LLVM bitcode"
  | toolFailed tool path detail => s!"`{tool}` failed on {path.quoted}: {detail}"
  | toolTimedOut tool path => s!"`{tool}` timed out on {path.quoted}"
  | notIr path => s!"expected an IR file, got {path.quoted}"
  | files path cause => s!"I/O error on {path.quoted}: {cause.message}"

def causes : CompileError → List String
  | run error => error.causes
  | files _ cause => [cause.message]
  | _ => []

def isInterrupt : CompileError → Bool
  | run error => error.isInterrupt
  | _ => false

end CompileError

abbrev Compiling := Action CompileError

namespace Compile

def runTool (c : Config) (command : Command) : Compiling Outcome :=
  (command.run c.memoryLimit (some c.compileTimeout)).adapt .run

/-- Whether a file can be read and begins like bitcode. -/
def looksLikeBitcode (path : Path) : Program Bool := do
  match ← Program.read path with
  | .ok content => return isBitcode content
  | .error _ => return false

/-- The plan for a variant, from the artifact's bytes. -/
def plan (c : Config) (outDir : Path) (a : Artifact) (flags : List String) : Compiling Plan := do
  let content ← Action.orFail (Program.read a.path) (.files a.path)
  return Plan.ofContent c.extraArgs outDir a flags content

def compilerFor (c : Config) : Kind → Path
  | .cxxSource => c.tools.clangxx
  | _ => c.tools.clang

def command (c : Config) (a : Artifact) (flags : List String) (output : Path) : Command :=
  Command.ofProgram (compilerFor c a.kind)
    |>.texts ["-fno-rtti", "-fno-discard-value-names", "-emit-llvm", "-o"]
    |>.path output
    |>.text "-c"
    |>.path a.path
    |>.texts flags
    |>.texts c.extraArgs

/-- Compiles into a staging file and gives it the planned name when it is bitcode. The answer tells
whether the compiler succeeded. -/
def intoStaging (c : Config) (a : Artifact) (p : Plan) (staging : Path) : Compiling Bool := do
  let compiler := compilerFor c a.kind
  match ← runTool c (command c a p.flags staging) with
  | .completed _ =>
    if !(← looksLikeBitcode staging) then throw (.notBitcode compiler.display staging)
    Action.orFail (Program.rename staging p.irPath) (.files p.irPath)
    return true
  | .failed _ | .timedOut => return false

/-- Removes a staging file that did not get its final name. -/
def discardStaging (staging : Path) : Except CompileError Bool → Program Unit
  | .ok true => pure ()
  | _ => do let _ ← Program.remove staging

/-- Makes the IR of a plan. IR that is there is taken as it is; what is compiled appears under its
final name only when it is complete. A compiler that fails or takes too long is no error. -/
def build (c : Config) (outDir : Path) (a : Artifact) (p : Plan) : Compiling Variant := do
  if !a.isSource then return ⟨p, true⟩
  if ← Program.exists p.irPath then return ⟨p, true⟩
  Action.orFail (Program.createDirectories outDir) (.files outDir)
  let staging ← Action.orFail (Program.temporaryFile outDir s!".{p.key}." ".bc") (.files outDir)
  let success ← (intoStaging c a p staging).cleaningUp (discardStaging staging)
  return ⟨p, success⟩

def compile (c : Config) (outDir : Path) (a : Artifact) (flags : List String) :
    Compiling Variant := do
  build c outDir a (← plan c outDir a flags)

def compileEach (c : Config) (outDir : Path) (a : Artifact) :
    List (List String) → Compiling (List Variant)
  | [] => return []
  | flags :: rest => do
    let variant ← compile c outDir a flags
    return variant :: (← compileEach c outDir a rest)

/-- One variant for each set of flags. -/
def variants (c : Config) (outDir : Path) (a : Artifact) : Compiling (List Variant) :=
  compileEach c outDir a (flagSets c a)

/-- Runs a tool that reads `input` and writes `output`. -/
def convert (c : Config) (tool input output : Path) : Compiling Unit := do
  let command := Command.ofProgram tool |>.path input |>.text "-o" |>.path output
  match ← runTool c command with
  | .completed _ => return ()
  | .failed out =>
    throw (.toolFailed tool.display input s!"{out.describe}: {out.tail 1024}")
  | .timedOut => throw (.toolTimedOut tool.display input)

/-- The bitcode of an IR file; textual IR is assembled into `outDir`. -/
def assemble (c : Config) (path outDir : Path) : Compiling Path := do
  let output ← match Kind.ofPath? path with
    | some .binaryIr => pure path
    | some .textIr => do
      Action.orFail (Program.createDirectories outDir) (.files outDir)
      let output := outDir / s!"{Plan.stemOf path}.bc"
      convert c c.tools.llvmAs path output
      pure output
    | _ => throw (.notIr path)
  if !(← looksLikeBitcode output) then throw (.notBitcode c.tools.llvmAs.display output)
  return output

/-- The textual IR of an IR file; bitcode is disassembled beside itself. -/
def disassemble (c : Config) (path : Path) : Compiling Path := do
  match Kind.ofPath? path with
  | some .textIr => return path
  | some .binaryIr =>
    let output := path.withExtension "ll"
    convert c c.tools.llvmDis path output
    if !(← Program.exists output) then
      throw (.toolFailed c.tools.llvmDis.display path s!"no output at {output.display}")
    return output
  | _ => throw (.notIr path)

end Compile
end BugHunt
