import BugHunt.Pipeline.Scan
import BugHunt.Proofs.Places
import BugHunt.Proofs.Trees
/-!
A bench to run programs on: a file tree without links, limits and rights, and tools whose outcome
follows from the bytes and the options that they are given. A tool does all its work in the moment
in which the wait for it ends; nothing else changes a file but the programs themselves.
-/

namespace BugHunt.Proofs.Bench
open Places Trees

/-- How a run of a tool shows itself. -/
inductive Finish where
  | ended (status : Status)
  | hung
  deriving DecidableEq, Repr

/-- What a tool with one output does. Without `written` it leaves the output as it was. -/
structure Effect where
  finish : Finish
  written : Option Bytes

/-- What a tool does that fills a directory. -/
structure Harvest where
  finish : Finish
  files : List (Bytes × Bytes)

/-- The tools, as functions of what they are called by, their options and what they read; there is
nothing to read where a file is missing. Minimizers end by themselves. -/
structure Toolbox where
  starts : Path → List Bytes → Bool
  streams : Command → Bytes × Bytes
  compile : Path → List Bytes → Option Bytes → Effect
  convert : Path → Option Bytes → Effect
  facts : Path → Bytes → Option Bytes → Harvest
  analyse : Path → List Bytes → (Bytes → Option Bytes) → Harvest
  minimizeIr : Path → Option Bytes → Status × Option Bytes
  minimizeSource : Path → Option Bytes → Status × Option Bytes

/-- The calls of tools, with the files and directories that they name. -/
inductive Call where
  | compile (options : List Bytes) (source output : Path)
  | convert (input output : Path)
  | facts (context : Bytes) (directory bitcode : Path)
  | analyse (options : List Bytes) (facts results : Path)
  | minimizeIr (output input : Path)
  | minimizeSource (copy : Path)
  deriving DecidableEq, Repr

namespace Call

/-- The call that arguments stand for. -/
def ofArguments? : List Bytes → Option Call
  | [_, copy] => some (minimizeSource ⟨copy⟩)
  | [input, _, output] => some (convert ⟨input⟩ ⟨output⟩)
  | [_, directory, _, context, bitcode] => some (facts context ⟨directory⟩ ⟨bitcode⟩)
  | first :: rest =>
    if first = utf8 "-fno-rtti" then
      match rest with
      | _ :: _ :: _ :: output :: _ :: source :: options =>
        some (compile options ⟨source⟩ ⟨output⟩)
      | _ => none
    else if first = utf8 "-j" then
      match rest.reverse with
      | results :: _ :: folder :: _ :: options =>
        some (analyse options.reverse ⟨folder⟩ ⟨results⟩)
      | _ => none
    else
      match rest.reverse with
      | input :: output :: _ => some (minimizeIr ⟨output⟩ ⟨input⟩)
      | _ => none
  | [] => none

/-- The arguments that are no names of files. -/
def options : Call → List Bytes
  | compile options .. | analyse options .. => options
  | facts context .. => [context]
  | _ => []

end Call

/-- The content that a tool finds in a file. -/
def content (t : FileTree) (place : Place) : Option Bytes := (read t place).toOption

/-- Writes what there is to write, if it can be written. -/
def put (t : FileTree) (place : Place) : Option Bytes → FileTree
  | none => t
  | some bytes => (write t place bytes).toOption.getD t

/-- Writes files into a directory; of two with one name the first counts. -/
def fill (t : FileTree) (directory : Place) : List (Bytes × Bytes) → FileTree
  | [] => t
  | (name, bytes) :: rest => put (fill t directory rest) (directory ++ [name]) (some bytes)

/-- What a call of a program does to the tree, from a directory. -/
def act (tools : Toolbox) (here : Place) (program : Path) (t : FileTree) :
    Call → FileTree × Finish
  | .compile options source output =>
    let effect := tools.compile program options (content t (placeOf here source))
    (put t (placeOf here output) effect.written, effect.finish)
  | .convert input output =>
    let effect := tools.convert program (content t (placeOf here input))
    (put t (placeOf here output) effect.written, effect.finish)
  | .facts context directory bitcode =>
    let harvest := tools.facts program context (content t (placeOf here bitcode))
    (fill t (placeOf here directory) harvest.files, harvest.finish)
  | .analyse options facts results =>
    let harvest :=
      tools.analyse program options fun name => content t (placeOf here facts ++ [name])
    (fill t (placeOf here results) harvest.files, harvest.finish)
  | .minimizeIr output input =>
    let (status, written) := tools.minimizeIr program (content t (placeOf here input))
    (put t (placeOf here output) written, .ended status)
  | .minimizeSource copy =>
    let (status, written) := tools.minimizeSource program (content t (placeOf here copy))
    (put t (placeOf here copy) written, .ended status)

end BugHunt.Proofs.Bench

namespace BugHunt.Proofs

open Places Trees Bench in
/-- A bench: where its runs start, where its temporary files lie, its tools, how it draws names for
temporary files, and in which order runs that go on side by side take their steps. -/
structure Bench where
  here : Place
  temporary : Path
  temporary_absolute : temporary.isAbsolute
  tools : Toolbox
  draw : FileTree → String → String → String
  turn : Nat → Nat
  draw_sign : ∀ t before after, ∀ c ∈ (draw t before after).toList, c.isAlphanum
  draw_fresh : ∀ t before after place, t.node? place ≠ none →
    utf8 (before ++ draw t before after ++ after) ∉ place

namespace Bench
open Places Trees Texts

/-- The files of a bench and the tools it has started, in their order. -/
structure State where
  tree : FileTree
  started : List Command
  turns : Nat

variable (b : Bench)

def place (p : Path) : Place := placeOf b.here p

/-- Whether nothing but slashes and dots follows a path's last name. Such a path stands for a
directory only. -/
def endsIdle (p : Path) : Bool := p.pieces.getLast?.any Path.isIdle

/-- The content of the file at a path. -/
def readAt (s : State) (p : Path) : Except Failure Bytes :=
  if endsIdle p then .error (.system .notDirectory) else read s.tree (b.place p)

/-- Where a command's paths are seen from. -/
def base (command : Command) : Place :=
  match command.directory with
  | none => b.here
  | some directory => b.place directory

/-- Whether a command can be started. -/
def canStart (command : Command) : Bool :=
  b.tools.starts command.program
    (((Call.ofArguments? command.arguments).map Call.options).getD command.arguments)

/-- What a started command does. A command that stands for no call does nothing. -/
def carryOut (command : Command) (t : FileTree) : FileTree × Finish :=
  match Call.ofArguments? command.arguments with
  | some call => act b.tools (b.base command) command.program t call
  | none => (t, .ended (.exited 127))

/-- A change of the tree, or why there is none. -/
def change (s : State) : Except Failure FileTree → Except Failure Unit × State
  | .ok tree => (.ok (), { s with tree })
  | .error cause => (.error cause, s)

def answerFile (s : State) : (r : FileRequest) → r.Answer × State
  | .read path => (b.readAt s path, s)
  | .exists path => (Trees.exists s.tree (b.place path), s)
  | .isFile path => (Trees.isFile s.tree (b.place path), s)
  | .createDirectories path => change s (createDirectories s.tree (b.place path))
  | .createDirectory path => change s (createDirectory s.tree (b.place path))
  | .write path content => change s (write s.tree (b.place path) content)
  | .makeExecutable path =>
    ((read s.tree (b.place path)).map fun _ => (), s)
  | .touch path => change s (touch s.tree (b.place path))
  | .copy source target => change s (copy s.tree (b.place source) (b.place target))
  | .rename source target => change s (rename s.tree (b.place source) (b.place target))
  | .remove path => change s (remove s.tree (b.place path))
  | .removeTree path => change s (removeTree s.tree (b.place path))

/-- Makes a file or a directory with a drawn name. -/
def makeTemporary (s : State) (directory : Path) (before after : String)
    (make : FileTree → Place → Except Failure FileTree) : Except Failure Path × State :=
  let path := directory / Path.ofString (before ++ b.draw s.tree before after ++ after)
  match make s.tree (b.place path) with
  | .ok tree => (.ok path, { s with tree })
  | .error cause => (.error (.making path cause), s)

def Finish.ending : Finish → Ending
  | ended status => .exited status
  | hung => .timedOut

/-- How the bench answers. -/
def host : Host State
  | .file request, s => b.answerFile s request
  | .temporaryDirectory before after, s =>
    b.makeTemporary s b.temporary before after createDirectory
  | .temporaryFile directory before after, s =>
    b.makeTemporary s directory before after fun t place => write t place []
  | .search _, s => ([], s)
  | .isCancelled, s => (false, s)
  | .choose _, s => (b.turn s.turns, { s with turns := s.turns + 1 })
  | .log _, s => ((), s)
  | .spawn command _, s =>
    if b.canStart command then
      (.ok ⟨s.started.length⟩, { s with started := s.started ++ [command] })
    else (.error (.system .noEntry), s)
  | .await child _, s =>
    match s.started[child.id]? with
    | none => (.error (.system .noChild), s)
    | some command =>
      let (tree, finish) := b.carryOut command s.tree
      (.ok finish.ending, { s with tree })
  | .terminate _, s => ((), s)
  | .collect child, s =>
    (((s.started[child.id]?).map b.tools.streams).getD ([], []), s)

/-! ## A bench for given tools -/

/-- The length of the longest name in a tree. -/
def longest (t : FileTree) : Nat :=
  t.nodes.foldr (fun entry most => (entry.1.map List.length).foldr max most) 0

def longName : Nat → String
  | 0 => ""
  | n + 1 => "x" ++ longName n

theorem longName_length (n : Nat) : (utf8 (longName n)).length = n := by
  induction n with
  | zero => rfl
  | succ n ih =>
    rw [longName, utf8_append, List.length_append, ih]
    have one : (utf8 "x").length = 1 := by decide
    omega

theorem longName_sign (n : Nat) : ∀ c ∈ (longName n).toList, c.isAlphanum := by
  induction n with
  | zero => simp [longName]
  | succ n ih =>
    intro c found
    rw [longName, String.toList_append, List.mem_append] at found
    rcases found with here | there
    · have signs : "x".toList = ['x'] := by decide
      rw [signs, List.mem_singleton] at here
      subst here
      decide
    · exact ih c there

theorem le_foldr_max (names : List Bytes) (most : Nat) :
    most ≤ (names.map List.length).foldr max most := by
  induction names with
  | nil => exact Nat.le_refl _
  | cons name rest ih =>
    simp only [List.map_cons, List.foldr_cons]
    omega

theorem length_le_foldr_max {names : List Bytes} {name : Bytes} (found : name ∈ names)
    (most : Nat) : name.length ≤ (names.map List.length).foldr max most := by
  induction names with
  | nil => cases found
  | cons first rest ih =>
    simp only [List.map_cons, List.foldr_cons]
    rcases List.mem_cons.mp found with rfl | later
    · omega
    · have := ih later
      omega

theorem length_le_longest {t : FileTree} {place : Place} {name : Bytes}
    (there : t.node? place ≠ none) (found : name ∈ place) : name.length ≤ longest t := by
  unfold FileTree.node? at there
  split at there
  · rename_i root
    subst root
    cases found
  · unfold longest
    generalize t.nodes = nodes at there
    induction nodes with
    | nil => exact absurd rfl there
    | cons entry rest ih =>
      obtain ⟨q, node⟩ := entry
      simp only [List.foldr_cons]
      rw [lookup_cons_ite] at there
      split at there
      · rename_i same
        subst same
        exact length_le_foldr_max found _
      · exact Nat.le_trans (ih there) (le_foldr_max _ _)

/-- A bench with given tools. Its temporary files have longer names than all that is there. -/
def desk (tools : Toolbox) : Bench where
  here := [utf8 "w"]
  temporary := "/tmp"
  temporary_absolute := by decide
  tools
  draw t _ _ := longName (longest t + 1)
  turn _ := 0
  draw_sign _ _ _ := longName_sign _
  draw_fresh t before after place there found := by
    have short := length_le_longest there found
    rw [utf8_append, utf8_append] at short
    simp only [List.length_append, longName_length] at short
    omega

end Bench
end BugHunt.Proofs
