import Mathlib.Data.List.Forall2
import BugHunt.Proofs.Stages
/-!
The recursive call is told to both minimizers word for word: a shell reads it off the script of
the one, and the options of the other list it.
-/

namespace BugHunt.Proofs.RecursiveCall
open Asking Toolless Stages

/-! ## The words of a command -/

/-- How the next character of a command is taken. -/
inductive Mode where
  | plain
  | quoted
  | escaped
  deriving DecidableEq, Repr

/-- What a shell has read of a command: its finished words, and what there is of a word that has
begun. -/
structure Reading where
  words : List (List Char)
  word : Option (List Char)
  mode : Mode

/-- Blanks and ends of lines separate words. -/
def isBlank (c : Char) : Bool := c = ' ' || c = '\t' || c = '\n'

namespace Reading

def push (r : Reading) (c : Char) : Reading :=
  { r with word := some (r.word.getD [] ++ [c]), mode := if r.mode = .escaped then .plain else r.mode }

/-- The words so far, if no more were to come. -/
def all (r : Reading) : List (List Char) := r.words ++ r.word.toList

/-- Single quotes are literal up to the next one; a backslash outside of them takes the next
character as it is. -/
def next (r : Reading) (c : Char) : Reading :=
  match r.mode with
  | .escaped => r.push c
  | .quoted => if c = '\x27' then { r with mode := .plain } else r.push c
  | .plain =>
    if isBlank c then ⟨r.all, none, .plain⟩
    else if c = '\x27' then { r with word := some (r.word.getD []), mode := .quoted }
    else if c = '\\' then { r with mode := .escaped }
    else r.push c

def scan (r : Reading) (text : List Char) : Reading := text.foldl next r

def start (words : List (List Char)) : Reading := ⟨words, none, .plain⟩

end Reading

/-- The words of a command, if no quote and no backslash is left open. -/
def shellWords (text : String) : Option (List String) :=
  let r := (Reading.start []).scan text.toList
  if r.mode = .plain then some (r.all.map String.ofList) else none

/-- Whether a shell takes a text for one word. -/
def Reads (text word : String) : Prop :=
  ∀ words, (Reading.start words).scan text.toList = ⟨words, some word.toList, .plain⟩

theorem scan_append (r : Reading) (s t : List Char) : r.scan (s ++ t) = (r.scan s).scan t :=
  List.foldl_append

theorem scan_cons (r : Reading) (c : Char) (t : List Char) : r.scan (c :: t) = (r.next c).scan t :=
  rfl

/-- Within quotes a text is read as it is; a quote in it ends them and begins them again. -/
theorem scan_escapeQuote (words : List (List Char)) (word text : List Char) :
    Reading.scan ⟨words, some word, .quoted⟩ (text.flatMap Recursion.escapeQuote) =
      ⟨words, some (word ++ text), .quoted⟩ := by
  induction text generalizing word with
  | nil => simp [Reading.scan]
  | cons c rest ih =>
    rw [List.flatMap_cons, scan_append]
    have once : Reading.scan ⟨words, some word, .quoted⟩ (Recursion.escapeQuote c) =
        ⟨words, some (word ++ [c]), .quoted⟩ := by
      by_cases quote : c = '\x27'
      · subst quote
        simp [Recursion.escapeQuote, Reading.scan, Reading.next, Reading.push, isBlank]
      · simp [Recursion.escapeQuote, quote, Reading.scan, Reading.next, Reading.push]
    rw [once, ih]
    simp

/-- A quoted word is read as the word, whatever characters it has. -/
theorem reads_quote (word : String) : Reads (Recursion.quote word) word := by
  intro words
  have opened : (Reading.start words).next '\x27' = ⟨words, some [], .quoted⟩ := by
    simp [Reading.start, Reading.next, isBlank]
  rw [Recursion.quote, String.toList_ofList, List.cons_append, scan_cons, opened, scan_append,
    scan_escapeQuote]
  simp [Reading.scan, Reading.next]

/-- A character that means itself outside of quotes. -/
def isPlain (c : Char) : Bool := !isBlank c && c ≠ '\x27' && c ≠ '\\'

theorem next_of_isPlain {words : List (List Char)} {word : Option (List Char)} {c : Char}
    (plain : isPlain c) :
    Reading.next ⟨words, word, .plain⟩ c = ⟨words, some (word.getD [] ++ [c]), .plain⟩ := by
  simp only [isPlain, Bool.and_eq_true, Bool.not_eq_true', decide_eq_true_eq] at plain
  simp [Reading.next, Reading.push, plain]

theorem scan_of_isPlain {text : List Char} (plain : text.all isPlain) (words : List (List Char))
    (word : List Char) :
    Reading.scan ⟨words, some word, .plain⟩ text = ⟨words, some (word ++ text), .plain⟩ := by
  induction text generalizing word with
  | nil => simp [Reading.scan]
  | cons c rest ih =>
    rw [List.all_cons, Bool.and_eq_true] at plain
    rw [scan_cons, next_of_isPlain plain.1, ih plain.2]
    simp

theorem reads_of_isPlain {word : String} (some : word.toList ≠ []) (plain : word.toList.all isPlain) :
    Reads word word := by
  intro words
  obtain ⟨c, rest, chars⟩ := List.exists_cons_of_ne_nil some
  rw [chars, List.all_cons, Bool.and_eq_true] at plain
  rw [chars, scan_cons, Reading.start, next_of_isPlain plain.1, scan_of_isPlain plain.2]
  rfl

/-- Texts that are read as words, with a blank between them, are read as those words. -/
theorem scan_intercalate {texts words : List String} (reads : List.Forall₂ Reads texts words)
    (before : List (List Char)) :
    let r := (Reading.start before).scan ([' '].intercalate (texts.map String.toList))
    r.mode = .plain ∧ r.all = before ++ words.map String.toList := by
  induction reads generalizing before with
  | nil => simp [Reading.scan, Reading.start, Reading.all]
  | @cons text word texts words first rest ih =>
    cases rest with
    | nil =>
      simp [first before, Reading.all]
    | @cons second other texts words again rest =>
      simp only [List.map_cons, List.intercalate_cons_cons, List.append_assoc]
      rw [scan_append, first before, List.singleton_append, scan_cons]
      have ended : Reading.next ⟨before, some word.toList, .plain⟩ ' ' =
          .start (before ++ [word.toList]) := rfl
      rw [ended]
      simpa using ih (before ++ [word.toList])

theorem shellWords_intercalate {texts words : List String}
    (reads : List.Forall₂ Reads texts words) :
    shellWords (" ".intercalate texts) = some words := by
  obtain ⟨plain, all⟩ := scan_intercalate reads []
  rw [shellWords, String.toList_intercalate]
  have blank : " ".toList = [' '] := by decide
  simp only [blank, plain, all, if_true]
  simp [Function.comp_def]

theorem forall₂_quote (words : List String) :
    List.Forall₂ Reads (words.map Recursion.quote) words := by
  induction words with
  | nil => exact .nil
  | cons word rest ih => exact .cons (reads_quote word) ih

/-- A shell reads the script's command as the recursive call on the candidate. -/
theorem shellWords_scriptBody (c : Config) (name : String) :
    shellWords (Recursion.scriptBody c name) = some ("exec" :: Recursion.words c ++ [name]) := by
  have exec : Reads "exec" "exec" := reads_of_isPlain (by decide) (by decide)
  have switch : Reads "--no-reduce" "--no-reduce" := reads_of_isPlain (by decide) (by decide)
  have arguments := List.rel_append (forall₂_quote c.passthroughArgs)
    (.cons (reads_quote name) .nil)
  have command := List.Forall₂.cons exec
    (.cons (reads_quote c.selfExe.display) (.cons switch arguments))
  unfold Recursion.scriptBody Recursion.words
  simp only [List.cons_append]
  exact shellWords_intercalate command

example : shellWords "exec \x27it\x27\\\x27\x27s $1\x27 \x27\x27" = some ["exec", "it\x27s $1", ""] := by
  decide +kernel

/-! ## The words that options tell -/

/-- What stands in an option after its name. -/
def valueOf? (name option : String) : Option String :=
  if name.toList.isPrefixOf option.toList then
    some (String.ofList (option.toList.drop name.toList.length))
  else none

/-- The call that options tell: the one test and its arguments, in their order. -/
def told (options : List String) : Option (List String) :=
  match options.filterMap (valueOf? "--test=") with
  | [test] => some (test :: options.filterMap (valueOf? "--test-arg="))
  | _ => none

theorem valueOf?_append (name value : String) : valueOf? name (name ++ value) = some value := by
  have begins : name.toList.isPrefixOf (name ++ value).toList := by
    simp [List.isPrefixOf_iff_prefix]
  rw [valueOf?, if_pos begins]
  simp

/-- No option is both a test and an argument of one. -/
theorem valueOf?_argument (value : String) : valueOf? "--test=" ("--test-arg=" ++ value) = none := by
  simp [valueOf?]

theorem valueOf?_test (value : String) : valueOf? "--test-arg=" ("--test=" ++ value) = none := by
  simp [valueOf?]

/-- The options that tell a minimizer a call are read as that call. -/
theorem told_options (test : String) (arguments : List String) :
    told (("--test=" ++ test) :: arguments.map ("--test-arg=" ++ ·)) = some (test :: arguments) := by
  have noTests : (arguments.map ("--test-arg=" ++ ·)).filterMap (valueOf? "--test=") = [] := by
    simp [List.filterMap_map, valueOf?_argument]
  have all : (arguments.map ("--test-arg=" ++ ·)).filterMap (valueOf? "--test-arg=") =
      arguments := by
    simp [List.filterMap_map, valueOf?_append]
  rw [told, List.filterMap_cons, valueOf?_append, noTests, List.filterMap_cons, valueOf?_test, all]

theorem told_testOptions (c : Config) :
    told (Recursion.testOptions c) = some (Recursion.words c) := by
  have switch : "--test-arg=--no-reduce" = "--test-arg=" ++ "--no-reduce" := by decide
  have options : Recursion.testOptions c = ("--test=" ++ c.selfExe.display) ::
      ("--no-reduce" :: c.passthroughArgs).map ("--test-arg=" ++ ·) := by
    rw [Recursion.testOptions, switch]
    rfl
  rw [options, told_options]
  rfl

/-! ## The calls in runs -/

/-- Whether a request writes nothing but one content to files. -/
def Writes (content : Bytes) : Request → Prop
  | .file (.write _ written) => written = content
  | _ => True

/-- Whether a request starts nothing but commands of some kind. -/
def Starts (kind : Command → Prop) : Request → Prop
  | .spawn command _ => kind command
  | _ => True

theorem Running.writes {command : Command} {memory : Option Nat} {content : Bytes} (r : Request)
    (running : Running command memory r) : Writes content r := by
  cases running <;> trivial

theorem Running.starts {command : Command} {memory : Option Nat} {kind : Command → Prop}
    (isKind : kind command) (r : Request) (running : Running command memory r) : Starts kind r := by
  cases running with
  | spawn => exact isKind
  | _ => trivial

theorem permits_starts (kind : Command → Prop) : Permits (Starts kind) kind where
  discreet r discreet := by
    cases r with
    | spawn command memory => exact discreet.elim
    | _ => trivial
  running _ _ r isKind := Running.starts isKind r

/-- Reducing IR starts nothing but the assembler and a minimizer that is told the recursive call. -/
theorem within_reduceIr (c : Config) (ir : Path) :
    Within (Starts fun command => command.program = c.tools.llvmAs ∨
      ∃ output input : Path, command.arguments =
        (Recursion.testOptions c).map utf8 ++ [utf8 "-o", output.bytes, input.bytes])
      (Reduce.reduceIr c ir) := by
  unfold Reduce.reduceIr
  refine .bind (.monadLift (asks_request trivial)) fun done => ?_
  cases done
  · refine .bind (.monadLift (asks_request trivial)) fun _ =>
      .bind (within_minimize c _ ir (Running.starts (.inr ?_))) fun _ =>
        .bind (.adapt (within_assemble (permits_starts _) c _ _ fun _ _ => .inl rfl)) fun _ => .pure _
    exact ⟨_, _, by simp [Command.ofProgram, Command.texts, Command.text, Command.path,
      Command.arg, Command.within]; exact ⟨rfl, rfl⟩⟩
  · exact .bind (.monadLift (asks_request trivial)) fun _ => .pure _

theorem within_reduceCopy (c : Config) (a : Artifact) (root copy directory : Path) :
    Within (Writes (Recursion.script (Recursion.scriptBody c (Reduce.sourceName a))))
      (Reduce.reduceCopy c a root copy directory) := by
  unfold Reduce.reduceCopy
  refine .bind (.orFail (asks_request rfl)) fun _ => .bind (.orFail (asks_request trivial)) fun _ =>
    .bind (.monadLift (asks_request trivial)) fun _ => .cleaningUp (within_minimize c _ _ Running.writes)
      fun result => ?_
  cases result with
  | ok _ => trivial
  | error _ => exact .bind (asks_request trivial) fun _ => trivial

/-- Reducing a source writes nothing but the script of the recursive call. -/
theorem within_reduceSource (c : Config) (a : Artifact) :
    Within (Writes (Recursion.script (Recursion.scriptBody c (Reduce.sourceName a))))
      (Reduce.reduceSource c a) := by
  unfold Reduce.reduceSource
  refine .bind (.monadLift (asks_request trivial)) fun done => ?_
  cases done
  · exact .bind (.orFail (asks_request trivial)) fun _ =>
      .bind (.orFail (asks_request trivial)) fun directory =>
        .bind (.cleaningUp (within_reduceCopy c a _ _ directory) fun _ =>
          .bind (asks_request trivial) fun _ => trivial) fun _ => .pure _
  · exact .bind (.monadLift (asks_request trivial)) fun _ => .pure _

end BugHunt.Proofs.RecursiveCall
