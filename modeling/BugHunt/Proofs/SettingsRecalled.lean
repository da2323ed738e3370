import BugHunt.Proofs.Reconfiguring
import BugHunt.Proofs.Tallying
import BugHunt.Proofs.VariantKeys
import BugHunt.Proofs.Walking
import BugHunt.Session
/-!
The settings of the recursive call: a settings file that a run has read is read again from every
directory. A run that has read none hands on nothing, and so its recursive call reads the default
file of the directory that it happens to run in.
-/

namespace BugHunt.Proofs.SettingsRecalled
open AbsoluteForms PassThrough Reconfiguring Runs Tallying Walking

/-- How a file tree answers what is asked of it from a directory. Nothing can be changed. -/
def disk (t : FileTree) (here : Place) : Host Unit
  | .file (.read path), s => ((t.read here path).mapError .system, s)
  | .file (.exists path), s => (t.exists here path, s)
  | .file (.isFile path), s => (t.isFile here path, s)
  | .file (.createDirectories _), s | .file (.createDirectory _), s | .file (.write ..), s
  | .file (.makeExecutable _), s | .file (.touch _), s | .file (.copy ..), s
  | .file (.rename ..), s | .file (.remove _), s | .file (.removeTree _), s =>
    (.error (.system .denied), s)
  | .temporaryDirectory .., s | .temporaryFile .., s => (.error (.system .denied), s)
  | .search _, s => ([], s)
  | .isCancelled, s => (false, s)
  | .choose _, s => ((0 : Nat), s)
  | .log _, s | .terminate _, s => ((), s)
  | .spawn .., s => (.error (.system .denied), s)
  | .await .., s => (.error (.system .noChild), s)
  | .collect _, s => (([], []), s)

variable {t : FileTree} {here : Place}

/-- Whether a file holds settings. -/
def Holds (t : FileTree) (here : Place) (path : Path) (settings : Settings) : Prop :=
  ∃ content text, t.read here path = .ok content ∧ Text.decode? content = some text ∧
    Settings.ofText text = .ok settings

theorem load_iff {path : Path} {settings : Settings} :
    (exec (disk t here) () (Settings.load path)).1 = .ok settings ↔ Holds t here path settings := by
  have asked : (Program.read path).run (disk t here) () =
      ((t.read here path).mapError Failure.system, ()) := rfl
  unfold Settings.load Holds
  rw [exec_bind, exec_orFail, asked]
  cases t.read here path with
  | error e => simp [mapError_error]
  | ok content =>
    simp only [mapError_ok, Except.ok.injEq]
    cases decoded : Text.decode? content with
    | none => simp [decoded]
    | some text =>
      cases read : Settings.ofText text with
      | error e => simp [decoded, read]
      | ok found => simp [decoded, read]

/-- The settings file that is read: the one asked for, else the default one if it is there. -/
def wanted (t : FileTree) (here : Place) (asked : Option Path) : Option Path :=
  asked.or (if t.exists here Settings.defaultFile then some Settings.defaultFile else none)

/-- Whether settings are those of a file, or the defaults where there is none. -/
def HoldsIn (t : FileTree) (here : Place) (settings : Settings) : Option Path → Prop
  | some path => Holds t here path settings
  | none => settings = {}

theorem load_file_iff {path : Path} {settings : Settings} {file : Option Path} :
    (exec (disk t here) () (do
      return (← Settings.load path, some path) : Action ConfigError (Settings × Option Path))).1 =
      .ok (settings, file) ↔ file = some path ∧ HoldsIn t here settings file := by
  have loads := @load_iff t here path settings
  rw [exec_bind]
  generalize exec (disk t here) () (Settings.load path) = loaded at loads
  obtain ⟨loaded, _⟩ := loaded
  constructor
  · intro ok
    cases loaded with
    | error e => cases ok
    | ok found =>
      obtain ⟨rfl, rfl⟩ := Prod.mk.inj (Except.ok.inj ok)
      exact ⟨rfl, loads.mp rfl⟩
  · rintro ⟨rfl, holds⟩
    obtain rfl : loaded = .ok settings := loads.mpr holds
    rfl

/-- What is chosen: the settings of the wanted file, which are the defaults if none is wanted. -/
theorem choose_iff {asked : Option Path} {settings : Settings} {file : Option Path} :
    (exec (disk t here) () (Settings.choose asked)).1 = .ok (settings, file) ↔
      file = wanted t here asked ∧ HoldsIn t here settings file := by
  unfold Settings.choose
  cases asked with
  | some path => exact load_file_iff
  | none =>
    have looked : (Program.exists Settings.defaultFile).run (disk t here) () =
        (t.exists here Settings.defaultFile, ()) := rfl
    dsimp only
    rw [exec_bind, exec_monadLift, looked, wanted, Option.none_or]
    cases t.exists here Settings.defaultFile with
    | true => exact load_file_iff
    | false =>
      simp only [Bool.false_eq_true, if_false, exec_pure, Except.ok.injEq, Prod.mk.injEq]
      constructor
      · rintro ⟨rfl, rfl⟩
        exact ⟨rfl, rfl⟩
      · rintro ⟨rfl, holds⟩
        exact ⟨holds.symm, rfl⟩

/-- The configuration of a run comes from the settings that are chosen. -/
theorem configure_iff {around : Surroundings} {o : Options} {c : Config} :
    (exec (disk t here) () (Session.configure around o)).1 = .ok c ↔ ∃ settings file,
      (exec (disk t here) () (Settings.choose o.configFile)).1 = .ok (settings, file) ∧
      Config.bootstrap around { o.toOverrides with configFile := file } settings = .ok c := by
  unfold Session.configure
  rw [exec_bind]
  generalize exec (disk t here) () (Settings.choose o.configFile) = chosen
  obtain ⟨chosen, _⟩ := chosen
  cases chosen with
  | error e => simp
  | ok chosen =>
    constructor
    · exact fun ok => ⟨chosen.1, chosen.2, rfl, ok⟩
    · rintro ⟨settings, file, same, ok⟩
      obtain rfl := Except.ok.inj same
      exact ok

/-- A run that starts in a directory of its tree, and what can be handed on of it. -/
structure HandedOn (t : FileTree) (home : Place) (around : Surroundings) (c : Config)
    (candidate : Bytes) : Prop where
  reached : Reached t home
  start : around.startDirectory = spelled [Path.slash] home false
  worded : Worded c
  undashed : Undashed c candidate
  short : ∀ file, c.configFile = some file → file.bytes.length ≤ FileTree.longestPath

/-- The recursive call is understood on the command line of every directory. When the run has read
a settings file, the call reads that file and the same settings. When it has read none, the call
reads none where the directory has no default file, and only there. -/
theorem settings_recalled {home : Place} {around : Surroundings} {o : Options} {c : Config}
    {candidate : Bytes} (handed : HandedOn t home around c candidate)
    (ok : (exec (disk t home) () (Session.configure around o)).1 = .ok c) (elsewhere : Place) :
    ∃ settings file o',
      (exec (disk t home) () (Settings.choose o.configFile)).1 = .ok (settings, file) ∧
      CommandLine.parse (recursiveCall c candidate) = .ok o' ∧
      (∀ path, file = some path →
        t.existing elsewhere (Path.absolute around.startDirectory path) true =
          t.existing home path true ∧
        (exec (disk t elsewhere) () (Settings.choose o'.configFile)).1 =
          .ok (settings, some (Path.absolute around.startDirectory path))) ∧
      (file = none → settings = {} ∧
        ((exec (disk t elsewhere) () (Settings.choose o'.configFile)).1 = .ok (settings, none) ↔
          t.exists elsewhere Settings.defaultFile = false)) := by
  obtain ⟨settings, file, chosen, made⟩ := configure_iff.mp ok
  obtain ⟨-, holds⟩ := choose_iff.mp chosen
  obtain ⟨-, -, sources⟩ := bootstrap_inv made
  refine ⟨settings, file, _, chosen, parse_recursiveCall handed.worded handed.undashed, ?_, ?_⟩
  · rintro path rfl
    have recalledFile : c.configFile = some (Path.absolute around.startDirectory path) :=
      sources.configFile
    obtain ⟨content, text, isRead, decoded, isSettings⟩ := holds
    obtain ⟨same, again⟩ := read_absolute handed.reached isRead handed.start
      (handed.short _ recalledFile) elsewhere
    refine ⟨same, choose_iff.mpr ⟨?_, content, text, again, decoded, isSettings⟩⟩
    rw [show (recalled c).configFile = c.configFile from rfl, recalledFile]
    rfl
  · rintro rfl
    have recalledFile : c.configFile = none := sources.configFile
    refine ⟨holds, ?_⟩
    rw [choose_iff, show (recalled c).configFile = c.configFile from rfl, recalledFile, wanted,
      Option.none_or]
    cases t.exists elsewhere Settings.defaultFile with
    | true => simp
    | false => exact ⟨fun _ => rfl, fun _ => ⟨rfl, holds⟩⟩

/-! ## A default file beside the output -/

/-- A directory with a program and a settings file, and an output directory with a default one. -/
def shelf : FileTree where
  nodes := [([utf8 "w"], .directory), ([utf8 "w", utf8 "p.toml"], .file [] false),
    ([utf8 "w", utf8 "out"], .directory),
    ([utf8 "w", utf8 "out", utf8 "pareduce.toml"], .file [] false)]

def around : Surroundings := ⟨"/w", "/tmp", "/usr/bin/pareduce", 1⟩

/-- A run with a settings file, or with none. -/
def running (file : Option Path) : Options where
  program := some "x.c"
  configFile := file

theorem shelf_reached : Reached shelf [utf8 "w"] where
  directory q within := by
    rcases List.prefix_cons_iff.mp within with rfl | ⟨r, rfl, rest⟩
    · rfl
    · rw [List.prefix_nil.mp rest]
      rfl
  named := by
    intro name found
    rw [List.mem_singleton.mp found]
    exact ⟨⟨by decide, by decide, by decide, by decide⟩, by decide⟩

theorem plain_running {file : Option Path}
    (given : ∀ p, file = some p → Given p ∧ p.fileName? ≠ none) :
    Plain around (running file).toOverrides {} where
  directory := ⟨[utf8 "w"], by
    intro name found
    rw [List.mem_singleton.mp found]
    exact ⟨by decide, by decide⟩, by decide⟩
  start := ⟨"/w", rfl⟩
  temporary := ⟨"/tmp", rfl⟩
  buildRoot p isGiven := nomatch isGiven
  analysis p isGiven := nomatch isGiven
  cacheRoot p isGiven := nomatch isGiven
  project p isGiven := nomatch isGiven
  libraryDir p isGiven := nomatch isGiven
  configFile := given
  defaults _ := rfl
  tools := by
    rintro text among rfl
    exact absurd among (by decide)
  settings := by
    rintro text among rfl
    exact absurd among (by decide)
  cores := ⟨by decide, nofun⟩

/-- The configuration of such a run. -/
def configured (file : Option Path) : Config :=
  ((Config.bootstrap around (running file).toOverrides {}).toOption).getD VariantKeys.plain

theorem default_missing : shelf.exists [utf8 "w"] Settings.defaultFile = false := by
  have free : shelf.node? ([utf8 "w"] ++ [utf8 "pareduce.toml"]) = none := by decide
  have named := @exists_entry shelf [utf8 "w"] rfl (utf8 "pareduce.toml")
    ⟨by decide, by decide, by decide, by decide⟩ (by decide)
    (fun _ isLink => nomatch free.symm.trans isLink)
  rw [free] at named
  exact named

theorem default_there : shelf.exists [utf8 "w", utf8 "out"] Settings.defaultFile = true := by
  have isFile : shelf.node? ([utf8 "w", utf8 "out"] ++ [utf8 "pareduce.toml"]) =
      some (.file [] false) := by decide
  have named := @exists_entry shelf [utf8 "w", utf8 "out"] rfl (utf8 "pareduce.toml")
    ⟨by decide, by decide, by decide, by decide⟩ (by decide)
    (fun _ other => nomatch isFile.symm.trans other)
  rw [isFile] at named
  exact named

theorem empty_holds : Holds shelf [utf8 "w"] "p.toml" {} :=
  ⟨[], "", @read_entry shelf [utf8 "w"] rfl (utf8 "p.toml")
    ⟨by decide, by decide, by decide, by decide⟩ (by decide) [] false (by decide), by decide +kernel,
    ok_of_toOption (by decide)⟩

/-- Settings that are read where the run starts are those of its configuration. -/
theorem configured_ok {file : Option Path} (holds : HoldsIn shelf [utf8 "w"] {} file)
    (isWanted : file = wanted shelf [utf8 "w"] file)
    (made : (Config.bootstrap around (running file).toOverrides {}).toOption =
      some (configured file)) :
    (exec (disk shelf [utf8 "w"]) () (Session.configure around (running file))).1 =
      .ok (configured file) :=
  configure_iff.mpr ⟨{}, file, choose_iff.mpr ⟨isWanted, holds⟩, ok_of_toOption made⟩

theorem handedOn_configured {file : Option Path}
    (given : ∀ p, file = some p → Given p ∧ p.fileName? ≠ none)
    (made : (Config.bootstrap around (running file).toOverrides {}).toOption =
      some (configured file))
    (undashed : ∀ told ∈ handedOn (configured file) ++ handedOnInterpreted (configured file),
      isDashed (utf8 told.2) = false)
    (short : (configured file).configFile.all (·.bytes.length ≤ FileTree.longestPath)) :
    HandedOn shelf [utf8 "w"] around (configured file) (utf8 "x.c") where
  reached := shelf_reached
  start := by decide
  worded := worded (plain_running given) (bootstrap_inv (ok_of_toOption made)).2.2
  undashed := ⟨undashed, by decide, by decide⟩
  short other isFile := by simpa [isFile] using short

/-- The settings file of a run is read again in its output directory, not the default one there. -/
theorem output_directory_recalls :
    ∃ o', CommandLine.parse (recursiveCall (configured (some "p.toml")) (utf8 "x.c")) = .ok o' ∧
      (exec (disk shelf [utf8 "w", utf8 "out"]) () (Settings.choose o'.configFile)).1 =
        .ok ({}, some "/w/p.toml") := by
  have made : (Config.bootstrap around (running (some "p.toml")).toOverrides {}).toOption =
      some (configured (some "p.toml")) := by decide
  have handed := @handedOn_configured (some "p.toml")
    (fun p same => Option.some.inj same ▸ ⟨given_ofString (by decide), by decide⟩) made
    (by decide +kernel) (by decide)
  obtain ⟨settings, file, o', chosen, parsed, again, -⟩ := settings_recalled handed
    (configured_ok empty_holds rfl made) [utf8 "w", utf8 "out"]
  have known := @choose_iff shelf [utf8 "w"] (some "p.toml") {} (some "p.toml") |>.mpr
    ⟨rfl, empty_holds⟩
  obtain ⟨rfl, rfl⟩ := Prod.mk.inj (Except.ok.inj (known.symm.trans chosen))
  have full : Path.absolute "/w" "p.toml" = "/w/p.toml" := by decide
  exact ⟨o', parsed, full ▸ (again _ rfl).2⟩

/-- A run that has read no settings file does not keep its recursive call from reading one. -/
theorem default_file_intrudes :
    ¬ ∀ (t : FileTree) (home elsewhere : Place) (around : Surroundings) (o o' : Options) (c : Config)
        (candidate : Bytes) (settings : Settings) (file : Option Path),
        HandedOn t home around c candidate →
        (exec (disk t home) () (Session.configure around o)).1 = .ok c →
        (exec (disk t home) () (Settings.choose o.configFile)).1 = .ok (settings, file) →
        CommandLine.parse (recursiveCall c candidate) = .ok o' →
        (exec (disk t elsewhere) () (Settings.choose o'.configFile)).1 =
          .ok (settings, file.map (Path.absolute around.startDirectory)) := by
  intro same
  have made : (Config.bootstrap around (running none).toOverrides {}).toOption =
      some (configured none) := by decide
  have handed := @handedOn_configured none (nofun) made (by decide +kernel) (by decide)
  have isWanted : none = wanted shelf [utf8 "w"] none := by
    rw [wanted, default_missing]
    rfl
  have missing : HoldsIn shelf [utf8 "w"] {} none := rfl
  have again := same shelf [utf8 "w"] [utf8 "w", utf8 "out"] around (running none) _
    (configured none) (utf8 "x.c") {} none handed (configured_ok missing isWanted made)
    (choose_iff.mpr ⟨isWanted, missing⟩) (parse_recursiveCall handed.worded handed.undashed)
  have none' : (configured none).configFile = none := by decide
  obtain ⟨noFile, -⟩ := choose_iff.mp again
  rw [show (recalled (configured none)).configFile = (configured none).configFile from rfl, none',
    wanted, default_there] at noFile
  cases noFile

end BugHunt.Proofs.SettingsRecalled
