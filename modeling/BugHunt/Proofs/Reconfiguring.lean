import BugHunt.Proofs.Anchoring
import BugHunt.Proofs.PassThrough
/-!
The recursive call sees the configuration of the run that makes it: from every directory the
arguments and the settings make up the same paths, tools, limits and worker threads.
-/

namespace BugHunt.Proofs.Reconfiguring
open Config AbsoluteForms Anchoring PassThrough

/-- The settings leave something to check: a set of flags and an assertion. -/
structure Ready (s : Settings) : Prop where
  optLevels : (s.compiler.optLevels.getD defaultOptLevels).isEmpty = false
  assertions : (s.analysis.assertions.getD defaultAssertions).isEmpty = false

/-- Where the values of a configuration come from. -/
structure Sources (around : Surroundings) (o : Overrides) (s : Settings) (c : Config) : Prop where
  cores : c.cores = o.cores.getD around.cores
  processes : c.processes = o.processes.getD c.cores
  engine : c.engine = if o.interpreter then .interpreted else .compiled
  buildRoot : c.buildRoot =
    Path.absolute around.startDirectory (o.buildRoot.getD ".out/build")
  analysis : c.analysis =
    anchorTool around.startDirectory ⟨[]⟩ (o.analysis.getD "pointer-analysis")
  cacheRoot : c.cacheRoot = Path.absolute around.startDirectory
    (o.cacheRoot.getD (around.temporaryDirectory / defaultCacheName))
  outputRoot : c.outputRoot = Path.absolute around.startDirectory (o.outputRoot.getD ".")
  searchRoots : c.searchRoots = if o.directories.isEmpty
    then (s.search.roots.map (·.map Path.ofString)).getD defaultSearchRoots else o.directories
  contextSensitivity : c.contextSensitivity =
    (o.contextSensitivity <|> s.analysis.contextSensitivity).getD defaultContextSensitivity
  tools : c.tools =
    resolveTools around.startDirectory (settingsDir o.configFile) c.buildRoot s.tools
  project : c.project = choosePath around.startDirectory (settingsDir o.configFile) o.project
    s.analysis.project (anchor around.startDirectory ⟨[]⟩ defaultProject)
  libraryDir : c.libraryDir = choosePath around.startDirectory (settingsDir o.configFile)
    o.libraryDir s.analysis.libraryDir (c.buildRoot / "llvm")
  configFile : c.configFile = o.configFile.map (Path.absolute around.startDirectory)
  compileTimeout : c.compileTimeout = 1000 * s.timeouts.compileSecs.getD defaultCompileSecs
  analysisTimeout : c.analysisTimeout = 1000 * s.timeouts.analysisSecs.getD defaultAnalysisSecs
  memoryLimit : c.memoryLimit = match s.limits.memoryBytes with
    | some 0 => none
    | some bytes => some bytes
    | none => some defaultMemoryLimit
  optLevels : c.optLevels = s.compiler.optLevels.getD defaultOptLevels
  extraArgs : c.extraArgs = s.compiler.extraArgs
  assertions : c.assertions = s.analysis.assertions.getD defaultAssertions

variable {around : Surroundings} {o : Overrides} {s : Settings} {c : Config}

theorem bootstrap_inv (ok : bootstrap around o s = .ok c) :
    Ready s ∧ checkWorkers c.cores c.processes = .ok () ∧ Sources around o s c := by
  unfold bootstrap at ok
  cases workers : checkWorkers (o.cores.getD around.cores)
      (o.processes.getD (o.cores.getD around.cores)) with
  | error e => simp [workers, bind, Except.bind] at ok
  | ok _ =>
    simp only [workers, bind, Except.bind] at ok
    split at ok
    · cases ok
    · rename_i someLevels
      split at ok
      · cases ok
      · rename_i someAssertions
        obtain rfl := Except.ok.inj ok
        refine ⟨⟨by simpa using someLevels, by simpa using someAssertions⟩, workers, ?_⟩
        constructor
        case searchRoots => cases s.search.roots <;> rfl
        all_goals rfl

theorem bootstrap_ok (ready : Ready s) (workers : checkWorkers (o.cores.getD around.cores)
    (o.processes.getD (o.cores.getD around.cores)) = .ok ()) : ∃ c, bootstrap around o s = .ok c := by
  unfold bootstrap
  simp only [workers, bind, Except.bind, ready.optLevels, ready.assertions]
  exact ⟨_, rfl⟩

/-! ## Worker threads -/

theorem workers_of_checkWorkers {cores processes : Nat}
    (ok : checkWorkers cores processes = .ok ()) : 0 < processes ∧ processes ≤ cores := by
  unfold checkWorkers at ok
  split at ok
  · cases ok
  · rename_i some
    split at ok
    · cases ok
    · rename_i enough
      simp only [Bool.or_eq_true, decide_eq_true_eq, not_or] at some
      omega

/-- One process with all the threads of an analysis is a fair share. -/
theorem checkWorkers_jobs (ok : checkWorkers c.cores c.processes = .ok ()) :
    checkWorkers c.jobs 1 = .ok () := by
  obtain ⟨some, enough⟩ := workers_of_checkWorkers ok
  have jobs : 0 < c.jobs := Nat.div_pos enough some
  have notZero : c.jobs ≠ 0 := by omega
  simp [checkWorkers, Nat.mod_one, notZero, Nat.not_lt.mpr jobs]

/-! ## Paths -/

theorem nil_join (p : Path) : (⟨[]⟩ : Path).join p = p := by
  unfold Path.join
  split <;> rfl

/-- What the paths that are given have in common, and the directories that they are seen from. -/
structure Plain (around : Surroundings) (o : Overrides) (s : Settings) : Prop where
  directory : IsDirectory around.startDirectory
  start : Textual around.startDirectory
  temporary : Textual around.temporaryDirectory
  buildRoot : ∀ p, o.buildRoot = some p → Given p
  analysis : ∀ p, o.analysis = some p → Given p
  cacheRoot : ∀ p, o.cacheRoot = some p → Given p
  project : ∀ p, o.project = some p → Given p
  libraryDir : ∀ p, o.libraryDir = some p → Given p
  configFile : ∀ p, o.configFile = some p → Given p ∧ p.fileName? ≠ none
  defaults : o.configFile = none → s = {}
  tools : ∀ text, some text ∈ [s.tools.clang, s.tools.clangxx, s.tools.llvmAs, s.tools.llvmDis,
    s.tools.llvmReduce, s.tools.creduce, s.tools.souffle, s.tools.git, s.tools.factgen] → text ≠ ""
  settings : ∀ text, some text ∈ [s.analysis.project, s.analysis.libraryDir] → text ≠ ""
  cores : around.cores ≤ CommandLine.largest ∧ ∀ n, o.cores = some n → n ≤ CommandLine.largest

theorem given_ofString {text : String} (some : text ≠ "") : Given (Path.ofString text) :=
  ⟨Texts.ofString_ne_nil some, text, rfl⟩

/-- A path in its absolute form, which is shown as it is. -/
structure Fixed (p : Path) : Prop where
  settled : Settled p
  textual : Textual p

theorem Fixed.given {p : Path} (fixed : Fixed p) : Given p := by
  refine ⟨fun none => ?_, fixed.textual⟩
  have absolute := fixed.settled.isAbsolute
  simp [Path.isAbsolute, none] at absolute

theorem fixed_absolute (plain : Plain around o s) {p : Path} (given : Given p) :
    Fixed (Path.absolute around.startDirectory p) :=
  ⟨settled_absolute plain.directory given.some,
    textual_absolute plain.directory plain.start given.textual⟩

theorem fixed_getD (plain : Plain around o s) {p : Option Path} {other : Path}
    (given : ∀ q, p = some q → Given q) (fallback : Given other) :
    Fixed (Path.absolute around.startDirectory (p.getD other)) := by
  cases p with
  | none => exact fixed_absolute plain fallback
  | some q => exact fixed_absolute plain (given q rfl)

theorem textual_settingsDir (plain : Plain around o s) : Textual (settingsDir o.configFile) := by
  cases file : o.configFile with
  | none => exact ⟨"", rfl⟩
  | some path =>
    obtain ⟨given, named⟩ := plain.configFile path file
    obtain ⟨name, named⟩ := Option.ne_none_iff_exists'.mp named
    obtain ⟨d, isParent, parent⟩ := parent_of_names (names_of_fileName named)
    rw [settingsDir, Option.bind_some, isParent]
    exact parent.textual given.textual

theorem join_ne_nil {p q : Path} (some : q.bytes ≠ []) : (p.join q).bytes ≠ [] := by
  cases absolute : q.isAbsolute with
  | true => rwa [Path.join, if_pos absolute]
  | false =>
    rw [Names.join_bytes absolute]
    simp [some]

theorem given_join {p q : Path} (textual : Textual p) (given : Given q) : Given (p.join q) :=
  ⟨join_ne_nil given.some, textual_join textual given.textual⟩

/-- A path of the command line, the settings or the defaults is fixed once it is chosen. -/
theorem fixed_choosePath (plain : Plain around o s) {given : Option Path}
    {configured : Option String} {fallback : Path} (isGiven : ∀ p, given = some p → Given p)
    (isConfigured : ∀ text, configured = some text → text ≠ "") (fixed : Fixed fallback) :
    Fixed (choosePath around.startDirectory (settingsDir o.configFile) given configured fallback) := by
  cases given with
  | some p =>
    rw [choosePath, anchor, nil_join]
    exact fixed_absolute plain (isGiven p rfl)
  | none =>
    cases configured with
    | some text =>
      exact fixed_absolute plain
        (given_join (textual_settingsDir plain) (given_ofString (isConfigured text rfl)))
    | none => exact fixed

/-- A path that leads to a tool, or the name of one, is found again from everywhere. -/
theorem anchorTool_again {start p : Path} (directory : IsDirectory start) (some : p.bytes ≠ [])
    (elsewhere : Path) :
    anchorTool elsewhere ⟨[]⟩ (anchorTool start ⟨[]⟩ p) = anchorTool start ⟨[]⟩ p := by
  by_cases bare : isBareName p
  · rw [anchorTool, anchorTool, if_pos bare, if_pos bare]
  · have fixed := settled_absolute directory some
    have notBare : isBareName (Path.absolute start p) = false := by
      have absolute := fixed.isAbsolute
      unfold isBareName Path.components
      rw [absolute]
      dsimp only
      split
      · rename_i only
        cases (List.cons.inj only).1
      · rfl
    have seen : anchorTool start ⟨[]⟩ p = Path.absolute start p := by
      rw [anchorTool, if_neg bare, anchor, nil_join]
    rw [seen, anchorTool, notBare, anchor, nil_join, fixed.absolute]
    rfl

theorem anchorTool_settings {start file q : Path} (directory : IsDirectory start)
    (named : file.fileName? ≠ none) (some : q.bytes ≠ []) (elsewhere : Path) :
    anchorTool elsewhere (settingsDir (Option.some (Path.absolute start file))) q =
      anchorTool start (settingsDir (Option.some file)) q := by
  obtain ⟨name, named⟩ := Option.ne_none_iff_exists'.mp named
  unfold anchorTool
  rw [anchor_settingsDir directory named some]

/-- The settings name the same tools wherever their file is named from. -/
theorem resolveTools_again (plain : Plain around o s) (buildRoot elsewhere : Path) :
    resolveTools elsewhere
        (settingsDir (o.configFile.map (Path.absolute around.startDirectory))) buildRoot s.tools =
      resolveTools around.startDirectory (settingsDir o.configFile) buildRoot s.tools := by
  cases file : o.configFile with
  | none =>
    rw [plain.defaults file]
    rfl
  | some path =>
    have seen {text : String} (among : some text ∈ [s.tools.clang, s.tools.clangxx, s.tools.llvmAs,
        s.tools.llvmDis, s.tools.llvmReduce, s.tools.creduce, s.tools.souffle, s.tools.git,
        s.tools.factgen]) :
        anchorTool elsewhere (settingsDir (some (Path.absolute around.startDirectory path)))
            (Path.ofString text) =
          anchorTool around.startDirectory (settingsDir (some path)) (Path.ofString text) :=
      anchorTool_settings plain.directory (plain.configFile path file).2
        (given_ofString (plain.tools text among)).some elsewhere
    unfold resolveTools
    rw [Option.map_some]
    dsimp only
    congr 1
    all_goals
      split
      · rename_i isSet
        exact seen (by simp [isSet])
      · rfl

/-- What the recursive call is to see again of a configuration. -/
structure SameCall (c c' : Config) : Prop where
  buildRoot : c'.buildRoot = c.buildRoot
  analysis : c'.analysis = c.analysis
  cacheRoot : c'.cacheRoot = c.cacheRoot
  contextSensitivity : c'.contextSensitivity = c.contextSensitivity
  engine : c'.engine = c.engine
  tools : c'.tools = c.tools
  compileTimeout : c'.compileTimeout = c.compileTimeout
  analysisTimeout : c'.analysisTimeout = c.analysisTimeout
  memoryLimit : c'.memoryLimit = c.memoryLimit
  optLevels : c'.optLevels = c.optLevels
  extraArgs : c'.extraArgs = c.extraArgs
  assertions : c'.assertions = c.assertions
  configFile : c'.configFile = c.configFile
  jobs : c'.jobs = c.jobs
  interpreted : c.engine = .interpreted → c'.project = c.project ∧ c'.libraryDir = c.libraryDir

/-- The paths of a configuration are fixed, but for the name of the analysis. -/
structure FixedPaths (c : Config) : Prop where
  buildRoot : Fixed c.buildRoot
  cacheRoot : Fixed c.cacheRoot
  project : Fixed c.project
  libraryDir : Fixed c.libraryDir
  configFile : ∀ file, c.configFile = some file → Fixed file

theorem fixedPaths (plain : Plain around o s) (sources : Sources around o s c) : FixedPaths c := by
  have buildRoot : Fixed c.buildRoot := by
    rw [sources.buildRoot]
    exact fixed_getD plain plain.buildRoot (given_ofString (by decide))
  refine ⟨buildRoot, ?_, ?_, ?_, ?_⟩
  · rw [sources.cacheRoot]
    exact fixed_getD plain plain.cacheRoot (given_join plain.temporary (given_ofString (by decide)))
  · rw [sources.project]
    refine fixed_choosePath plain plain.project
      (fun text isSet => plain.settings text (by simp [isSet])) ?_
    rw [anchor, nil_join]
    exact fixed_absolute plain (given_ofString (by decide))
  · rw [sources.libraryDir]
    exact fixed_choosePath plain plain.libraryDir
      (fun text isSet => plain.settings text (by simp [isSet]))
      ⟨settled_entry buildRoot.settled ⟨by decide, by decide⟩,
        textual_join buildRoot.textual ⟨"llvm", rfl⟩⟩
  · intro file isFile
    rw [sources.configFile, Option.map_eq_some_iff] at isFile
    obtain ⟨path, given, rfl⟩ := isFile
    exact fixed_absolute plain (plain.configFile path given).1

theorem worded (plain : Plain around o s) (sources : Sources around o s c) : Worded c := by
  have fixed := fixedPaths plain sources
  refine ⟨fixed.buildRoot.given, ?_, fixed.cacheRoot.given, fun file isFile =>
    (fixed.configFile file isFile).given, fixed.project.given, fixed.libraryDir.given, ?_⟩
  · have given : Given (o.analysis.getD "pointer-analysis") := by
      cases isGiven : o.analysis with
      | none => exact given_ofString (by decide)
      | some p => exact plain.analysis p isGiven
    rw [sources.analysis, anchorTool]
    split
    · exact given
    · rw [anchor, nil_join]
      exact (fixed_absolute plain given).given
  · have cores : c.cores ≤ CommandLine.largest := by
      rw [sources.cores]
      cases isGiven : o.cores with
      | none => exact plain.cores.1
      | some n => exact plain.cores.2 n isGiven
    exact Nat.le_trans (Nat.div_le_self ..) cores

def atWork : Surroundings := ⟨"/home/w", "/tmp", "/usr/bin/pareduce", 8⟩

/-- Options whose paths are relative, with dots and slashes that mean nothing. -/
def interpreting : Overrides where
  processes := some 4
  interpreter := true
  buildRoot := some ".//build/"
  analysis := some "tools/../analysis"
  libraryDir := some "lib"
  configFile := some "conf/./p.toml"

/-- Settings with a tool beside the settings file, a tool on the search path and a project. -/
def configured : Settings where
  tools := { clang := some "bin/clang", creduce := some "creduce" }
  analysis := { project := some "../debug.project" }

theorem plain_atWork : Plain atWork interpreting configured where
  directory := ⟨[utf8 "home", utf8 "w"], by
    intro name found
    simp only [List.mem_cons, List.not_mem_nil, or_false] at found
    rcases found with rfl | rfl <;> exact ⟨by decide, by decide⟩, by decide⟩
  start := ⟨"/home/w", rfl⟩
  temporary := ⟨"/tmp", rfl⟩
  buildRoot p isGiven := Option.some.inj isGiven ▸ given_ofString (by decide)
  analysis p isGiven := Option.some.inj isGiven ▸ given_ofString (by decide)
  cacheRoot p isGiven := nomatch isGiven
  project p isGiven := nomatch isGiven
  libraryDir p isGiven := Option.some.inj isGiven ▸ given_ofString (by decide)
  configFile p isGiven := Option.some.inj isGiven ▸ ⟨given_ofString (by decide), by decide⟩
  defaults none := nomatch none
  tools := by
    rintro text among rfl
    exact absurd among (by decide)
  settings := by
    rintro text among rfl
    exact absurd among (by decide)
  cores := ⟨by decide, nofun⟩

end BugHunt.Proofs.Reconfiguring
