import Mathlib.Data.List.Forall2
import BugHunt.Proofs.Reconfiguring
/-!
Which paths of a configuration mean the same from every directory. The paths of the run and of its
tools are made absolute, each from the directory that it is given in; the search roots are kept as
they are given, and so is a tool whose path is one name with a slash behind it.
-/

namespace BugHunt.Proofs.ConfigPaths
open Config Texts Names Places AbsoluteForms Anchoring Reconfiguring

/-! ## The names of absolute forms -/

section Forms

variable {start p q : Path}

theorem names_foldl_join {components : List Path.Component}
    (busy : ∀ component ∈ components, Busy component.piece) (base : Path) :
    names (components.foldl (fun q component => q.join ⟨component.piece⟩) base) =
      names base ++ components.map Path.Component.piece := by
  induction components generalizing base with
  | nil => simp
  | cons component rest ih =>
    rw [List.forall_mem_cons] at busy
    rw [List.foldl_cons, ih busy.2, names_join busy.1.relative, names_busy busy.1]
    simp

/-- A relative path is named from the directory that it is seen from, an absolute one from the
root. -/
theorem names_absolute (some : p.bytes ≠ []) :
    names (Path.absolute start p) = if p.isAbsolute then names p else names start ++ names p := by
  cases absolute : p.isAbsolute with
  | true =>
    rw [absolute_of_isAbsolute absolute, names_spelled (isLead_lead p) fun _ => busy_of_mem_names]
    rfl
  | false =>
    have base : (if twoSlashes p then (⟨[Path.slash, Path.slash]⟩ : Path)
        else if p.isAbsolute then ⟨[Path.slash]⟩ else start) = start := by
      rw [twoSlashes_of_relative absolute, absolute]
      rfl
    have busy : ∀ component ∈ p.components.filter (fun c => c != .root && c != .here),
        Busy component.piece := by
      intro component found
      apply @busy_of_mem_names p
      rw [← names_eq]
      exact List.mem_map_of_mem found
    have full := names_foldl_join busy start
    rw [names_eq] at full
    have closed (base : Path) : names (base.join ⟨[]⟩) = names base := by
      rw [names_join rfl, names_nil, List.append_nil]
    unfold twoSlashes at base
    rw [Path.absolute, Path.absolute?, if_neg some, Option.getD_some, base]
    split
    · rw [closed, full]
      rfl
    · rw [full]
      rfl

/-- A path `p` is `q` seen from the directory of `file`. The directory that a run starts in has no
part in it. -/
structure SeenFrom (file q p : Path) : Prop where
  absolute : p.isAbsolute
  names : names p = if q.isAbsolute then names q else (names file).dropLast ++ names q

theorem seenFrom_anchor {file : Path} (home : start.isAbsolute) (named : names file ≠ [])
    (some : q.bytes ≠ []) :
    SeenFrom (Path.absolute start file) q (anchor start (settingsDir (Option.some file)) q) := by
  obtain ⟨d, isParent, parent⟩ := parent_of_names named
  have dir : settingsDir (Option.some file) = d := by
    rw [settingsDir, Option.bind_some, isParent, Option.getD_some]
  have fileSome : file.bytes ≠ [] := by
    intro none
    obtain ⟨bytes⟩ := file
    obtain rfl : bytes = [] := none
    exact named names_nil
  have joined : (d.join q).bytes ≠ [] := join_ne_nil some
  rw [anchor, dir]
  refine ⟨isAbsolute_absoluteForm home joined, ?_⟩
  rw [names_absolute joined, names_absolute fileSome]
  cases absolute : q.isAbsolute with
  | true =>
    have same : d.join q = q := by rw [Path.join, if_pos absolute]
    rw [same, absolute]
    rfl
  | false =>
    rw [names_join absolute, parent.names]
    cases fileAbsolute : file.isAbsolute with
    | true =>
      have joinedAbsolute : (d.join q).isAbsolute := by
        rcases parent.absolute fileAbsolute with rfl | ⟨isAbsolute, -⟩
        · exact isAbsolute_join rfl
        · exact isAbsolute_join isAbsolute
      rw [joinedAbsolute]
      rfl
    | false =>
      rw [isAbsolute_join_of_relative absolute (parent.relative fileAbsolute)]
      simp only [Bool.false_eq_true, if_false]
      rw [List.dropLast_append_of_ne_nil named, List.append_assoc]

end Forms

/-! ## Names of commands -/

theorem isAbsolute_of_isBareName {p : Path} (bare : isBareName p) : p.isAbsolute = false := by
  cases absolute : p.isAbsolute with
  | false => rfl
  | true =>
    unfold isBareName Path.components at bare
    rw [absolute] at bare
    dsimp only at bare
    split at bare
    · rename_i only
      cases (List.cons.inj only).1
    · cases bare

/-- A path that leads somewhere from every directory, or the name of a command. -/
def Command (p : Path) : Prop := p.isAbsolute ∨ Proper p.bytes

variable {start dir p : Path}

theorem command_anchorTool (home : start.isAbsolute) (some : p.bytes ≠ []) :
    Command (anchorTool start dir p) ↔ (isBareName p → Proper p.bytes) := by
  unfold anchorTool Command
  by_cases bare : isBareName p
  · rw [if_pos bare, isAbsolute_of_isBareName bare]
    simp [bare]
  · rw [if_neg bare]
    have absolute : (anchor start dir p).isAbsolute :=
      isAbsolute_absoluteForm home (join_ne_nil some)
    simp [absolute, bare]

/-- A tool as the settings name it, else the one that stands for it. -/
def chooseTool (start settingsDir : Path) (configured : Option String) (fallback : Path) : Path :=
  match configured with
  | some text => anchorTool start settingsDir text
  | none => fallback

def configuredTools (t : ToolSettings) : List (Option String) :=
  [t.clang, t.clangxx, t.llvmAs, t.llvmDis, t.llvmReduce, t.creduce, t.souffle, t.git, t.factgen]

/-- The tools that are looked for by name when the settings name none. -/
def defaultCommands : List String :=
  ["clang", "clang++", "llvm-as", "llvm-dis", "llvm-reduce", "creduce", "souffle", "git"]

def defaultTools (buildRoot : Path) : List Path :=
  defaultCommands.map Path.ofString ++ [buildRoot / defaultFactgen]

def toolList (t : ToolPaths) : List Path :=
  [t.clang, t.clangxx, t.llvmAs, t.llvmDis, t.llvmReduce, t.creduce, t.souffle, t.git, t.factgen]

theorem toolList_resolveTools (start settingsDir buildRoot : Path) (t : ToolSettings) :
    toolList (resolveTools start settingsDir buildRoot t) =
      (configuredTools t).zipWith (chooseTool start settingsDir) (defaultTools buildRoot) := rfl

theorem command_defaultTools {buildRoot : Path} (absolute : buildRoot.isAbsolute) :
    ∀ p ∈ defaultTools buildRoot, Command p := by
  have long : ∀ name ∈ defaultCommands, '/' ∉ name.toList ∧ 2 < (utf8 name).length := by decide
  intro p found
  rcases List.mem_append.mp found with named | last
  · obtain ⟨name, among, rfl⟩ := List.mem_map.mp named
    exact .inr (proper_of_length (long name among).1 (long name among).2)
  · rw [List.mem_singleton.mp last]
    exact .inl (isAbsolute_join absolute)

/-! ## The whole configuration -/

/-- The paths of a configuration that are no commands. -/
def filesOf (c : Config) : List Path :=
  [c.buildRoot, c.outputRoot, c.cacheRoot, c.project, c.libraryDir] ++ c.configFile.toList ++
    c.searchRoots

/-- The commands of a configuration. -/
def commandsOf (c : Config) : List Path := c.analysis :: toolList c.tools

/-- A configuration that means the same from every directory. -/
structure Steady (c : Config) : Prop where
  files : ∀ p ∈ filesOf c, p.isAbsolute
  commands : ∀ p ∈ commandsOf c, Command p

variable {around : Surroundings} {o : Overrides} {s : Settings} {c : Config}

/-- The paths that the command line and the settings name are not empty. -/
structure Filled (o : Overrides) (s : Settings) : Prop where
  options : ∀ p, some p ∈ [o.buildRoot, o.analysis, o.cacheRoot, o.outputRoot, o.project,
    o.libraryDir, o.configFile] → p.bytes ≠ []
  settings : ∀ text, some text ∈ configuredTools s.tools ++
    [s.analysis.project, s.analysis.libraryDir] → text ≠ ""

/-- The commands that the command line and the settings name. -/
def commandsAsked (o : Overrides) (s : Settings) : List Path :=
  o.analysis.toList ++ (configuredTools s.tools).filterMap (·.map Path.ofString)

/-- The search roots that the command line, the settings and the defaults name. -/
def rootsAsked (o : Overrides) (s : Settings) : List Path :=
  if o.directories.isEmpty then (s.search.roots.map (·.map Path.ofString)).getD defaultSearchRoots
  else o.directories

theorem isAbsolute_choosePath (home : around.startDirectory.isAbsolute) {dir fallback : Path}
    {given : Option Path} {configured : Option String} (isGiven : ∀ p, given = some p → p.bytes ≠ [])
    (isConfigured : ∀ text, configured = some text → text ≠ "") (absolute : fallback.isAbsolute) :
    (choosePath around.startDirectory dir given configured fallback).isAbsolute := by
  cases given with
  | some p => exact isAbsolute_absoluteForm home (join_ne_nil (isGiven p rfl))
  | none =>
    cases configured with
    | some text =>
      exact isAbsolute_absoluteForm home (join_ne_nil (ofString_ne_nil (isConfigured text rfl)))
    | none => exact absolute

theorem isAbsolute_getD (home : around.startDirectory.isAbsolute) {given : Option Path}
    {fallback : Path} (isGiven : ∀ p, given = some p → p.bytes ≠ []) (some : fallback.bytes ≠ []) :
    (Path.absolute around.startDirectory (given.getD fallback)).isAbsolute := by
  cases given with
  | none => exact isAbsolute_absoluteForm home some
  | some p => exact isAbsolute_absoluteForm home (isGiven p rfl)

/-- All paths of a configuration but the search roots and the commands are absolute. -/
theorem isAbsolute_files (home : around.startDirectory.isAbsolute) (filled : Filled o s)
    (sources : Sources around o s c) : c.buildRoot.isAbsolute ∧
      ∀ p ∈ [c.buildRoot, c.outputRoot, c.cacheRoot, c.project, c.libraryDir] ++
        c.configFile.toList, p.isAbsolute := by
  have buildRoot : c.buildRoot.isAbsolute := by
    rw [sources.buildRoot]
    exact isAbsolute_getD home (fun p given => filled.options p (by simp [given]))
      (ofString_ne_nil (by decide))
  have outputRoot : c.outputRoot.isAbsolute := by
    rw [sources.outputRoot]
    exact isAbsolute_getD home (fun p given => filled.options p (by simp [given]))
      (ofString_ne_nil (by decide))
  have cacheRoot : c.cacheRoot.isAbsolute := by
    rw [sources.cacheRoot]
    exact isAbsolute_getD home (fun p given => filled.options p (by simp [given]))
      (join_ne_nil (ofString_ne_nil (by decide)))
  have project : c.project.isAbsolute := by
    rw [sources.project]
    exact isAbsolute_choosePath home (fun p given => filled.options p (by simp [given]))
      (fun text isSet => filled.settings text (by simp [isSet]))
      (isAbsolute_absoluteForm home (join_ne_nil (ofString_ne_nil (by decide))))
  have libraryDir : c.libraryDir.isAbsolute := by
    rw [sources.libraryDir]
    exact isAbsolute_choosePath home (fun p given => filled.options p (by simp [given]))
      (fun text isSet => filled.settings text (by simp [isSet])) (isAbsolute_join buildRoot)
  refine ⟨buildRoot, ?_⟩
  intro p found
  rcases List.mem_append.mp found with own | file
  · simp only [List.mem_cons, List.not_mem_nil, or_false] at own
    rcases own with rfl | rfl | rfl | rfl | rfl <;> assumption
  · rw [Option.mem_toList, sources.configFile, Option.map_eq_some_iff] at file
    obtain ⟨given, isGiven, rfl⟩ := file
    exact isAbsolute_absoluteForm home (filled.options given (by simp [isGiven]))

theorem command_chooseTool (home : around.startDirectory.isAbsolute) {dir fallback : Path}
    {configured : Option String} (some : ∀ text, configured = some text → text ≠ "")
    (isCommand : Command fallback) :
    Command (chooseTool around.startDirectory dir configured fallback) ↔
      ∀ text, configured = .some text →
        isBareName (Path.ofString text) → Proper (Path.ofString text).bytes := by
  cases configured with
  | none => simp [chooseTool, isCommand]
  | some text =>
    rw [chooseTool, command_anchorTool home (ofString_ne_nil (some text rfl))]
    simp

/-! ## Lists side by side -/

theorem forall₂_zipWith {R : α → γ → Prop} {f : α → β → γ} {xs : List α} {ys : List β}
    (long : xs.length = ys.length) (related : ∀ x ∈ xs, ∀ y ∈ ys, R x (f x y)) :
    List.Forall₂ R xs (xs.zipWith f ys) := by
  induction xs generalizing ys with
  | nil => simp
  | cons x xs ih =>
    cases ys with
    | nil => simp at long
    | cons y ys =>
      rw [List.zipWith_cons_cons]
      refine .cons (related x (by simp) y (by simp)) (ih (by simpa using long) ?_)
      intro x' among y' among'
      exact related x' (by simp [among]) y' (by simp [among'])

theorem forall_mem_of_forall₂ {P : β → Prop} {Q : α → Prop} {xs : List α} {ys : List β}
    (sides : List.Forall₂ (fun x y => P y ↔ Q x) xs ys) : (∀ y ∈ ys, P y) ↔ ∀ x ∈ xs, Q x := by
  induction sides with
  | nil => simp
  | cons first _ ih => simp [first, ih]

/-! ## What is steady -/

theorem command_tools (home : around.startDirectory.isAbsolute) (filled : Filled o s)
    (sources : Sources around o s c) : (∀ p ∈ toolList c.tools, Command p) ↔
      ∀ p ∈ (configuredTools s.tools).filterMap (·.map Path.ofString),
        isBareName p → Proper p.bytes := by
  have buildRoot := (isAbsolute_files home filled sources).1
  have sides : List.Forall₂ (fun configured p => Command p ↔ ∀ text, configured = some text →
      isBareName (Path.ofString text) → Proper (Path.ofString text).bytes)
      (configuredTools s.tools) (toolList c.tools) := by
    rw [sources.tools, toolList_resolveTools]
    refine forall₂_zipWith rfl ?_
    intro configured among fallback isDefault
    apply command_chooseTool home
    · rintro text rfl
      exact filled.settings text (List.mem_append_left _ among)
    · exact command_defaultTools buildRoot fallback isDefault
  rw [forall_mem_of_forall₂ sides]
  constructor
  · intro named p found
    obtain ⟨configured, among, is⟩ := List.mem_filterMap.mp found
    obtain ⟨text, rfl, rfl⟩ := Option.map_eq_some_iff.mp is
    exact named _ among text rfl
  · rintro named configured among text rfl
    exact named _ (List.mem_filterMap.mpr ⟨_, among, rfl⟩)

theorem command_analysis (home : around.startDirectory.isAbsolute) (filled : Filled o s)
    (sources : Sources around o s c) : Command c.analysis ↔
      ∀ p ∈ o.analysis.toList, isBareName p → Proper p.bytes := by
  rw [sources.analysis]
  cases given : o.analysis with
  | none =>
    have named : Proper (Path.ofString "pointer-analysis").bytes :=
      proper_of_length (by decide) (by decide)
    rw [Option.getD_none, command_anchorTool home (ofString_ne_nil (by decide))]
    simp [named]
  | some p =>
    rw [Option.getD_some, command_anchorTool home (filled.options p (by simp [given]))]
    simp

theorem steady_iff (home : around.startDirectory.isAbsolute) (filled : Filled o s)
    (sources : Sources around o s c) : Steady c ↔
      (∀ root ∈ rootsAsked o s, root.isAbsolute) ∧
        ∀ p ∈ commandsAsked o s, isBareName p → Proper p.bytes := by
  have files := (isAbsolute_files home filled sources).2
  have roots : c.searchRoots = rootsAsked o s := sources.searchRoots
  have commands : (∀ p ∈ commandsOf c, Command p) ↔
      ∀ p ∈ commandsAsked o s, isBareName p → Proper p.bytes := by
    rw [commandsOf, List.forall_mem_cons, command_analysis home filled sources,
      command_tools home filled sources, commandsAsked, List.forall_mem_append]
  constructor
  · intro steady
    refine ⟨?_, commands.mp steady.commands⟩
    intro root found
    exact steady.files root (List.mem_append_right _ (roots ▸ found))
  · rintro ⟨absolute, named⟩
    refine ⟨?_, commands.mpr named⟩
    rw [filesOf, List.forall_mem_append, roots]
    exact ⟨files, absolute⟩

/-! ## What the settings file names -/

/-- The paths of the settings that are in force are seen from the directory of their file, but for
names of commands, which are kept. -/
structure Anchored (file : Path) (o : Overrides) (s : Settings) (c : Config) : Prop where
  tools : List.Forall₂ (fun configured p => ∀ text, configured = some text →
    if isBareName (Path.ofString text) then p = Path.ofString text else SeenFrom file text p)
    (configuredTools s.tools) (toolList c.tools)
  project : o.project = none → ∀ text, s.analysis.project = some text → SeenFrom file text c.project
  libraryDir : o.libraryDir = none →
    ∀ text, s.analysis.libraryDir = some text → SeenFrom file text c.libraryDir

theorem anchored (home : around.startDirectory.isAbsolute) (filled : Filled o s)
    (sources : Sources around o s c) {file : Path} (isFile : o.configFile = some file)
    (named : names file ≠ []) : Anchored (Path.absolute around.startDirectory file) o s c := by
  have seen {text : String} (some : text ≠ "") :
      SeenFrom (Path.absolute around.startDirectory file) text
        (anchor around.startDirectory (settingsDir o.configFile) text) := by
    rw [isFile]
    exact seenFrom_anchor home named (ofString_ne_nil some)
  constructor
  case tools =>
    rw [sources.tools, toolList_resolveTools]
    refine forall₂_zipWith rfl ?_
    rintro configured among fallback - text rfl
    rw [chooseTool, anchorTool]
    split
    · rfl
    · exact seen (filled.settings text (List.mem_append_left _ among))
  case project =>
    intro notGiven text isSet
    rw [sources.project, notGiven, isSet]
    exact seen (filled.settings text (by simp [isSet]))
  case libraryDir =>
    intro notGiven text isSet
    rw [sources.libraryDir, notGiven, isSet]
    exact seen (filled.settings text (by simp [isSet]))

/-- Search roots are kept as the settings name them: they are seen from the directory of the
settings exactly when they are absolute. -/
theorem roots_seen_iff (sources : Sources around o s c) (file : Path) (notGiven : o.directories = [])
    {roots : List String} (isSet : s.search.roots = some roots) :
    List.Forall₂ (fun text root => SeenFrom file (Path.ofString text) root) roots c.searchRoots ↔
      ∀ text ∈ roots, (Path.ofString text).isAbsolute := by
  have kept : c.searchRoots = roots.map Path.ofString := by
    rw [sources.searchRoots, notGiven, isSet]
    rfl
  rw [kept, List.forall₂_map_right_iff, List.forall₂_same]
  constructor
  · intro seen text among
    exact (seen text among).absolute
  · intro absolute text among
    refine ⟨absolute text among, ?_⟩
    rw [if_pos (absolute text among)]

/-- Set up in an absolute directory with paths that are not empty, a configuration means the same
from every directory exactly when the search roots are given as absolute paths and no command is
given as one name with a slash behind it. What the settings file names is seen from its own
directory, the search roots only where they are absolute. -/
theorem config_steady_iff (home : around.startDirectory.isAbsolute) (filled : Filled o s)
    (ok : bootstrap around o s = .ok c) :
    (Steady c ↔ (∀ root ∈ rootsAsked o s, root.isAbsolute) ∧
      ∀ p ∈ commandsAsked o s, isBareName p → Proper p.bytes) ∧
    ∀ given, o.configFile = some given → names given ≠ [] →
      ∃ file, c.configFile = some file ∧ Anchored file o s c ∧
        (o.directories = [] → ∀ roots, s.search.roots = some roots →
          (List.Forall₂ (fun text root => SeenFrom file (Path.ofString text) root)
              roots c.searchRoots ↔
            ∀ text ∈ roots, (Path.ofString text).isAbsolute)) := by
  obtain ⟨-, -, sources⟩ := bootstrap_inv ok
  refine ⟨steady_iff home filled sources, ?_⟩
  intro given isFile named
  refine ⟨_, ?_, anchored home filled sources isFile named, ?_⟩
  · rw [sources.configFile, isFile, Option.map_some]
  · intro notGiven roots isSet
    exact roots_seen_iff sources _ notGiven isSet

/-- Settings with a search root beside them. -/
def searching (root : String) : Settings := { configured with search := { roots := some [root] } }

theorem filled_searching (root : String) : Filled interpreting (searching root) where
  options p among := by
    simp only [interpreting, List.mem_cons, List.not_mem_nil, or_false, reduceCtorEq,
      Option.some.injEq, false_or] at among
    rcases among with rfl | rfl | rfl | rfl <;> exact ofString_ne_nil (by decide)
  settings text among := by
    rintro rfl
    exact absurd among (by decide : some "" ∉ configuredTools configured.tools ++
      [configured.analysis.project, configured.analysis.libraryDir])

/-- With an absolute search root, all that a settings file elsewhere names means the same from every
directory. -/
theorem absolute_root_is_steady : ∃ c, bootstrap atWork interpreting (searching "/bench") = .ok c ∧
    Steady c ∧ ∃ file, c.configFile = some file ∧
      Anchored file interpreting (searching "/bench") c := by
  obtain ⟨c, ok⟩ := @bootstrap_ok atWork interpreting (searching "/bench")
    ⟨by decide, by decide⟩ rfl
  have whole := config_steady_iff (by decide) (filled_searching "/bench") ok
  obtain ⟨file, isFile, isAnchored, -⟩ := whole.2 _ rfl (by decide)
  refine ⟨c, ok, whole.1.mpr ⟨by decide, ?_⟩, file, isFile, isAnchored⟩
  have asked : commandsAsked interpreting (searching "/bench") =
      [Path.ofString "tools/../analysis", Path.ofString "bin/clang", Path.ofString "creduce"] := rfl
  rw [asked]
  intro p among bare
  simp only [List.mem_cons, List.not_mem_nil, or_false] at among
  rcases among with rfl | rfl | rfl
  · exact absurd bare (by decide)
  · exact absurd bare (by decide)
  · exact proper_of_length (by decide) (by decide)

/-- A relative search root stays relative: it is not even seen from the directory of the settings. -/
theorem relative_root_is_kept : ∃ c, bootstrap atWork interpreting (searching "bench") = .ok c ∧
    c.searchRoots = [Path.ofString "bench"] ∧ ¬ Steady c := by
  obtain ⟨c, ok⟩ := @bootstrap_ok atWork interpreting (searching "bench")
    ⟨by decide, by decide⟩ rfl
  obtain ⟨-, -, sources⟩ := bootstrap_inv ok
  have roots : c.searchRoots = [Path.ofString "bench"] := sources.searchRoots
  refine ⟨c, ok, roots, ?_⟩
  intro steady
  have absolute := steady.files "bench" (List.mem_append_right _ (by simp [roots]))
  exact absurd absolute (by decide)

end BugHunt.Proofs.ConfigPaths
