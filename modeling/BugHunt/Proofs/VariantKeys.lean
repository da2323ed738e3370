import BugHunt.Cache
import BugHunt.Compile
import BugHunt.Proofs.Names
/-!
When two artifacts share a key. A key spells out a stem and flags, or a stem and an extension, and
ends in a digest; the kind of a source enters neither.
-/

namespace BugHunt.Proofs.VariantKeys
open Texts Names

/-- The part of a key before its digest. -/
def label (a : Artifact) (flags : List String) : String :=
  let flagText := Plan.sanitize (".".intercalate flags)
  if a.isSource then s!"{Plan.stemOf a.path}.{flagText}"
  else s!"{Plan.stemOf a.path}.{Plan.extensionOf a.path}"

/-- What the digest in a key is taken of. -/
def material (extraArgs : List String) (a : Artifact) (flags : List String) (content : Bytes) :
    Bytes :=
  if a.isSource then Plan.digested content (flags ++ extraArgs) else content

theorem key_eq (extraArgs : List String) (outDir : Path) (a : Artifact) (flags : List String)
    (content : Bytes) :
    (Plan.ofContent extraArgs outDir a flags content).key =
      label a flags ++ ("." ++ Plan.shortDigest (material extraArgs a flags content)) := by
  unfold Plan.ofContent label material
  split
  · simp [Plan.sourceKey, String.append_assoc]
  · simp [Plan.irKey, String.append_assoc]

/-- Digests have one length, so keys agree exactly when label and digest do. -/
theorem parts_eq_iff {s t : String} {m n : Bytes} :
    s ++ ("." ++ Plan.shortDigest m) = t ++ ("." ++ Plan.shortDigest n) ↔
      s = t ∧ Plan.shortDigest m = Plan.shortDigest n := by
  constructor
  · intro same
    have chars := congrArg String.toList same
    simp only [String.toList_append] at chars
    have lengths : (".".toList ++ (Plan.shortDigest m).toList).length =
        (".".toList ++ (Plan.shortDigest n).toList).length := by
      simp only [List.length_append, Names.shortDigest_length]
    obtain ⟨labels, rest⟩ := List.append_inj' chars lengths
    exact ⟨String.toList_inj.mp labels, String.toList_inj.mp (List.append_cancel_left rest)⟩
  · rintro ⟨rfl, same⟩
    rw [same]

theorem key_eq_iff {extraArgs : List String} {outDir : Path} {a b : Artifact}
    {fa fb : List String} {ca cb : Bytes}
    (distinct : Plan.shortDigest (material extraArgs a fa ca) =
      Plan.shortDigest (material extraArgs b fb cb) →
      material extraArgs a fa ca = material extraArgs b fb cb) :
    (Plan.ofContent extraArgs outDir a fa ca).key = (Plan.ofContent extraArgs outDir b fb cb).key ↔
      label a fa = label b fb ∧ material extraArgs a fa ca = material extraArgs b fb cb := by
  rw [key_eq, key_eq, parts_eq_iff]
  exact and_congr_right fun _ => ⟨distinct, congrArg _⟩

/-! ## Programs in IR -/

theorem map_shown {chunks : List Text.Chunk} {chars : List Char}
    (all : chunks.mapM Text.Chunk.char? = some chars) : chunks.map Text.Chunk.shown = chars := by
  induction chunks generalizing chars with
  | nil => simpa using all
  | cons chunk rest ih =>
    cases chunk with
    | illFormed bytes => simp [List.mapM_cons, Text.Chunk.char?] at all
    | char c =>
      cases others : rest.mapM Text.Chunk.char? with
      | none => simp [List.mapM_cons, Text.Chunk.char?, others] at all
      | some more =>
        simp only [List.mapM_cons, Text.Chunk.char?, others] at all
        obtain rfl : c :: more = chars := by simpa using all
        rw [List.map_cons, ih others]
        rfl

/-- Text that is well-formed is shown as it is. -/
theorem lossy_of_decode {bytes : Bytes} {text : String} (decoded : Text.decode? bytes = some text) :
    Text.lossy bytes = text := by
  obtain ⟨chars, all, rfl⟩ := Option.map_eq_some_iff.mp decoded
  rw [Text.lossy, map_shown all]

/-- The extension that a program's key would spell out is the one that its kind follows from. -/
theorem kind_of_extensionOf (a : Artifact) :
    Kind.ofExtension? (Plan.extensionOf a.path) = some a.kind := by
  have kinds := a.kind_of_path
  unfold Kind.ofPath? at kinds
  cases found : a.path.extension? with
  | none => simp [found] at kinds
  | some extension =>
    cases decoded : Text.decode? extension with
    | none => simp [found, decoded] at kinds
    | some text =>
      simp only [Plan.extensionOf, found, Option.map_some, Option.getD_some,
        lossy_of_decode decoded]
      simpa [found, decoded] using kinds

theorem extension_of_ir {extension : String} {kind : Kind}
    (known : Kind.ofExtension? extension = some kind) (ir : kind.isIr = true) :
    ∃ c, extension.toList.getLast? = some c ∧ (c = 'l' ↔ kind = .textIr) := by
  have among := ofExtension?_eq_some.mp known
  simp only [programKinds, List.mem_cons, Prod.mk.injEq, List.not_mem_nil, or_false] at among
  rcases among with ⟨rfl, rfl⟩ | ⟨rfl, rfl⟩ | ⟨rfl, rfl⟩ | ⟨rfl, rfl⟩ | ⟨rfl, rfl⟩
  · cases ir
  · cases ir
  · cases ir
  · exact ⟨'l', by decide, by decide⟩
  · exact ⟨'c', by decide, by decide⟩

/-- The labels of textual IR and of bitcode end in different letters. -/
theorem labels_of_ir_ne {a b : Artifact} (fa fb : List String) (kinds : a.kind ≠ b.kind)
    (irA : a.isIr) (irB : b.isIr) : label a fa ≠ label b fb := by
  intro same
  have notSource {a : Artifact} (ir : a.isIr) : a.isSource = false := by
    simpa [Artifact.isIr, Kind.isIr, Artifact.isSource] using ir
  obtain ⟨x, lastA, isA⟩ := extension_of_ir (kind_of_extensionOf a) irA
  obtain ⟨y, lastB, isB⟩ := extension_of_ir (kind_of_extensionOf b) irB
  have last := congrArg (fun text : String => text.toList.getLast?) same
  simp only [label, notSource irA, notSource irB, Bool.false_eq_true, if_false, toString_text,
    String.toList_append, List.getLast?_append, lastA, lastB, Option.some_or] at last
  obtain rfl : x = y := Option.some.inj last
  have textual : a.kind = .textIr ↔ b.kind = .textIr := isA.symm.trans isB
  have ka : a.kind.isIr = true := irA
  have kb : b.kind.isIr = true := irB
  revert textual kinds ka kb
  generalize a.kind = k
  generalize b.kind = l
  cases k <;> cases l <;> simp [Kind.isIr, Kind.isSource]

/-! ## Planning -/

/-- Planning reads the artifact and does nothing else. -/
theorem plan_run {host : Host σ} {s : σ} {c : Config} {outDir : Path} {a : Artifact}
    {flags : List String} {content : Bytes}
    (read : (host (.file (.read a.path)) s).1 = .ok content) :
    ((Compile.plan c outDir a flags).run.run host s).1 =
      .ok (Plan.ofContent c.extraArgs outDir a flags content) := by
  simp only [Compile.plan, Action.orFail, Program.read, Program.request]
  show ((Program.ask (.file (.read a.path)) _).run host s).1 = _
  simp only [Program.run]
  generalize host (.file (.read a.path)) s = answer at read
  obtain ⟨answer, s⟩ := answer
  subst read
  rfl

/-- Two sources share the place of their compiled IR exactly when they share a key. -/
theorem irPath_eq_iff {extraArgs : List String} {outDir : Path} {a b : Artifact}
    {fa fb : List String} {ca cb : Bytes} (sourceA : a.isSource) (sourceB : b.isSource) :
    (Plan.ofContent extraArgs outDir a fa ca).irPath =
      (Plan.ofContent extraArgs outDir b fb cb).irPath ↔
    (Plan.ofContent extraArgs outDir a fa ca).key =
      (Plan.ofContent extraArgs outDir b fb cb).key := by
  simp only [Plan.ofContent, sourceA, sourceB, if_true, toString_text]
  exact ended_entry_inj (slash_notMem_sourceKey a.path ca fa extraArgs)
    (slash_notMem_sourceKey b.path cb fb extraArgs) (by decide)

/-- Two keys share a marker exactly when they are the same key. -/
theorem marker_eq_iff {cache : Cache} {s t : String} {verdict : Classification}
    (cleanS : '/' ∉ s.toList) (cleanT : '/' ∉ t.toList) (kept : verdict ≠ .interesting) :
    cache.markerPath? s verdict = cache.markerPath? t verdict ↔ s = t := by
  have markers (ending : String) (cleanEnd : '/' ∉ ending.toList) :
      cache.resultsDir / Path.ofString s!"{s}.{ending}" =
        cache.resultsDir / Path.ofString s!"{t}.{ending}" ↔ s = t := by
    simp only [toString_text, String.append_assoc]
    exact ended_entry_inj cleanS cleanT (by simp [cleanEnd])
  cases verdict with
  | interesting => exact absurd rfl kept
  | uninteresting => simpa [Cache.markerPath?, Cache.markerEnding?] using markers _ (by decide)
  | uncompilable => simpa [Cache.markerPath?, Cache.markerEnding?] using markers _ (by decide)

/-- Two artifacts of different kinds share a key exactly when one of them is a source and what the
keys spell out and what their digests are taken of is the same. Sources that share a key share
their compiled IR too, and artifacts that share a key share their markers. -/
theorem kinds_share_key_iff {host : Host σ} {s t : σ} {c : Config} {cache : Cache} {a b : Artifact}
    {fa fb : List String} {ca cb : Bytes} (kinds : a.kind ≠ b.kind)
    (readA : (host (.file (.read a.path)) s).1 = .ok ca)
    (readB : (host (.file (.read b.path)) t).1 = .ok cb)
    (distinct : Plan.shortDigest (material c.extraArgs a fa ca) =
      Plan.shortDigest (material c.extraArgs b fb cb) →
      material c.extraArgs a fa ca = material c.extraArgs b fb cb) :
    ∃ p q, ((Compile.plan c cache.irDir a fa).run.run host s).1 = .ok p ∧
      ((Compile.plan c cache.irDir b fb).run.run host t).1 = .ok q ∧
      (p.key = q.key ↔ (a.isSource ∨ b.isSource) ∧ label a fa = label b fb ∧
        material c.extraArgs a fa ca = material c.extraArgs b fb cb) ∧
      (a.isSource → b.isSource → (p.irPath = q.irPath ↔ p.key = q.key)) ∧
      ∀ verdict, verdict ≠ .interesting →
        (cache.markerPath? p.key verdict = cache.markerPath? q.key verdict ↔ p.key = q.key) := by
  refine ⟨_, _, plan_run readA, plan_run readB, ?_, ?_, ?_⟩
  · rw [key_eq_iff distinct]
    constructor
    · rintro ⟨labels, materials⟩
      refine ⟨?_, labels, materials⟩
      by_cases sourceA : a.isSource
      · exact .inl sourceA
      · by_cases sourceB : b.isSource
        · exact .inr sourceB
        · refine absurd labels (labels_of_ir_ne fa fb kinds ?_ ?_)
          · simpa [Artifact.isIr, Kind.isIr, Artifact.isSource] using sourceA
          · simpa [Artifact.isIr, Kind.isIr, Artifact.isSource] using sourceB
    · exact fun h => h.2
  · exact fun sourceA sourceB => irPath_eq_iff sourceA sourceB
  · intro verdict kept
    exact marker_eq_iff (slash_notMem_key _ _ _ _ _) (slash_notMem_key _ _ _ _ _) kept

/-- A host on which every file holds the same bytes and nothing can be changed or started. -/
def still (content : Bytes) : Host Unit := fun request _ =>
  match request with
  | .file (.read _) => (Except.ok content, ())
  | .file (.exists _) | .file (.isFile _) => (true, ())
  | .file (.createDirectories _) | .file (.createDirectory _) | .file (.write ..)
  | .file (.makeExecutable _) | .file (.touch _) | .file (.copy ..) | .file (.rename ..)
  | .file (.remove _) | .file (.removeTree _) => (Except.error (.system .denied), ())
  | .temporaryDirectory .. | .temporaryFile .. | .spawn .. | .await .. =>
    (Except.error (.system .denied), ())
  | .search _ => ([], ())
  | .isCancelled => (false, ())
  | .choose _ => ((0 : Nat), ())
  | .log _ | .terminate _ => ((), ())
  | .collect _ => (([], []), ())

def twinC : Artifact := ⟨"prog.c", .cSource, by decide +kernel⟩
def twinCxx : Artifact := ⟨"prog.cpp", .cxxSource, by decide +kernel⟩

/-- A configuration with one set of flags and one assertion. -/
def plain : Config where
  startDirectory := "/w"
  debug := false
  cores := 2
  processes := 2
  testOnly := false
  engine := .compiled
  buildRoot := "/w/.out/build"
  analysis := "pointer-analysis"
  outputRoot := "/w"
  cacheRoot := "/tmp/pareduce-cache"
  searchRoots := []
  repositories := []
  contextSensitivity := "1-callsite"
  tools := ⟨"clang", "clang++", "llvm-as", "llvm-dis", "llvm-reduce", "creduce", "souffle", "git",
    "factgen"⟩
  project := "/w/debug.project"
  libraryDir := "/w/llvm"
  compileTimeout := 10000
  analysisTimeout := 1800000
  memoryLimit := none
  optLevels := [["-O0"]]
  extraArgs := []
  assertions := ["assert_unique_repr.csv.gz"]
  selfExe := "/usr/bin/pareduce"
  configFile := none

theorem twins_share_key :
    ∃ p q,
      ((Compile.plan plain (Cache.irDir ⟨"/c"⟩) twinC ["-O0"]).run.run (still []) ()).1 = .ok p ∧
      ((Compile.plan plain (Cache.irDir ⟨"/c"⟩) twinCxx ["-O0"]).run.run (still []) ()).1 = .ok q ∧
      p.key = q.key ∧ p.irPath = q.irPath := by
  have readA : (still [] (.file (.read twinC.path)) ()).1 = Except.ok [] := rfl
  have readB : (still [] (.file (.read twinCxx.path)) ()).1 = Except.ok [] := rfl
  obtain ⟨p, q, planA, planB, keys, paths, -⟩ :=
    @kinds_share_key_iff Unit (still []) () () plain ⟨"/c"⟩ twinC twinCxx ["-O0"] ["-O0"] [] []
      (by decide) readA readB (fun _ => rfl)
  have shared : p.key = q.key := keys.mpr ⟨.inl rfl, by decide +kernel, rfl⟩
  exact ⟨p, q, planA, planB, shared, (paths rfl rfl).mpr shared⟩

end BugHunt.Proofs.VariantKeys
