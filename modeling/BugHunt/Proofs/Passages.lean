import BugHunt.Proofs.Leftovers
import BugHunt.Proofs.Tallying
/-!
How a check moves the files on. Whether it runs to its end or is cut short, the files change in few
ways, and each change is one on the way to where the check would have ended.
-/

namespace BugHunt.Proofs.Passages
open Trees Texts Names Places Runs Bench Growth Outcomes Building Judging Caching Keeping Reducing
open Tallying FailedReduction Collecting Leftovers

variable {b : Bench} {c : Config} {a : Artifact} {source : Bytes} {u v t : View}

/-! ## The places that a check writes to -/

/-- An artifact and its variant for a set of flags. -/
def pairOf (c : Config) (a : Artifact) (source : Bytes) (flags : List String) : Pair c :=
  ⟨a, ⟨planOf c a source flags, true⟩, flags, source, rfl⟩

theorem backend_ir (ir : a.isSource = false) : Backend.of a = .irLevel := by
  rw [Backend.of, if_neg (by simp [ir])]

theorem backend_source (isSource : a.isSource) : Backend.of a = .sourceLevel := by
  rw [Backend.of, if_pos isSource]

theorem ir_of_backend (level : Backend.of a = .irLevel) : a.isSource = false := by
  refine Bool.eq_false_iff.mpr fun isSource => ?_
  rw [backend_source isSource] at level
  cases level

/-- The places that a check of some of an artifact's variants may write files to. -/
inductive Trace (b : Bench) (c : Config) (a : Artifact) (source : Bytes) (sets : List (List String)) :
    Place → Prop
  | marker {flags : List String} (among : flags ∈ sets) {verdict : Classification} {ending : String}
      (ends : Cache.markerEnding? verdict = some ending) :
      Trace b c a source sets (markerPlace b c (planOf c a source flags).key ending)
  | ir {flags : List String} (among : flags ∈ sets) (isSource : a.isSource) :
      Trace b c a source sets (irPlace b c (planOf c a source flags).key)
  | sentinel {flags : List String} (among : flags ∈ sets) {stage : Stage}
      (crashes : a.isSource = false → ∃ verdict, judged b c a.kind source = .crash stage verdict)
      (outside : ¬ Slot b c (crashPlace b (planOf c a source flags).irPath stage))
      (beside : crashPlace b (planOf c a source flags).irPath stage ≠ b.place a.path) :
      Trace b c a source sets (crashPlace b (planOf c a source flags).irPath stage)
  | product {flags : List String} (among : flags ∈ sets)
      (interesting : reached b c a flags source = some .interesting) {q : Place}
      (product : Product b c (pairOf c a source flags) q) : Trace b c a source sets q

/-- The places that belong to an artifact or to the cache, whatever comes of a check. -/
inductive Claimed (b : Bench) (c : Config) (a : Artifact) (source : Bytes) : Place → Prop
  | slot {q : Place} (slot : Slot b c q) : Claimed b c a source q
  | sentinel (flags : List String) (stage : Stage) :
      Claimed b c a source (crashPlace b (planOf c a source flags).irPath stage)
  | product {flags : List String} {q : Place} (product : Product b c (pairOf c a source flags) q) :
      Claimed b c a source q

/-- Whether a place lies in a workspace that is kept for debugging. -/
def Scratch (b : Bench) (c : Config) (a : Artifact) (source : Bytes) (q : Place) : Prop :=
  c.debug ∧ (∃ name, utf8 ".scratch" <:+ name ∧ b.place b.temporary ++ [name] <+: q) ∧
    ¬ Claimed b c a source q

section Places

variable {sets : List (List String)} {q : Place}

theorem slot_ir (flags : List String) : Slot b c (irPlace b c (planOf c a source flags).key) :=
  .ir (key_stem ..)

theorem slot_marker (flags : List String) {verdict : Classification} {ending : String}
    (ends : Cache.markerEnding? verdict = some ending) :
    Slot b c (markerPlace b c (planOf c a source flags).key ending) := .marker (key_stem ..) ends

theorem Trace.claimed (trace : Trace b c a source sets q) : Claimed b c a source q := by
  cases trace with
  | marker _ ends => exact .slot (slot_marker _ ends)
  | ir => exact .slot (slot_ir _)
  | sentinel => exact .sentinel _ _
  | product _ _ product => exact .product product

theorem Trace.mono {more : List (List String)} (trace : Trace b c a source sets q)
    (among : ∀ flags ∈ sets, flags ∈ more) : Trace b c a source more q := by
  cases trace with
  | marker member ends => exact .marker (among _ member) ends
  | ir member isSource => exact .ir (among _ member) isSource
  | sentinel member crashes outside beside => exact .sentinel (among _ member) crashes outside beside
  | product member interesting product => exact .product (among _ member) interesting product

/-- No slot lies on the way to the output directory. -/
theorem slot_off_way (grounds : Grounds b c) (slot : Slot b c q) : ¬ q <+: b.place c.outputRoot := by
  intro way
  obtain ⟨directory, name, rfl, -⟩ := slot.form
  exact grounds.output ((List.prefix_append ..).trans way)

theorem irPlace_off_way (grounds : Grounds b c) (key : String) :
    ¬ irPlace b c key <+: b.place c.outputRoot := by
  intro way
  rw [irPlace, place_irDir, List.append_assoc] at way
  exact grounds.output ((List.prefix_append ..).trans way)

/-- What is collected lies in no directory of the cache. -/
theorem product_ne_entry (grounds : Grounds b c) {p : Pair c} (product : Product b c p q)
    (directory name : Bytes) : q ≠ b.place c.cacheRoot ++ [directory] ++ [name] := by
  intro same
  obtain ⟨entry, rfl⟩ := product.entry grounds.toSited
  have init := (List.append_inj' same rfl).1
  exact grounds.output (init ▸ List.prefix_append ..)

theorem product_ne_irPlace (grounds : Grounds b c) {p : Pair c} (product : Product b c p q)
    (key : String) : q ≠ irPlace b c key := by
  rw [irPlace, place_irDir]
  exact product_ne_entry grounds product _ _

theorem product_not_slot (grounds : Grounds b c) {p : Pair c} (product : Product b c p q) :
    ¬ Slot b c q := by
  intro slot
  obtain ⟨directory, name, same, -⟩ := slot.form
  refine product_ne_entry grounds product directory name (same.trans ?_)
  simp

/-- The sentinel of a source's IR lies in the cache. -/
theorem crashPlace_source (isSource : a.isSource) (flags : List String) (stage : Stage) :
    crashPlace b (planOf c a source flags).irPath stage = b.place (cacheOf c).irDir ++
      [utf8 (planOf c a source flags).key ++ Path.dot :: utf8 stage.sentinelExtension] :=
  crashPlace_irPath isSource rfl stage

theorem irPath_ir (ir : a.isSource = false) (flags : List String) :
    (planOf c a source flags).irPath = a.path := irPath_of_ir ir

theorem crashPlace_off_way (grounds : Grounds b c) (isSource : a.isSource) (flags : List String)
    (stage : Stage) :
    ¬ crashPlace b (planOf c a source flags).irPath stage <+: b.place c.outputRoot := by
  intro way
  rw [crashPlace_source isSource, place_irDir, List.append_assoc] at way
  exact grounds.output ((List.prefix_append ..).trans way)

/-- Of all that a check writes to only the sentinel of a crash of IR can lie on the way to the output
directory. -/
theorem Trace.on_way (grounds : Grounds b c) (trace : Trace b c a source sets q)
    (way : q <+: b.place c.outputRoot) : a.isSource = false ∧
      ∃ stage verdict, judged b c a.kind source = .crash stage verdict ∧ q = crashPlace b a.path stage := by
  cases trace with
  | marker _ ends => exact absurd way (slot_off_way grounds (slot_marker _ ends))
  | ir => exact absurd way (slot_off_way grounds (slot_ir _))
  | product _ _ product => exact absurd way (product.apart grounds.toSited)
  | sentinel _ crashes =>
    cases isSource : a.isSource with
    | true => exact absurd way (crashPlace_off_way grounds isSource _ _)
    | false =>
      obtain ⟨verdict, crashed⟩ := crashes isSource
      exact ⟨rfl, _, verdict, crashed, by rw [irPath_ir isSource]⟩

/-! ### The program itself -/

/-- The stem of a program's name stands before its extension. -/
theorem stemOf_program {p : Path} {kind : Kind} {stem extension : Bytes}
    (programmed : Programmed p kind stem extension) : Plan.stemOf p = Text.lossy stem := by
  rw [Plan.stemOf, Path.stem?, programmed.named, Option.map_some,
    splitName_dot programmed.stemmed programmed.plain]
  rfl

/-- No program lies where its own reduced form does. -/
theorem reduced_ne_program (a : Artifact) (directory : Place) {extension : Bytes}
    (plain : Path.dot ∉ extension) : b.place a.path ≠
      directory ++ [utf8 ("reduced-" ++ Plan.stemOf a.path) ++ Path.dot :: extension] := by
  obtain ⟨parent, stem, own, programmed, place⟩ := place_program b a
  rw [place, stemOf_program programmed]
  intro same
  have names := List.singleton_inj.mp (List.append_inj' same rfl).2
  obtain rfl := extension_unique programmed.plain plain names
  exact lossy_ne_prefixed (show "reduced-" ≠ "" by decide) (List.append_cancel_right names)

theorem source_ne_program (directory : Place) :
    b.place a.path ≠ directory ++ [utf8 (Reduce.sourceName a)] := by
  obtain ⟨parent, stem, extension, programmed, place⟩ := place_program b a
  have isName : a.name = Text.lossy (stem ++ Path.dot :: extension) := by
    rw [Artifact.name, Path.name, programmed.named]
  rw [place, sourceName_eq, isName]
  intro same
  exact lossy_ne_prefixed (show "source-reduced-" ≠ "" by decide)
    (List.singleton_inj.mp (List.append_inj' same rfl).2)

theorem product_ne_program (sited : Sited b c) {p : Pair c} (product : Product b c p q) :
    q ≠ b.place p.artifact.path := by
  cases product with
  | kept => exact (artifactPlace_ne_kept p).symm
  | text isBinary => exact (artifactPlace_ne_text p isBinary).symm
  | assembled level =>
    have ir := ir_of_backend level
    have ending : utf8 ".bc" = Path.dot :: utf8 "bc" := by decide
    rw [assembledPlace_eq sited, p.irPath_of_ir ir, utf8_append _ ".bc", ending]
    exact (reduced_ne_program p.artifact _ (by decide)).symm
  | reduced =>
    rw [place_reducedPath sited]
    cases level : Backend.of p.artifact with
    | sourceLevel =>
      rw [reducedName_source level]
      exact (source_ne_program _).symm
    | irLevel =>
      have ir := ir_of_backend level
      have ending : utf8 ".ll" = Path.dot :: utf8 "ll" := by decide
      have name : utf8 (Reduce.irName p.artifact.path) =
          utf8 ("reduced-" ++ Plan.stemOf p.artifact.path) ++ Path.dot :: utf8 "ll" := by
        rw [Reduce.irName, ← ending]
        simp
      rw [reducedName_ir level, p.irPath_of_ir ir, name]
      exact (reduced_ne_program p.artifact _ (by decide)).symm

/-- A check writes to no place of the program. -/
theorem Trace.ne_program (sited : Sited b c) (trace : Trace b c a source sets q) :
    q ≠ b.place a.path := by
  cases trace with
  | sentinel _ _ _ beside => exact beside
  | product _ _ product => exact product_ne_program sited product
  | ir _ isSource =>
    intro same
    exact source_not_slot isSource (same ▸ slot_ir _)
  | @marker flags _ verdict ending ends =>
    obtain ⟨parent, stem, extension, programmed, place⟩ := place_program b a
    rw [markerPlace, entry_bytes_eq, place]
    intro same
    have names := List.singleton_inj.mp (List.append_inj' same rfl).2
    have plain : Path.dot ∉ utf8 ending := by
      cases verdict <;> cases ends <;> decide
    have unknown : (Text.decode? (utf8 ending)).bind Kind.ofExtension? = none := by
      cases verdict <;> cases ends <;> decide +kernel
    exact programmed.ne_ended plain (by simp [unknown]) names.symm

/-! ### Names that end differently -/

/-- The extensions of programs. -/
def extensions : List String := [".c", ".cpp", ".C", ".ll", ".bc"]

theorem extension_known {extension : String} {kind : Kind}
    (known : Kind.ofExtension? extension = some kind) : "." ++ extension ∈ extensions := by
  have dotted : ∀ entry ∈ programKinds, "." ++ entry.1 ∈ extensions := by decide
  exact dotted _ (ofExtension?_eq_some.mp known)

/-- The name of a program ends in an extension that tells its kind. -/
theorem name_ended (a : Artifact) : ∃ front, ∃ extension ∈ extensions, a.name = front ++ extension := by
  obtain ⟨stem, extension, programmed⟩ := programmed_of_kind a.kind_of_path
  obtain ⟨text, decoded, known⟩ := Option.bind_eq_some_iff.mp programmed.known
  refine ⟨Text.lossy stem, "." ++ text, extension_known known, ?_⟩
  have dot : Char.ofNat Path.dot.toNat = '.' := by decide
  have shown := lossy_ascii (b := Path.dot) (by decide) stem extension
  rw [VariantKeys.lossy_of_decode decoded, dot] at shown
  rw [Artifact.name, Path.name, programmed.named]
  apply String.toList_injective
  simpa using shown

/-- What is collected has the name of a program. -/
theorem product_ended (sited : Sited b c) {p : Pair c} (product : Product b c p q) :
    ∃ front, ∃ extension ∈ extensions, q = b.place c.outputRoot ++ [utf8 (front ++ extension)] := by
  have ended (name : String) (isName : ∃ front, ∃ extension ∈ extensions, name = front ++ extension)
      (sign : String) : ∃ front, ∃ extension ∈ extensions, sign ++ name = front ++ extension := by
    obtain ⟨front, extension, known, rfl⟩ := isName
    exact ⟨sign ++ front, extension, known, by rw [String.append_assoc]⟩
  cases product with
  | kept =>
    have variant : ∃ front, ∃ extension ∈ extensions, p.variant.name = front ++ extension := by
      by_cases isSource : p.artifact.isSource
      · obtain ⟨flags, content, isPlan⟩ := p.own
        refine ⟨p.variant.key, ".bc", by decide, ?_⟩
        rw [Variant.name, Path.name, irPath_fileName isSource isPlan]
        show Text.lossy (utf8 _) = _
        rw [lossy_utf8, String.append_assoc]
        rfl
      · obtain ⟨front, extension, known, name⟩ := name_ended p.artifact
        refine ⟨front, extension, known, ?_⟩
        rw [Variant.name, p.irPath_of_ir (by simpa using isSource)]
        exact name
    obtain ⟨front, extension, known, name⟩ := ended _ variant "interesting-"
    exact ⟨front, extension, known, by rw [keptPlace_eq p.clean, keptName_eq, name]⟩
  | text isBinary =>
    obtain ⟨stem, -, place⟩ := @textPlace_eq b c p.variant p.clean isBinary
    exact ⟨stem, ".ll", by decide, place⟩
  | assembled => exact ⟨_, ".bc", by decide, assembledPlace_eq sited _⟩
  | reduced =>
    rw [place_reducedPath sited]
    cases level : Backend.of p.artifact with
    | irLevel =>
      refine ⟨"reduced-" ++ Plan.stemOf p.variant.irPath, ".ll", by decide, ?_⟩
      rw [reducedName_ir level, Reduce.irName]
      simp
    | sourceLevel =>
      obtain ⟨front, extension, known, name⟩ := ended _ (name_ended p.artifact) "source-reduced-"
      exact ⟨front, extension, known, by rw [reducedName_source level, sourceName_eq, name]⟩

/-- No name that ends in another way is the name of what is collected. -/
theorem product_ne_ended (sited : Sited b c) {p : Pair c} (product : Product b c p q)
    {directory : Place} {name : Bytes} (ending : String) (ends : utf8 ending <:+ name)
    (unlike : ∀ extension ∈ extensions,
      ¬ (utf8 ending <:+ utf8 extension ∨ utf8 extension <:+ utf8 ending)) :
    q ≠ directory ++ [name] := by
  obtain ⟨front, extension, known, rfl⟩ := product_ended sited product
  intro same
  have names := List.singleton_inj.mp (List.append_inj' same rfl).2
  rw [← names] at ends
  refine unlike extension known (List.suffix_or_suffix_of_suffix ends ?_)
  rw [utf8_append]
  exact List.suffix_append ..

/-- A sentinel that can be written lies beside the IR. -/
theorem crashPlace_writable (grown : Grown v) {p : Path} {kind : Kind}
    (isKind : Kind.ofPath? p = some kind) (named : endsIdle p = false) (there : v (b.place p) ≠ none)
    {stage : Stage} (writable : v.writable (crashPlace b p stage)) :
    ∃ parent name, b.place p = parent ++ [name] ∧ ∃ stem,
      crashPlace b p stage = parent ++ [stem ++ Path.dot :: utf8 stage.sentinelExtension] ∧
      name ≠ stem ++ Path.dot :: utf8 stage.sentinelExtension := by
  obtain ⟨parent, name, place, -, crash⟩ := @crashPlace_eq b p kind isKind named stage
  refine ⟨parent, name, place, ?_⟩
  obtain crash | beside := crash
  · have inside := grown _ there
    rw [place, List.dropLast_concat] at inside
    simp [View.writable, crash, grown.parent inside] at writable
  · exact beside

theorem product_ne_crashPlace (grown : Grown v) (sited : Sited b c) {pair : Pair c}
    (product : Product b c pair q) {p : Path} {kind : Kind} (isKind : Kind.ofPath? p = some kind)
    (named : endsIdle p = false) (there : v (b.place p) ≠ none) {stage : Stage}
    (writable : v.writable (crashPlace b p stage)) : q ≠ crashPlace b p stage := by
  obtain ⟨parent, _, -, stem, crash, -⟩ := crashPlace_writable grown isKind named there writable
  rw [crash]
  refine product_ne_ended sited product stage.sentinelExtension ⟨stem ++ [Path.dot], by simp⟩ ?_
  cases stage <;> decide

/-! ## Workspaces that are kept -/

/-- Where no name that ends like a workspace's can be on the way to the output directory, a workspace
is none of the places that belong to an artifact or the cache. -/
theorem scratch_of_drawn (grounds : Grounds b c) (grown : Grown v)
    (directory : v.directory (b.place (cacheOf c).irDir)) (there : v (b.place a.path) ≠ none)
    (named : endsIdle a.path = false)
    (plain : c.debug → ∀ name ∈ b.place c.outputRoot, ¬ utf8 ".scratch" <:+ name) (debug : c.debug)
    {before : String} {name : Bytes} (drawn : Drawn v before ".scratch" name)
    (below : b.place b.temporary ++ [name] <+: q) : Scratch b c a source q := by
  have inside : name ∈ q := mem_of_below below
  have ends : utf8 ".scratch" <:+ name := by
    obtain ⟨middle, -, form⟩ := drawn.form
    rw [form, utf8_append]
    exact List.suffix_append ..
  refine ⟨debug, ⟨name, ends, below⟩, fun claimed => ?_⟩
  cases claimed with
  | slot slot => exact (rooted_of_irDir grown directory).notMem_slot drawn slot inside
  | product product =>
    obtain ⟨front, extension, known, place⟩ := product_ended grounds.toSited product
    rw [place, List.mem_append, List.mem_singleton] at inside
    obtain way | rfl := inside
    · exact plain debug name way ends
    · refine product_ne_ended grounds.toSited product ".scratch" ends ?_ place
      decide
  | sentinel flags stage =>
    by_cases isSource : a.isSource
    · rw [crashPlace_source isSource, List.mem_append, List.mem_singleton] at inside
      obtain way | rfl := inside
      · refine drawn.fresh _ ?_ way
        intro none
        rw [View.directory, none] at directory
        cases directory
      · have extension : utf8 stage.sentinelExtension <:+ utf8 (planOf c a source flags).key ++
            Path.dot :: utf8 stage.sentinelExtension :=
          ⟨utf8 (planOf c a source flags).key ++ [Path.dot], by simp⟩
        have := List.suffix_or_suffix_of_suffix ends extension
        revert this
        cases stage <;> decide
    · rw [irPath_ir (by simpa using isSource)] at inside
      exact notMem_crashPlace a.kind_of_path named there drawn stage inside

end Places

/-! ## Passages -/

/-- How a place may change that is not left as it was. -/
inductive Touched (b : Bench) (c : Config) (a : Artifact) (source : Bytes) (sets : List (List String))
    (v t : View) (q : Place) : Prop
  | opened {flags : List String} (among : flags ∈ sets)
      (interesting : reached b c a flags source = some .interesting)
      (temporary : v.directory (b.place b.temporary)) (free : v q = none)
      (made : t q = some .directory) (way : q <+: b.place c.outputRoot)
  | written (trace : Trace b c a source sets q) (before : v.directory q = false)
      (after : t.directory q = false) (gone : t q = none → ∃ key, q = irPlace b c key)
  | scratched (temporary : v.directory (b.place b.temporary)) (free : v q = none)
      (scratch : Scratch b c a source q)

/-- Whether a key has a marker. -/
def Marked (b : Bench) (c : Config) (key : String) (v : View) : Prop :=
  ∃ verdict ending, Cache.markerEnding? verdict = some ending ∧ v (markerPlace b c key ending) ≠ none

/-- How the files move on in checks of some of an artifact's variants. Compiled IR comes to be there
only when it is complete, and goes only when there is a marker. -/
structure Passage (b : Bench) (c : Config) (a : Artifact) (source : Bytes) (sets : List (List String))
    (v t : View) : Prop where
  touched : ∀ q, t q ≠ v q → Touched b c a source sets v t q
  ir : ∀ flags, Marked b c (planOf c a source flags).key t ∨
    t (irPlace b c (planOf c a source flags).key) = v (irPlace b c (planOf c a source flags).key) ∨
    v (irPlace b c (planOf c a source flags).key) = none ∧ ∃ other ∈ sets,
      (planOf c a source other).key = (planOf c a source flags).key ∧
      ∃ bytes, compiled b c a.kind other source = .bitcode bytes ∧
        t (irPlace b c (planOf c a source flags).key) = some (.file bytes false)
  assembled : a.isSource = false → Assembled b c (pairOf c a source []) (some source) v t

section Passage

variable {sets more : List (List String)} {q : Place}

theorem Touched.steady (touched : Touched b c a source sets v t q) : v.directory q = false := by
  cases touched with
  | opened _ _ _ free => rw [View.directory, free, Option.any_none]
  | written _ before => exact before
  | scratched _ free => rw [View.directory, free, Option.any_none]

theorem Touched.mono (touched : Touched b c a source sets v t q)
    (among : ∀ flags ∈ sets, flags ∈ more) : Touched b c a source more v t q := by
  cases touched with
  | opened member interesting temporary free made way =>
    exact .opened (among _ member) interesting temporary free made way
  | written trace before after gone => exact .written (trace.mono among) before after gone
  | scratched temporary free scratch => exact .scratched temporary free scratch

theorem Passage.refl (v : View) : Passage b c a source sets v v where
  touched _ changed := absurd rfl changed
  ir _ := .inr (.inl rfl)
  assembled _ := .inr (.inl rfl)

theorem Passage.mono (h : Passage b c a source sets v t) (among : ∀ flags ∈ sets, flags ∈ more) :
    Passage b c a source more v t where
  touched q changed := (h.touched q changed).mono among
  ir flags := by
    obtain marked | same | ⟨free, other, member, built⟩ := h.ir flags
    · exact .inl marked
    · exact .inr (.inl same)
    · exact .inr (.inr ⟨free, other, among other member, built⟩)
  assembled := h.assembled

/-- Directories stay. -/
theorem Passage.steady (h : Passage b c a source sets v t) (there : v.directory q) : t.directory q := by
  by_cases same : t q = v q
  · rwa [directory_congr same]
  · rw [(h.touched q same).steady] at there
    cases there

/-- Where temporary files have a place now, they had one before. -/
theorem Passage.temporary (h : Passage b c a source sets v t)
    (there : t.directory (b.place b.temporary)) : v.directory (b.place b.temporary) := by
  by_cases same : t (b.place b.temporary) = v (b.place b.temporary)
  · rwa [directory_congr same] at there
  · cases h.touched _ same with
    | opened _ _ temporary => exact temporary
    | scratched temporary => exact temporary
    | written _ _ after =>
      rw [after] at there
      cases there

/-- What is neither written nor made anew stays, but for compiled IR. -/
theorem Passage.stays (h : Passage b c a source sets v t) (there : v q ≠ none)
    (other : ∀ key, q ≠ irPlace b c key) : t q ≠ none := by
  intro gone
  cases h.touched q (gone ▸ there.symm) with
  | opened _ _ _ free => exact there free
  | scratched _ free => exact there free
  | written _ _ _ gone' =>
    obtain ⟨key, same⟩ := gone' gone
    exact other key same

/-- The program stays as it is. -/
theorem Passage.program (sited : Sited b c) (h : Passage b c a source sets v t)
    (there : v (b.place a.path) ≠ none) : t (b.place a.path) = v (b.place a.path) := by
  refine Decidable.byContradiction fun changed => ?_
  cases h.touched _ changed with
  | opened _ _ _ free => exact there free
  | scratched _ free => exact there free
  | written trace => exact trace.ne_program sited rfl

theorem Passage.marked (h : Passage b c a source sets v t) {key : String} (marked : Marked b c key v) :
    Marked b c key t := by
  obtain ⟨verdict, ending, ends, there⟩ := marked
  exact ⟨verdict, ending, ends, h.stays there fun other same => irPlace_ne_markerPlace other key ending same.symm⟩

theorem Passage.trans (grounds : Grounds b c) (h : Passage b c a source sets u v)
    (k : Passage b c a source sets v t) : Passage b c a source sets u t where
  touched q changed := by
    by_cases first : v q = u q
    · have changed' : t q ≠ v q := first ▸ changed
      cases k.touched q changed' with
      | opened among interesting temporary free made way =>
        exact .opened among interesting (h.temporary temporary) (first ▸ free) made way
      | written trace before after gone => exact .written trace (directory_congr first ▸ before) after gone
      | scratched temporary free scratch =>
        exact .scratched (h.temporary temporary) (first ▸ free) scratch
    · cases h.touched q first with
      | scratched temporary free scratch => exact .scratched temporary free scratch
      | opened among interesting temporary free made way =>
        have same : t q = v q := by
          refine Decidable.byContradiction fun second => ?_
          have noDirectory := (k.touched q second).steady
          rw [View.directory, made] at noDirectory
          cases noDirectory
        exact .opened among interesting temporary free (same ▸ made) way
      | written trace before after gone =>
        by_cases second : t q = v q
        · exact .written trace before (directory_congr second ▸ after) (second ▸ gone)
        · cases k.touched q second with
          | opened _ _ _ free _ way =>
            obtain ⟨key, rfl⟩ := gone free
            exact absurd way (irPlace_off_way grounds key)
          | written _ _ after gone => exact .written trace before after gone
          | scratched _ _ scratch => exact absurd trace.claimed scratch.2.2
  ir flags := by
    obtain marked | same | ⟨free, other, member, sameKey, bytes, isCompiled, built⟩ := k.ir flags
    · exact .inl marked
    · obtain marked | before | ⟨free, other, member, sameKey, bytes, isCompiled, built⟩ := h.ir flags
      · exact .inl (k.marked marked)
      · exact .inr (.inl (same.trans before))
      · exact .inr (.inr ⟨free, other, member, sameKey, bytes, isCompiled, same.trans built⟩)
    · obtain marked | before | ⟨_, _, _, _, _, _, there⟩ := h.ir flags
      · exact .inl (k.marked marked)
      · exact .inr (.inr ⟨before ▸ free, other, member, sameKey, bytes, isCompiled, built⟩)
      · cases free.symm.trans there
  assembled ir := by
    obtain there | same | conjures := k.assembled ir
    · exact .inl there
    · obtain there | before | conjures := h.assembled ir
      · exact .inl (k.stays there (product_ne_irPlace grounds .reduced))
      · exact .inr (.inl (same.trans before))
      · exact .inr (.inr conjures)
    · exact .inr (.inr conjures)

end Passage

end BugHunt.Proofs.Passages
