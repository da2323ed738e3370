import BugHunt.Pipeline.Classify
import BugHunt.Proofs.Courses
import BugHunt.Proofs.Passages
import BugHunt.Proofs.Succeeding
/-!
The names that are derived from an artifact's: of its compiled IR, of assembled and disassembled
files, of the copies that are kept and of what they are reduced to. Main statement: each name has the
kind that its file is made with, so nothing that is given to be assembled or disassembled is taken
for something else than IR.
-/

namespace BugHunt.Proofs.DerivedNames
open Names Texts Places VariantKeys Collecting Reducing Succeeding Passages Courses Asking Runs

/-! ## Names and kinds -/

theorem kind_of_programmed {p : Path} {kind : Kind} {stem extension : Bytes}
    (h : Programmed p kind stem extension) : Kind.ofPath? p = some kind := by
  rw [Kind.ofPath?, Path.extension?, h.named, Option.bind_some, splitName_dot h.stemmed h.plain]
  simpa [Option.bind_eq_bind] using h.known

/-- An extension that stands for a kind is a name without dots and slashes. -/
theorem plain_of_known {extension : String} {kind : Kind}
    (known : Kind.ofExtension? extension = some kind) :
    utf8 extension ≠ [] ∧ Path.dot ∉ utf8 extension ∧ Path.slash ∉ utf8 extension := by
  have ending := extension_known known
  simp only [extensions, List.mem_cons, List.not_mem_nil, or_false] at ending
  have same {other : String} (dotted : "." ++ extension = "." ++ other) : extension = other := by
    simpa using dotted
  rcases ending with ending | ending | ending | ending | ending
  · obtain rfl : extension = "c" := same ending
    decide
  · obtain rfl : extension = "cpp" := same ending
    decide
  · obtain rfl : extension = "C" := same ending
    decide
  · obtain rfl : extension = "ll" := same ending
    decide
  · obtain rfl : extension = "bc" := same ending
    decide

/-- What is not empty is shown as something. -/
theorem lossy_ne_empty {bytes : Bytes} (some : bytes ≠ []) : Text.lossy bytes ≠ "" := by
  obtain ⟨lead, rest, rfl⟩ := List.exists_cons_of_ne_nil some
  intro empty
  have none := congrArg String.toList empty
  rw [Text.lossy, Text.chunks, Text.chunksOnto] at none
  generalize Text.scan lead rest = scanned at none
  obtain ⟨chunk, used⟩ := scanned
  simp [chunksOnto_eq [chunk]] at none

/-- The kind of an entry whose name ends in a dot and an extension follows from the extension,
whatever stands before it. -/
theorem entry_programmed (d : Path) {stem extension : String} {kind : Kind} (named : stem ≠ "")
    (clean : '/' ∉ stem.toList) (known : Kind.ofExtension? extension = some kind) :
    Programmed (d / Path.ofString (stem ++ "." ++ extension)) kind (utf8 stem) (utf8 extension) := by
  obtain ⟨some, plain, cleanExtension⟩ := plain_of_known known
  have bytes : utf8 (stem ++ "." ++ extension) = utf8 stem ++ Path.dot :: utf8 extension := by
    simp [utf8_dot]
  have stemmed : utf8 stem ≠ [] := fun empty => named (utf8_injective empty)
  have proper : Proper (utf8 (stem ++ "." ++ extension)) := by
    apply proper_of_length
    · intro found
      simp only [String.toList_append, List.mem_append] at found
      rcases found with (found | found) | found
      · exact clean found
      · exact absurd found (by decide)
      · exact cleanExtension (slash_mem_utf8 found)
    · have := List.length_pos_iff.mpr some
      have := List.length_pos_iff.mpr stemmed
      rw [bytes, List.length_append, List.length_cons]
      omega
  exact ⟨by rw [entry_fileName d proper, bytes], stemmed, plain, by rw [decode?_utf8]; exact known⟩

/-- A program's name as text: the stem, a dot, and the extension that tells its kind. -/
theorem name_of_programmed {p : Path} {kind : Kind} (isKind : Kind.ofPath? p = some kind) :
    ∃ stem extension, p.name = stem ++ "." ++ extension ∧ stem ≠ "" ∧ '/' ∉ stem.toList ∧
      Plan.stemOf p = stem ∧ Kind.ofExtension? extension = some kind := by
  obtain ⟨stem, extension, programmed⟩ := programmed_of_kind isKind
  obtain ⟨text, decoded, known⟩ := Option.bind_eq_some_iff.mp programmed.known
  refine ⟨Text.lossy stem, text, ?_, lossy_ne_empty programmed.stemmed,
    slash_notMem_lossy programmed.clean.1, stemOf_program programmed, known⟩
  have dot : Char.ofNat Path.dot.toNat = '.' := by decide
  have shown := lossy_ascii (b := Path.dot) (by decide) stem extension
  rw [lossy_of_decode decoded, dot] at shown
  rw [Path.name, programmed.named]
  apply String.toList_injective
  simpa using shown

/-- With a sign in front of it that is long enough, a text is a stem. -/
theorem signed_stem {sign stem : String} (long : 2 ≤ (utf8 sign).length) (cleanSign : '/' ∉ sign.toList)
    (clean : '/' ∉ stem.toList) : Stem (utf8 (sign ++ stem)) := by
  have long : 2 ≤ (utf8 (sign ++ stem)).length := by
    rw [utf8_append, List.length_append]
    omega
  refine ⟨?_, ?_, fun found => ?_⟩
  · intro empty
    rw [empty] at long
    cases long
  · intro dot
    rw [dot] at long
    exact absurd long (by decide)
  · have := slash_of_mem_utf8 found
    simp [cleanSign, clean] at this

/-- With a sign in front of it, a program's name is that of a program of the same kind. -/
theorem signed_kind (d : Path) (sign : String) {p : Path} {kind : Kind}
    (cleanSign : '/' ∉ sign.toList) (isKind : Kind.ofPath? p = some kind) :
    Kind.ofPath? (d / Path.ofString (sign ++ p.name)) = some kind := by
  obtain ⟨stem, extension, name, named, clean, -, known⟩ := name_of_programmed isKind
  rw [name, ← String.append_assoc, ← String.append_assoc]
  refine kind_of_programmed (entry_programmed d (fun empty => named ?_) ?_ known)
  · exact (String.append_eq_empty_iff.mp empty).2
  · simp [cleanSign, clean]

/-! ## The names of a variant -/

/-- Whether a variant is planned for an artifact: with whatever flags, of whatever content, into
whatever directory. -/
def Planned (c : Config) (a : Artifact) (v : Variant) : Prop :=
  ∃ outDir flags content, v.toPlan = Plan.ofContent c.extraArgs outDir a flags content

variable {c : Config} {a : Artifact} {v : Variant}

theorem Planned.ir (planned : Planned c a v) (ir : a.isSource = false) : v.irPath = a.path := by
  obtain ⟨outDir, flags, content, plan⟩ := planned
  rw [plan, Plan.ofContent, ir]
  rfl

/-- The planned IR of a source is bitcode. -/
theorem Planned.source (planned : Planned c a v) (isSource : a.isSource) :
    Kind.ofPath? v.irPath = some .binaryIr := by
  obtain ⟨outDir, flags, content, plan⟩ := planned
  have known : Kind.ofExtension? "bc" = some .binaryIr := by decide
  have ending : "." ++ "bc" = ".bc" := by decide
  have key : Plan.sourceKey a.path content flags c.extraArgs ≠ "" := by
    intro empty
    have length := congrArg (fun key : String => key.toList.length) empty
    simp [Plan.sourceKey, shortDigest_length] at length
  rw [plan, Plan.ofContent, if_pos isSource]
  have kind := kind_of_programmed (entry_programmed outDir key (slash_notMem_sourceKey _ _ _ _) known)
  rw [String.append_assoc, ending] at kind
  simpa using kind

theorem Planned.isIr (planned : Planned c a v) :
    ∃ kind : Kind, Kind.ofPath? v.irPath = some kind ∧ kind.isIr := by
  cases isSource : a.isSource with
  | true => exact ⟨.binaryIr, planned.source isSource, rfl⟩
  | false =>
    refine ⟨a.kind, ?_, ?_⟩
    · rw [planned.ir isSource]
      exact a.kind_of_path
    · have : a.kind.isSource = false := isSource
      simp [Kind.isIr, this]

/-- What textual IR is assembled to is bitcode. -/
theorem assembled_kind (d : Path) {p : Path} (isText : Kind.ofPath? p = some .textIr) :
    Kind.ofPath? (d / s!"{Plan.stemOf p}.bc") = some .binaryIr := by
  obtain ⟨stem, extension, -, named, clean, isStem, -⟩ := name_of_programmed isText
  have known : Kind.ofExtension? "bc" = some .binaryIr := by decide
  have ending : "." ++ "bc" = ".bc" := by decide
  have kind := kind_of_programmed (entry_programmed d named clean known)
  rw [String.append_assoc, ending] at kind
  rw [isStem]
  simpa using kind

/-- The copy that is kept of a variant is of the same kind. -/
theorem Planned.kept (planned : Planned c a v) (d : Path) :
    Kind.ofPath? (d / Reduce.keptName v) = Kind.ofPath? v.irPath := by
  obtain ⟨kind, isKind, -⟩ := planned.isIr
  rw [isKind, keptName_eq, Variant.name]
  exact signed_kind d "interesting-" (by decide) isKind

/-- The text beside the copy that is kept is textual IR. -/
theorem Planned.text (planned : Planned c a v) (d : Path) :
    Kind.ofPath? ((d / Reduce.keptName v).withExtension "ll") = some .textIr := by
  obtain ⟨kind, isKind, -⟩ := planned.isIr
  obtain ⟨stem, extension, name, named, clean, -, known⟩ := name_of_programmed isKind
  obtain ⟨-, plain, cleanExtension⟩ := plain_of_known known
  have signed : Stem (utf8 ("interesting-" ++ stem)) := signed_stem (by decide) (by decide) clean
  have isText : Kind.ofExtension? "ll" = some .textIr := by decide
  rw [keptName_eq, Variant.name, name, ← String.append_assoc, ← String.append_assoc]
  show Kind.ofPath? ((d / Path.ofString _).withExtension "ll") = _
  rw [entry_withExtension d signed cleanExtension plain (by decide)]
  refine kind_of_programmed (entry_programmed d (fun empty => named ?_) ?_ isText)
  · exact (String.append_eq_empty_iff.mp empty).2
  · simp [clean]

/-- The copy that a source is reduced in is a source of the same kind. -/
theorem source_kind (d : Path) (a : Artifact) : Kind.ofPath? (d / Reduce.sourceName a) = some a.kind := by
  rw [sourceName_eq, Artifact.name]
  exact signed_kind d "source-reduced-" (by decide) a.kind_of_path

/-! ## What actions come to -/

/-- Whether a result is such an error or such a value. -/
def Fits (E : ε → Prop) (Q : α → Prop) : Except ε α → Prop
  | .ok value => Q value
  | .error e => E e

/-- Whether an action comes to such errors and values alone, whatever it is answered. -/
def Comes (E : ε → Prop) (Q : α → Prop) (a : Action ε α) : Prop :=
  ∀ xs result, Course a.run xs result → Fits E Q result

/-- Any value will do. -/
def Any (_ : α) : Prop := True

section Rules

variable {E : ε → Prop} {Q : α → Prop} {a : Action ε α} {R : β → Prop} {f : α → Action ε β}

theorem Comes.any (a : Action ε α) : Comes Any Any a := by
  intro xs result _
  cases result <;> trivial

theorem Comes.pure {value : α} (holds : Q value) : Comes E Q (pure value : Action ε α) := by
  intro xs result course
  obtain ⟨-, rfl⟩ := course_done course
  exact holds

theorem Comes.throw {e : ε} (holds : E e) : Comes E Q (throw e : Action ε α) := by
  intro xs result course
  obtain ⟨-, rfl⟩ := course_done course
  exact holds

theorem Comes.throw_bind {e : ε} (holds : E e) : Comes E R (MonadExcept.throw e >>= f) := by
  intro xs result course
  obtain ⟨-, rfl⟩ := course_done course
  exact holds

theorem Comes.bind (first : Comes E Q a) (second : ∀ value, Q value → Comes E R (f value)) :
    Comes E R (a >>= f) := by
  intro xs result course
  rw [ExceptT.run_bind] at course
  obtain ⟨ys, zs, answer, -, before, after⟩ := course.split
  have holds := first ys answer before
  cases answer with
  | ok value => exact second value holds zs result after
  | error e =>
    obtain ⟨-, rfl⟩ := course_done after
    exact holds

theorem Comes.adapt {F : φ → Prop} {g : ε → φ} (comes : Comes E Q a) (same : ∀ e, E e → F (g e)) :
    Comes F Q (a.adapt g) := by
  intro xs result course
  obtain ⟨ys, zs, answer, -, before, after⟩ := Course.split (p := a.run) course
  obtain ⟨-, rfl⟩ := course_done after
  have holds := comes ys answer before
  cases answer with
  | ok value => exact holds
  | error e => exact same e holds

theorem Comes.lifted (p : Program α) : Comes E Any (monadLift p : Action ε α) := by
  intro xs result course
  obtain ⟨ys, zs, value, -, -, after⟩ := Course.split (p := p) course
  obtain ⟨-, rfl⟩ := course_done after
  trivial

theorem Comes.orFail {p : Program (Except φ α)} {toError : φ → ε}
    (holds : ∀ failure, E (toError failure)) : Comes E Any (Action.orFail p toError) := by
  intro xs result course
  obtain ⟨ys, zs, answer, -, -, after⟩ := Course.split (p := p) course
  cases answer with
  | ok value =>
    obtain ⟨-, rfl⟩ := course_done after
    trivial
  | error failure =>
    obtain ⟨-, rfl⟩ := course_done after
    exact holds failure

theorem Comes.cleaningUp {cleanup : Except ε α → Program Unit} (comes : Comes E Q a) :
    Comes E Q (a.cleaningUp cleanup) := by
  intro xs result course
  obtain ⟨ys, zs, answer, -, before, after⟩ := Course.split (p := a.run) course
  obtain ⟨us, vs, value, -, -, ended⟩ := Course.split (p := cleanup answer) after
  obtain ⟨-, rfl⟩ := course_done ended
  exact comes ys result before

/-- An action whose result is looked at as a value. -/
theorem Comes.attempt {F : φ → Prop} {a : Action φ α} {f : Except φ α → Action ε β}
    (first : Comes F Q a) (rest : ∀ result, Fits F Q result → Comes E R (f result)) :
    Comes E R (ExceptT.lift a.run >>= f) := by
  intro xs result course
  rw [ExceptT.run_bind] at course
  obtain ⟨xs, zs, lifted, -, before, after⟩ := course.split
  obtain ⟨ys, us, answer, -, attempted, ended⟩ := Course.split (p := a.run) before
  obtain ⟨-, rfl⟩ := course_done ended
  exact rest answer (first ys answer attempted) zs result after

theorem Comes.mono {P : α → Prop} (comes : Comes E Q a) (implies : ∀ value, Q value → P value) :
    Comes E P a := by
  intro xs result course
  have fits := comes xs result course
  cases result with
  | ok value => exact implies value fits
  | error e => exact fits

theorem Comes.exec (comes : Comes E Q a) {host : Host σ} {s : σ} : Fits E Q (exec host s a).1 :=
  comes _ _ (course_run host s a.run)

end Rules

/-! ## Conversions -/

/-- Errors that do not say that something else than IR was given where IR was expected. -/
def Straight (e : CompileError) : Prop := ∀ path, e ≠ .notIr path

def StraightOracle (e : OracleError) : Prop := ∀ path, e ≠ .assemble (.notIr path)

def StraightReduce (e : ReduceError) : Prop := ∀ path, e ≠ .compile (.notIr path)

/-- An error in which something else than IR was given where IR was expected. -/
inductive Misled : PipelineError → Prop
  | compile (path : Path) : Misled (.compile (.notIr path))
  | oracle (path : Path) : Misled (.oracle (.assemble (.notIr path)))
  | reduce (path : Path) : Misled (.reduce (.compile (.notIr path)))

theorem runTool_comes (c : Config) (command : Command) :
    Comes Straight Any (Compile.runTool c command) :=
  (Comes.any _).adapt fun _ _ => by rintro _ ⟨⟩

theorem convert_comes (c : Config) (tool input output : Path) :
    Comes Straight Any (Compile.convert c tool input output) := by
  unfold Compile.convert
  refine .bind (runTool_comes c _) fun outcome _ => ?_
  cases outcome with
  | completed _ => exact .pure trivial
  | failed _ => exact .throw (by rintro _ ⟨⟩)
  | timedOut => exact .throw (by rintro _ ⟨⟩)

/-- IR is assembled to bitcode. -/
theorem assemble_comes (c : Config) {path : Path} (directory : Path) {kind : Kind}
    (isKind : Kind.ofPath? path = some kind) (ir : kind.isIr) :
    Comes Straight (fun output => Kind.ofPath? output = some .binaryIr)
      (Compile.assemble c path directory) := by
  have checked (output : Path) (isBinary : Kind.ofPath? output = some .binaryIr) :
      Comes Straight (fun output => Kind.ofPath? output = some .binaryIr) (do
        if !(← Compile.looksLikeBitcode output) then
          throw (.notBitcode c.tools.llvmAs.display output)
        return output : Compiling Path) := by
    refine .bind (.lifted _) fun fine _ => ?_
    cases fine
    · exact .throw_bind (by rintro _ ⟨⟩)
    · exact .pure isBinary
  unfold Compile.assemble
  dsimp only
  rw [isKind]
  cases kind with
  | cSource => cases ir
  | cxxSource => cases ir
  | binaryIr => exact .bind (.pure isKind) checked
  | textIr =>
    exact .bind (.orFail fun _ => by rintro _ ⟨⟩) fun _ _ =>
      .bind (convert_comes c _ _ _) fun _ _ => .bind (.pure (assembled_kind directory isKind)) checked

/-- IR beside whose bitcode text would be textual IR is disassembled to textual IR. -/
theorem disassemble_comes (c : Config) {path : Path} {kind : Kind}
    (isKind : Kind.ofPath? path = some kind) (ir : kind.isIr)
    (isText : Kind.ofPath? (path.withExtension "ll") = some .textIr) :
    Comes Straight (fun output => Kind.ofPath? output = some .textIr)
      (Compile.disassemble c path) := by
  unfold Compile.disassemble
  rw [isKind]
  cases kind with
  | cSource => cases ir
  | cxxSource => cases ir
  | textIr => exact .pure isKind
  | binaryIr =>
    refine .bind (convert_comes c _ _ _) fun _ _ => .bind (.lifted _) fun found _ => ?_
    cases found
    · exact .throw_bind (by rintro _ ⟨⟩)
    · exact .pure isText

theorem plan_comes (c : Config) (directory : Path) (a : Artifact) (flags : List String) :
    Comes Straight (fun p => ∃ content, p = Plan.ofContent c.extraArgs directory a flags content)
      (Compile.plan c directory a flags) :=
  .bind (.orFail fun _ => by rintro _ ⟨⟩) fun content _ => .pure ⟨content, rfl⟩

/-- A build makes a variant of what was planned. -/
theorem build_comes (c : Config) (directory : Path) (a : Artifact) (p : Plan) :
    Comes Straight (fun v => v.toPlan = p) (Compile.build c directory a p) := by
  have staged (staging : Path) : Comes Straight Any (Compile.intoStaging c a p staging) := by
    unfold Compile.intoStaging
    refine .bind (runTool_comes c _) fun outcome _ => ?_
    cases outcome with
    | completed _ =>
      refine .bind (.lifted _) fun fine _ => ?_
      cases fine
      · exact .throw_bind (by rintro _ ⟨⟩)
      · exact .bind (.orFail fun _ => by rintro _ ⟨⟩) fun _ _ => .pure trivial
    | failed _ => exact .pure trivial
    | timedOut => exact .pure trivial
  unfold Compile.build
  split
  · exact .pure rfl
  · refine .bind (.lifted _) fun done _ => ?_
    cases done
    · exact .bind (.orFail fun _ => by rintro _ ⟨⟩) fun _ _ =>
        .bind (.orFail fun _ => by rintro _ ⟨⟩) fun staging _ =>
          .bind (.cleaningUp (staged staging)) fun _ _ => .pure rfl
    · exact .pure rfl

theorem compile_comes (c : Config) (directory : Path) (a : Artifact) (flags : List String) :
    Comes Straight (Planned c a) (Compile.compile c directory a flags) := by
  refine .bind (plan_comes c directory a flags) fun p ⟨content, isPlan⟩ => ?_
  exact (build_comes c directory a p).mono fun v isVariant =>
    ⟨directory, flags, content, isVariant.trans isPlan⟩

theorem compileAll_comes (c : Config) (directory : Path) (a : Artifact) :
    Comes Straight (fun vs => ∀ v ∈ vs, Planned c a v) (Compile.variants c directory a) := by
  unfold Compile.variants
  induction flagSets c a with
  | nil => exact .pure (by simp)
  | cons flags rest ih =>
    exact .bind (compile_comes c directory a flags) fun v planned => .bind ih fun vs all =>
      .pure (List.forall_mem_cons.mpr ⟨planned, all⟩)

/-! ### Verdicts -/

theorem scan_comes (assertions : List String) (directory : Path) :
    Comes StraightOracle Any (Relations.scan assertions directory) := by
  have violated : Comes StraightOracle Any (Relations.firstViolated directory assertions) := by
    induction assertions with
    | nil => exact .pure trivial
    | cons relation rest ih =>
      refine .bind (.orFail fun _ => by rintro _ ⟨⟩) fun content _ => ?_
      split
      · exact .throw (by rintro _ ⟨⟩)
      · exact .pure trivial
      · exact ih
  refine .bind (.lifted _) fun found _ => ?_
  cases found
  · exact violated
  · exact .throw (by rintro _ ⟨⟩)

theorem reportTrouble_comes (ir tool : Path) (stage : Stage) (crash timeout : String)
    (result : StageResult) :
    Comes StraightOracle Any (Oracle.reportTrouble ir tool stage crash timeout result) := by
  have written (s : Sentinel) : Comes StraightOracle Any s.write :=
    .bind (.orFail fun _ => by rintro _ ⟨⟩) fun _ _ => .pure trivial
  unfold Oracle.reportTrouble
  split
  · exact .bind (.lifted _) fun _ _ => .bind (.lifted _) fun _ _ =>
      .bind (written _) fun _ _ => .pure trivial
  · exact .lifted _

/-- The oracle is not misled about a variant. -/
theorem classify_comes (planned : Planned c a v) :
    Comes StraightOracle Any (Oracle.classify c v.irPath) := by
  obtain ⟨kind, isKind, ir⟩ := planned.isIr
  have staged (command : Command) : Comes StraightOracle Any (Oracle.runStage c command) :=
    .bind ((Comes.any _).adapt fun _ _ => by rintro _ ⟨⟩) fun _ _ => .pure trivial
  have judged (w : Workspace) : Comes StraightOracle Any (Oracle.classifyIn c w v.irPath) := by
    unfold Oracle.classifyIn
    refine .bind ((assemble_comes c w.root isKind ir).adapt fun e straight path same =>
      straight path (by cases same; rfl)) fun bitcode _ => .bind (staged _) fun facts _ => ?_
    split
    · exact .bind (reportTrouble_comes _ _ _ _ _ _) fun _ _ => .pure trivial
    · refine .bind (staged _) fun analysis _ => ?_
      split
      · exact .bind (reportTrouble_comes _ _ _ _ _ _) fun _ _ => .pure trivial
      · exact .bind (scan_comes _ _) fun _ _ => .pure trivial
  exact .bind ((Comes.any _).adapt fun _ _ => by rintro _ ⟨⟩) fun w _ => .cleaningUp (judged w)

/-! ### Reductions -/

theorem minimize_comes (c : Config) (command : Command) (input : Path) :
    Comes StraightReduce Any (Reduce.minimize c command input) := by
  unfold Reduce.minimize
  refine .bind ((Comes.any _).adapt fun _ _ => by rintro _ ⟨⟩) fun outcome _ => ?_
  cases outcome with
  | completed _ => exact .pure trivial
  | failed _ => exact .throw (by rintro _ ⟨⟩)
  | timedOut => exact .throw (by rintro _ ⟨⟩)

theorem preserve_comes (c : Config) (v : Variant) : Comes StraightReduce Any (Reduce.preserve c v) := by
  unfold Reduce.preserve
  refine .bind (.orFail fun _ => by rintro _ ⟨⟩) fun _ _ =>
    .bind (.orFail fun _ => by rintro _ ⟨⟩) fun _ _ => .attempt (.any _) fun result _ => ?_
  split
  · exact .pure trivial
  · exact .throw (by rintro _ ⟨⟩)
  · exact .bind (.lifted _) fun _ _ => .pure trivial

/-- The kind of what an artifact is reduced to: textual IR for IR, and a source of its own kind for a
source. -/
def reducedKind (a : Artifact) : Kind :=
  match Backend.of a with
  | .irLevel => .textIr
  | .sourceLevel => a.kind

theorem reduceIr_comes (c : Config) (ir : Path) : Comes StraightReduce
    (· = Path.absolute c.startDirectory c.outputRoot / Reduce.irName ir) (Reduce.reduceIr c ir) := by
  have isText := reduced_kind (Path.absolute c.startDirectory c.outputRoot) ir
  unfold Reduce.reduceIr
  refine .bind (.lifted _) fun done _ => ?_
  split
  · exact .bind (.lifted _) fun _ _ => .pure rfl
  · exact .bind (.lifted _) fun _ _ => .bind (minimize_comes c _ _) fun _ _ =>
      .bind ((assemble_comes c _ isText rfl).adapt fun e straight path same =>
        straight path (by cases same; rfl)) fun _ _ => .pure rfl

theorem reduceSource_comes (c : Config) (a : Artifact) : Comes StraightReduce
    (· = Path.absolute c.startDirectory c.outputRoot / Reduce.sourceName a) (Reduce.reduceSource c a) := by
  have copied (root copy directory : Path) :
      Comes StraightReduce Any (Reduce.reduceCopy c a root copy directory) := by
    unfold Reduce.reduceCopy
    exact .bind (.orFail fun _ => by rintro _ ⟨⟩) fun _ _ =>
      .bind (.orFail fun _ => by rintro _ ⟨⟩) fun _ _ => .bind (.lifted _) fun _ _ =>
        .cleaningUp (minimize_comes c _ _)
  unfold Reduce.reduceSource
  refine .bind (.lifted _) fun done _ => ?_
  split
  · exact .bind (.lifted _) fun _ _ => .pure rfl
  · exact .bind (.orFail fun _ => by rintro _ ⟨⟩) fun _ _ =>
      .bind (.orFail fun _ => by rintro _ ⟨⟩) fun directory _ =>
        .bind (.cleaningUp (copied _ _ directory)) fun _ _ => .pure rfl

/-- A dispatch comes to the path of the reduced form, or to an error. -/
theorem dispatch_comes (c : Config) (a : Artifact) (v : Variant) :
    Comes StraightReduce (· = FailedReduction.reducedPath c a v) (Reduce.dispatch c a v) := by
  refine .bind (preserve_comes c v) fun _ _ => ?_
  unfold FailedReduction.reducedPath
  cases Backend.of a with
  | irLevel => exact reduceIr_comes c v.irPath
  | sourceLevel => exact reduceSource_comes c a

theorem reducedPath_kind (c : Config) (a : Artifact) (v : Variant) :
    Kind.ofPath? (FailedReduction.reducedPath c a v) = some (reducedKind a) := by
  unfold FailedReduction.reducedPath reducedKind
  cases Backend.of a with
  | irLevel => exact reduced_kind _ v.irPath
  | sourceLevel => exact source_kind _ a

/-! ### Whole checks -/

theorem compile_misled (e : CompileError) (straight : Straight e) : ¬ Misled (.compile e) :=
  fun | .compile path => straight path rfl

theorem oracle_misled (e : OracleError) (straight : StraightOracle e) : ¬ Misled (.oracle e) :=
  fun | .oracle path => straight path rfl

theorem report_comes (c : Config) (name : String) (verdict : Classification) (s : Summary) :
    Comes (fun e => ¬ Misled e) Any (Check.report c name verdict s) :=
  .bind (.lifted _) fun _ _ => .pure trivial

theorem reduce_comes (c : Config) (a : Artifact) (v : Variant) (s : Summary) :
    Comes (fun e => ¬ Misled e) Any (Check.reduce c a v s) := by
  unfold Check.reduce
  refine .attempt (dispatch_comes c a v) fun result fits => ?_
  split
  · exact .bind (.lifted _) fun _ _ => .pure trivial
  · exact .bind (.lifted _) fun _ _ => .pure trivial
  · exact .throw fun | .reduce path => fits path rfl

theorem store_comes (cache : Cache) (key : String) (verdict : Classification) :
    Comes (fun e => ¬ Misled e) Any ((cache.store key verdict).adapt .cache) :=
  (Comes.any _).adapt fun _ _ => by rintro ⟨⟩

theorem fresh_comes (c : Config) (cache : Cache) (a : Artifact) {p : Plan} {flags : List String}
    {content : Bytes} (isPlan : p = Plan.ofContent c.extraArgs cache.irDir a flags content)
    (s : Summary) : Comes (fun e => ¬ Misled e) Any (Check.fresh c cache a p s) := by
  unfold Check.fresh
  refine .bind ((build_comes c _ a p).adapt compile_misled) fun v isVariant => ?_
  split
  · exact .bind (store_comes cache _ _) fun _ _ => report_comes c _ _ s
  · have planned : Planned c a v := ⟨_, flags, content, isVariant.trans isPlan⟩
    refine .bind ((classify_comes planned).adapt oracle_misled) fun verdict _ =>
      .bind (report_comes c _ verdict s) fun s _ => ?_
    split
    · exact reduce_comes c a v s
    · refine .bind (Q := Any) ?_ fun _ _ => .pure trivial
      unfold Check.settle
      refine .bind (store_comes cache _ _) fun _ _ => ?_
      split
      · exact (Comes.any _).adapt fun _ _ => by rintro ⟨⟩
      · exact .pure trivial

theorem variants_comes (c : Config) (cache : Cache) (a : Artifact) :
    Comes (fun e => ¬ Misled e) Any (Check.variants c cache a) := by
  have one (flags : List String) (s : Summary) :
      Comes (fun e => ¬ Misled e) Any (Check.variant c cache a flags s) := by
    unfold Check.variant
    refine .bind (.lifted _) fun cancelled _ => ?_
    dsimp only
    split
    · exact .throw_bind (by rintro ⟨⟩)
    · refine .bind ((plan_comes c _ a flags).adapt compile_misled) fun p ⟨content, isPlan⟩ =>
        .bind (.lifted _) fun found _ => ?_
      split
      · exact report_comes c _ _ _
      · exact fresh_comes c cache a isPlan s
  unfold Check.variants
  generalize Summary.zero = s
  induction flagSets c a generalizing s with
  | nil => exact .pure trivial
  | cons flags rest ih => exact .bind (one flags s) fun s _ => ih s

theorem judge_comes (c : Config) (a : Artifact) (compiled : Bool) {vs : List Variant}
    (planned : ∀ v ∈ vs, Planned c a v) :
    Comes (fun e => ¬ Misled e) Any (Classify.judge c compiled vs) := by
  induction vs generalizing compiled with
  | nil => exact .pure trivial
  | cons v rest ih =>
    obtain ⟨isPlanned, others⟩ := List.forall_mem_cons.mp planned
    unfold Classify.judge
    split
    · exact .bind (.lifted _) fun _ _ => ih compiled others
    · refine .bind ((classify_comes isPlanned).adapt oracle_misled) fun verdict _ =>
        .bind (.lifted _) fun _ _ => ?_
      split
      · exact .pure trivial
      · exact ih true others

theorem normalized_comes {b : Checking α} (comes : Comes (fun e => ¬ Misled e) Any b) :
    Comes (fun e => ¬ Misled e) Any b.normalized := by
  refine comes.adapt fun e straight => ?_
  unfold PipelineError.normalize
  split
  · rintro ⟨⟩
  · exact straight

theorem check_comes (c : Config) (path : Path) :
    Comes (fun e => ¬ Misled e) Any (Check.program c path) := by
  unfold Check.program
  split
  · exact .throw (by rintro ⟨⟩)
  · exact .bind ((Comes.any _).adapt fun _ _ => by rintro ⟨⟩) fun cache _ =>
      normalized_comes (variants_comes c cache _)

theorem verdict_comes (c : Config) (path : Path) :
    Comes (fun e => ¬ Misled e) Any (Classify.program c path) := by
  unfold Classify.program
  split
  · exact .throw (by rintro ⟨⟩)
  · exact .bind (.orFail fun _ => by rintro ⟨⟩) fun directory _ =>
      .cleaningUp (normalized_comes (.bind ((compileAll_comes c directory _).adapt compile_misled)
        fun vs planned => judge_comes c _ false planned))

/-! ## Main statement -/

/-- The kinds of the names that are derived for a variant of an artifact, in whatever directory. -/
structure Kinds (a : Artifact) (v : Variant) : Prop where
  planned : a.isSource → Kind.ofPath? v.irPath = some .binaryIr
  assembled : ∀ d p, Kind.ofPath? p = some .textIr →
    Kind.ofPath? (d / s!"{Plan.stemOf p}.bc") = some .binaryIr
  kept : ∀ d : Path, Kind.ofPath? (d / Reduce.keptName v) = Kind.ofPath? v.irPath
  disassembled : ∀ d : Path,
    Kind.ofPath? ((d / Reduce.keptName v).withExtension "ll") = some .textIr
  reduced : ∀ d : Path, Kind.ofPath? (d / Reduce.irName v.irPath) = some .textIr
  source : ∀ d : Path, Kind.ofPath? (d / Reduce.sourceName a) = some a.kind

/-- What the conversions of a variant come to, and the runs that make them: files of the right kind,
or errors that do not say that something else than IR was given. -/
structure Converts (host : Host σ) (s : σ) (c : Config) (a : Artifact) (v : Variant) : Prop where
  assembled : ∀ directory, Fits Straight (fun output => Kind.ofPath? output = some .binaryIr)
    (exec host s (Compile.assemble c v.irPath directory)).1
  disassembled : ∀ directory : Path, Fits Straight (fun output => Kind.ofPath? output = some .textIr)
    (exec host s (Compile.disassemble c (directory / Reduce.keptName v))).1
  reassembled : ∀ directory : Path, Fits Straight (fun output => Kind.ofPath? output = some .binaryIr)
    (exec host s (Compile.assemble c (directory / Reduce.irName v.irPath) directory)).1
  judged : Fits StraightOracle Any (exec host s (Oracle.classify c v.irPath)).1
  dispatched : Fits StraightReduce (fun p => Kind.ofPath? p = some (reducedKind a))
    (exec host s (Reduce.dispatch c a v)).1
  checked : ∀ cache, Fits (fun e => ¬ Misled e) Any (exec host s (Check.variants c cache a)).1
  program : ∀ path, Fits (fun e => ¬ Misled e) Any (exec host s (Check.program c path)).1
  verdict : ∀ path, Fits (fun e => ¬ Misled e) Any (exec host s (Classify.program c path)).1

/-- Every name that is derived for a variant of an artifact has the kind that its file is made with,
and on no host does a conversion, or a run that converts, end because something that is no IR was
taken for IR. -/
theorem derived_names_keep_kind (planned : Planned c a v) :
    Kinds a v ∧ ∀ {σ : Type} (host : Host σ) (s : σ), Converts host s c a v := by
  obtain ⟨kind, isKind, ir⟩ := planned.isIr
  have kinds : Kinds a v := {
    planned := planned.source
    assembled := fun d p => assembled_kind d
    kept := planned.kept
    disassembled := planned.text
    reduced := fun d => reduced_kind d v.irPath
    source := fun d => source_kind d a }
  refine ⟨kinds, fun {σ} host s => ?_⟩
  exact {
    assembled := fun directory => (assemble_comes c directory isKind ir).exec
    disassembled := fun directory => (disassemble_comes c ((planned.kept directory).trans isKind) ir
      (planned.text directory)).exec
    reassembled := fun directory =>
      (assemble_comes c directory (reduced_kind directory v.irPath) rfl).exec
    judged := (classify_comes planned).exec
    dispatched := ((dispatch_comes c a v).mono fun _ same => same ▸ reducedPath_kind c a v).exec
    checked := fun cache => (variants_comes c cache a).exec
    program := fun path => (check_comes c path).exec
    verdict := fun path => (verdict_comes c path).exec }

/-- Textual IR whose name is a byte that is no text, two dots and the extension; its path ends in a
slash and a dot. -/
def oddIr : Artifact := ⟨⟨utf8 "d/" ++ 0xFF :: utf8 "..ll/."⟩, .textIr, by decide +kernel⟩

def oddVariant : Variant := ⟨Plan.ofContent plain.extraArgs "o" oddIr [] [], true⟩

theorem odd_names_keep_kind :
    Kind.ofPath? (("o" : Path) / Reduce.keptName oddVariant) = some .textIr ∧
    Kind.ofPath? ((("o" : Path) / Reduce.keptName oddVariant).withExtension "ll") = some .textIr ∧
    Kind.ofPath? (("o" : Path) / s!"{Plan.stemOf oddIr.path}.bc") = some .binaryIr ∧
    Fits Straight (fun output => Kind.ofPath? output = some .textIr)
      (exec (still []) () (Compile.disassemble plain (("o" : Path) / Reduce.keptName oddVariant))).1 := by
  have planned : Planned plain oddIr oddVariant := ⟨"o", [], [], rfl⟩
  obtain ⟨kinds, converts⟩ := derived_names_keep_kind planned
  exact ⟨(kinds.kept "o").trans oddIr.kind_of_path, kinds.disassembled "o",
    kinds.assembled "o" oddIr.path oddIr.kind_of_path, (converts (still []) ()).disassembled "o"⟩

end BugHunt.Proofs.DerivedNames
