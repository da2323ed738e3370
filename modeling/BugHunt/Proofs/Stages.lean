import BugHunt.Proofs.Toolless
/-!
What the stages of a check ask of a host. A property of requests that holds of files and warnings,
and of the running of some kind of tools, holds of all that a stage asks which runs only such tools.
-/

namespace BugHunt.Proofs.Stages
open Asking Toolless

/-- Whether a property holds of the requests about files, of warnings, and of those by which tools
of a kind are run. -/
structure Permits (P : Request → Prop) (kind : Command → Prop) : Prop where
  discreet : ∀ r, Discreet r → P r
  running : ∀ command memory r, kind command → Running command memory r → P r

section Tools

variable {P : Request → Prop} (c : Config)

theorem within_minimize (command : Command) (input : Path)
    (asks : ∀ r, Running command c.memoryLimit r → P r) : Within P (Reduce.minimize c command input) := by
  unfold Reduce.minimize
  refine .bind (.adapt ((within_command command c.memoryLimit none).mono asks)) fun outcome => ?_
  cases outcome with
  | completed _ => exact .pure _
  | failed _ => exact .throw _
  | timedOut => exact .throw _

theorem within_convert (tool input output : Path)
    (asks : ∀ r, Running (Command.ofProgram tool |>.path input |>.text "-o" |>.path output)
      c.memoryLimit r → P r) : Within P (Compile.convert c tool input output) := by
  unfold Compile.convert Compile.runTool
  refine .bind (.adapt ((within_command _ c.memoryLimit (some c.compileTimeout)).mono asks))
    fun outcome => ?_
  cases outcome with
  | completed _ => exact .pure _
  | failed _ => exact .throw _
  | timedOut => exact .throw _

variable (looks : ∀ r, Looking r → P r)

include looks in
/-- Textual IR is assembled into a directory, and what comes of it is read. -/
theorem assemble_within (path directory : Path) (makes : P (.file (.createDirectories directory)))
    (runs : ∀ r, Running (Command.ofProgram c.tools.llvmAs |>.path path |>.text "-o"
      |>.path (directory / s!"{Plan.stemOf path}.bc")) c.memoryLimit r → P r) :
    Within P (Compile.assemble c path directory) := by
  have checked (output : Path) : Within P (do
      if !(← Compile.looksLikeBitcode output) then
        throw (.notBitcode c.tools.llvmAs.display output)
      return output : Compiling Path) := by
    refine .bind (.monadLift ((looksLikeBitcode_looks output).mono looks)) fun fine => ?_
    cases fine
    · exact .throw_bind _ _
    · exact .pure _
  unfold Compile.assemble
  dsimp only
  split
  · exact .bind (.pure _) checked
  · exact .bind (.orFail (asks_request makes)) fun _ =>
      .bind (within_convert c _ _ _ runs) fun _ => .bind (.pure _) checked
  · exact .throw_bind _ _

include looks in
/-- Bitcode is disassembled beside itself, and what comes of it is looked for. -/
theorem disassemble_within (path : Path)
    (runs : ∀ r, Running (Command.ofProgram c.tools.llvmDis |>.path path |>.text "-o"
      |>.path (path.withExtension "ll")) c.memoryLimit r → P r) :
    Within P (Compile.disassemble c path) := by
  unfold Compile.disassemble
  split
  · exact .pure _
  · refine .bind (within_convert c _ _ _ runs) fun _ =>
      .bind (.monadLift (asks_request (looks _ trivial))) fun found => ?_
    cases found
    · exact .throw_bind _ _
    · exact .pure _
  · exact .throw _

include looks in
/-- A compiler fills a staging file, which is read before it gets its final name. -/
theorem intoStaging_within (a : Artifact) (p : Plan) (staging : Path)
    (runs : ∀ r, Running (Compile.command c a p.flags staging) c.memoryLimit r → P r)
    (renames : P (.file (.rename staging p.irPath))) : Within P (Compile.intoStaging c a p staging) := by
  unfold Compile.intoStaging Compile.runTool
  refine .bind (.adapt ((within_command _ _ _).mono runs)) fun outcome => ?_
  cases outcome with
  | completed _ =>
    refine .bind (.monadLift ((looksLikeBitcode_looks staging).mono looks)) fun fine => ?_
    cases fine
    · exact .throw_bind _ _
    · exact .bind (.orFail (asks_request renames)) fun _ => .pure _
  | failed _ => exact .pure _
  | timedOut => exact .pure _

include looks in
/-- Within a workspace a program is assembled, and two tools are run. Where one crashes, a sentinel is
written. -/
theorem classifyIn_within (w : Workspace) (ir : Path)
    (assembles : Within P (Compile.assemble c ir w.root))
    (generates : ∀ bitcode r, Running (Oracle.factCommand c w bitcode) c.memoryLimit r → P r)
    (analyses : ∀ r, Running (Oracle.analysisCommand c w) c.memoryLimit r → P r)
    (warns : ∀ message, P (.log ⟨.warn, message⟩))
    (writes : ∀ (stage : Stage) (content : Bytes),
      P (.file (.write (ir.withExtension stage.sentinelExtension) content))) :
    Within P (Oracle.classifyIn c w ir) := by
  have staged {command : Command} (runs : ∀ r, Running command c.memoryLimit r → P r) :
      Within P (Oracle.runStage c command) :=
    .bind (.adapt ((within_command _ _ _).mono runs)) fun _ => .pure _
  have reported (tool : Path) (stage : Stage) (crash timeout : String) (result : StageResult) :=
    reportTrouble_within ir tool stage crash timeout result warns (writes stage)
  unfold Oracle.classifyIn
  refine .bind (.adapt assembles) fun bitcode => .bind (staged (generates bitcode)) fun facts => ?_
  split
  · exact .bind (reported ..) fun _ => .pure _
  · refine .bind (staged analyses) fun analysis => ?_
    split
    · exact .bind (reported ..) fun _ => .pure _
    · exact .bind ((scan_looks _ _).mono looks) fun _ => .pure _

end Tools

section Stages

variable {P : Request → Prop} {kind : Command → Prop} (permits : Permits P kind) (c : Config)

include permits

theorem asks_files {r : FileRequest} : Asks P (Program.request (.file r)) :=
  asks_request (permits.discreet _ trivial)

theorem permits_looking (r : Request) (looking : Looking r) : P r :=
  permits.discreet r (discreet_of_looking r looking)

/-- Assembling runs nothing but the assembler. -/
theorem within_assemble (path directory : Path)
    (assembles : ∀ input output : Path,
      kind (Command.ofProgram c.tools.llvmAs |>.path input |>.text "-o" |>.path output)) :
    Within P (Compile.assemble c path directory) :=
  assemble_within c (permits_looking permits) path directory (permits.discreet _ trivial)
    (permits.running _ _ · (assembles _ _))

theorem within_disassemble (path : Path)
    (disassembles : ∀ input output : Path,
      kind (Command.ofProgram c.tools.llvmDis |>.path input |>.text "-o" |>.path output)) :
    Within P (Compile.disassemble c path) :=
  disassemble_within c (permits_looking permits) path (permits.running _ _ · (disassembles _ _))

/-- Building runs nothing but the compiler. -/
theorem within_build (directory : Path) (a : Artifact) (p : Plan)
    (compiles : ∀ staging, kind (Compile.command c a p.flags staging)) :
    Within P (Compile.build c directory a p) := by
  have staged (staging : Path) : Within P (Compile.intoStaging c a p staging) :=
    intoStaging_within c (permits_looking permits) a p staging (permits.running _ _ · (compiles staging))
      (permits.discreet _ trivial)
  unfold Compile.build
  split
  · exact .pure _
  · refine .bind (.monadLift (asks_files permits)) fun done => ?_
    cases done
    · exact .bind (.orFail (asks_files permits)) fun _ =>
        .bind (.orFail (asks_request (permits.discreet _ trivial))) fun staging =>
          .bind (.cleaningUp (staged staging) fun result =>
            (asks_discardStaging staging result).mono permits.discreet) fun _ => .pure _
    · exact .pure _

/-- Judging runs nothing but the assembler, the fact generator and the analysis. -/
theorem within_classify (ir : Path)
    (assembles : ∀ input output : Path,
      kind (Command.ofProgram c.tools.llvmAs |>.path input |>.text "-o" |>.path output))
    (generates : ∀ w bitcode, kind (Oracle.factCommand c w bitcode))
    (analyses : ∀ w, kind (Oracle.analysisCommand c w)) : Within P (Oracle.classify c ir) :=
  .bind (.adapt ((within_create _).mono permits.discreet)) fun w =>
    .cleaningUp (classifyIn_within c (permits_looking permits) w ir
      (within_assemble permits c ir w.root assembles) (fun bitcode => (permits.running _ _ · (generates w bitcode)))
      (permits.running _ _ · (analyses w)) (fun _ => permits.discreet _ rfl)
      fun _ _ => permits.discreet _ trivial) fun _ => (asks_discard c.debug w).mono permits.discreet

end Stages

/-! ## Reductions and whole checks -/

/-- The lines by which a reduction says what it does. -/
inductive Remark : LogLine → Prop
  | skipping (path : String) : Remark ⟨.info, s!"{path} already reduced, skipping"⟩
  | reducingIr (path : String) : Remark ⟨.info, s!"Reducing {path} with llvm-reduce"⟩
  | reducingSource (path : String) : Remark ⟨.info, s!"Reducing {path} with creduce"⟩

section Checks

variable {P : Request → Prop} (permits : Permits P fun _ => True) (c : Config)

include permits

theorem within_preserve (v : Variant) : Within P (Reduce.preserve c v) := by
  unfold Reduce.preserve
  refine .bind (.orFail (asks_files permits)) fun _ => .bind (.orFail (asks_files permits)) fun _ =>
    .bind (.lift (within_disassemble permits c _ fun _ _ => trivial)) fun result => ?_
  split
  · exact .pure _
  · exact .throw _
  · exact .bind (.monadLift (asks_request (permits.discreet _ rfl))) fun _ => .pure _

variable (remarks : ∀ line, Remark line → P (.log line))

include remarks

theorem within_reduceIr (ir : Path) : Within P (Reduce.reduceIr c ir) := by
  unfold Reduce.reduceIr
  refine .bind (.monadLift (asks_files permits)) fun done => ?_
  split
  · exact .bind (.monadLift (asks_request (remarks _ (.skipping _)))) fun _ => .pure _
  · exact .bind (.monadLift (asks_request (remarks _ (.reducingIr _)))) fun _ =>
      .bind (within_minimize c _ _ (permits.running _ _ · trivial)) fun _ =>
        .bind (.adapt (within_assemble permits c _ _ fun _ _ => trivial)) fun _ => .pure _

theorem within_reduceCopy (a : Artifact) (root copy directory : Path) :
    Within P (Reduce.reduceCopy c a root copy directory) := by
  unfold Reduce.reduceCopy
  refine .bind (.orFail (asks_files permits)) fun _ => .bind (.orFail (asks_files permits)) fun _ =>
    .bind (.monadLift (asks_request (remarks _ (.reducingSource _)))) fun _ =>
      .cleaningUp (within_minimize c _ _ (permits.running _ _ · trivial)) fun result => ?_
  cases result with
  | ok _ => trivial
  | error _ => exact .bind (asks_files permits) fun _ => trivial

theorem within_reduceSource (a : Artifact) : Within P (Reduce.reduceSource c a) := by
  unfold Reduce.reduceSource
  refine .bind (.monadLift (asks_files permits)) fun done => ?_
  split
  · exact .bind (.monadLift (asks_request (remarks _ (.skipping _)))) fun _ => .pure _
  · exact .bind (.orFail (asks_files permits)) fun _ =>
      .bind (.orFail (asks_request (permits.discreet _ trivial))) fun directory =>
        .bind (.cleaningUp (within_reduceCopy permits c remarks a _ _ directory) fun _ =>
          .bind (asks_files permits) fun _ => trivial) fun _ => .pure _

theorem within_dispatch (a : Artifact) (v : Variant) : Within P (Reduce.dispatch c a v) := by
  refine .bind (within_preserve permits c v) fun _ => ?_
  split
  · exact within_reduceIr permits c remarks v.irPath
  · exact within_reduceSource permits c remarks a

end Checks

/-- The requests by which a check works: it neither searches nor schedules. -/
def Working : Request → Prop
  | .search _ | .choose _ => False
  | _ => True

theorem permits_working : Permits Working fun _ => True where
  discreet r discreet := by
    cases r <;> trivial
  running _ _ r _ running := by
    cases running <;> trivial

theorem report_working (c : Config) (name : String) (verdict : Classification) (s : Summary) :
    Within Working (Check.report c name verdict s) :=
  .bind (.monadLift (asks_request trivial)) fun _ => .pure _

theorem reduce_working (c : Config) (a : Artifact) (v : Variant) (s : Summary) :
    Within Working (Check.reduce c a v s) := by
  unfold Check.reduce
  refine .bind (.lift (within_dispatch permits_working c (fun _ _ => trivial) a v)) fun result => ?_
  split
  · exact .bind (.monadLift (asks_request trivial)) fun _ => .pure _
  · exact .bind (.monadLift (asks_request trivial)) fun _ => .pure _
  · exact .throw _

theorem fresh_working (c : Config) (cache : Cache) (a : Artifact) (p : Plan) (s : Summary) :
    Within Working (Check.fresh c cache a p s) := by
  unfold Check.fresh
  refine .bind (.adapt (within_build permits_working c _ a p fun _ => trivial)) fun v => ?_
  split
  · exact .bind (.adapt ((within_store cache _ _).mono permits_working.discreet)) fun _ =>
      .bind (report_working c _ _ s) fun _ => .pure _
  · refine .bind (.adapt (within_classify permits_working c _ (fun _ _ => trivial)
      (fun _ _ => trivial) fun _ => trivial)) fun verdict =>
        .bind (report_working c _ verdict s) fun s => ?_
    split
    · exact reduce_working c a v s
    · exact .bind ((within_settle c cache a v _).mono permits_working.discreet) fun _ => .pure _

theorem variant_working (c : Config) (cache : Cache) (a : Artifact) (flags : List String)
    (s : Summary) : Within Working (Check.variant c cache a flags s) := by
  unfold Check.variant
  refine .bind (.monadLift (asks_request trivial)) fun cancelled => ?_
  dsimp only
  split
  · exact .throw_bind _ _
  · refine .bind (.adapt ((within_plan c _ a flags).mono permits_working.discreet)) fun plan =>
      .bind (.lift ((asks_lookup cache plan.key).mono permits_working.discreet)) fun found => ?_
    split
    · exact report_working c _ _ _
    · exact fresh_working c cache a plan s

theorem variants_working (c : Config) (cache : Cache) (a : Artifact) :
    Within Working (Check.variants c cache a) := by
  unfold Check.variants
  generalize Summary.zero = s
  induction flagSets c a generalizing s with
  | nil => exact .pure _
  | cons flags rest ih => exact .bind (variant_working c cache a flags s) ih

end BugHunt.Proofs.Stages
