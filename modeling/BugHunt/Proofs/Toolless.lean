import BugHunt.Pipeline.Check
import BugHunt.Proofs.Asking
/-!
The parts of a check that run no tool. They ask of the files and for log lines alone, so neither a
tool nor an interrupt has a say in how they end.
-/

namespace BugHunt.Proofs.Toolless
open Asking

/-- The requests that neither run a tool nor ask for an interrupt. -/
def Toolless : Request → Prop
  | .isCancelled | .spawn .. | .await .. | .terminate _ | .collect _ => False
  | _ => True

/-- The requests that are about files alone, and warnings. -/
def Discreet : Request → Prop
  | .file _ | .temporaryDirectory .. | .temporaryFile .. => True
  | .log line => line.level = .warn
  | _ => False

theorem toolless_of_discreet (r : Request) (discreet : Discreet r) : Toolless r := by
  cases r <;> trivial

/-- The requests that look at files, and change none. -/
def Looking : Request → Prop
  | .file (.read _) | .file (.exists _) | .file (.isFile _) => True
  | _ => False

theorem discreet_of_looking (r : Request) (looking : Looking r) : Discreet r := by
  cases r <;> trivial

theorem looksLikeBitcode_looks (path : Path) : Asks Looking (Compile.looksLikeBitcode path) :=
  .bind (p := Program.read path) (asks_request trivial) fun answer => by
    cases answer <;> trivial

theorem asks_looksLikeBitcode (path : Path) : Asks Discreet (Compile.looksLikeBitcode path) :=
  (looksLikeBitcode_looks path).mono discreet_of_looking

theorem within_plan (c : Config) (directory : Path) (a : Artifact) (flags : List String) :
    Within Discreet (Compile.plan c directory a flags) :=
  .bind (.orFail (asks_request trivial)) fun _ => .pure _

theorem asks_discardStaging (staging : Path) (result : Except CompileError Bool) :
    Asks Discreet (Compile.discardStaging staging result) := by
  unfold Compile.discardStaging
  split
  · trivial
  · exact .bind (asks_request trivial) fun _ => trivial

theorem firstMissing_looks (directory : Path) (assertions : List String) :
    Asks Looking (Relations.firstMissing directory assertions) := by
  induction assertions with
  | nil => trivial
  | cons relation rest ih =>
    refine .bind (p := Program.isFile _) (asks_request trivial) fun found => ?_
    cases found
    · trivial
    · exact ih

theorem asks_firstMissing (directory : Path) (assertions : List String) :
    Asks Discreet (Relations.firstMissing directory assertions) :=
  (firstMissing_looks directory assertions).mono discreet_of_looking

theorem firstViolated_looks (directory : Path) (assertions : List String) :
    Within Looking (Relations.firstViolated directory assertions) := by
  induction assertions with
  | nil => exact .pure _
  | cons relation rest ih =>
    refine .bind (.orFail (asks_request trivial)) fun content => ?_
    split
    · exact .throw _
    · exact .pure _
    · exact ih

theorem scan_looks (assertions : List String) (directory : Path) :
    Within Looking (Relations.scan assertions directory) := by
  refine .bind (.lift (firstMissing_looks directory assertions)) fun found => ?_
  cases found
  · exact firstViolated_looks directory assertions
  · exact .throw _

theorem within_scan (assertions : List String) (directory : Path) :
    Within Discreet (Relations.scan assertions directory) :=
  (scan_looks assertions directory).mono discreet_of_looking

theorem asks_discard (retain : Bool) (w : Workspace) : Asks Discreet (w.discard retain) := by
  unfold Workspace.discard
  split
  · trivial
  · exact .bind (asks_request trivial) fun _ => trivial

theorem asks_made (w : Workspace) (result : Except Failure Unit) : Asks Discreet (match result with
    | .ok () => pure ()
    | .error _ => w.discard false : Program Unit) := by
  cases result with
  | ok _ => trivial
  | error _ => exact asks_discard false w

theorem within_create (name : String) : Within Discreet (Workspace.create name) :=
  .bind (.orFail (asks_request trivial)) fun root => .bind (.cleaningUp
    (.bind (.orFail (asks_request trivial)) fun _ => .orFail (asks_request trivial))
      (asks_made ⟨root⟩)) fun _ => .pure _

/-- Of trouble is warned, and a crash leaves a sentinel. -/
theorem reportTrouble_within {P : Request → Prop} (ir tool : Path) (stage : Stage) (crash timeout : String)
    (result : StageResult) (warns : ∀ message, P (.log ⟨.warn, message⟩))
    (writes : ∀ content, P (.file (.write (ir.withExtension stage.sentinelExtension) content))) :
    Within P (Oracle.reportTrouble ir tool stage crash timeout result) := by
  unfold Oracle.reportTrouble
  split
  · exact .bind (.monadLift (asks_request (warns _))) fun _ =>
      .bind (.monadLift (asks_request (warns _))) fun _ =>
        .bind (.bind (.orFail (asks_request (writes _))) fun _ => .pure _) fun _ => .pure _
  · exact .monadLift (asks_request (warns _))

theorem within_reportTrouble (ir tool : Path) (stage : Stage) (crash timeout : String)
    (result : StageResult) :
    Within Discreet (Oracle.reportTrouble ir tool stage crash timeout result) :=
  reportTrouble_within ir tool stage crash timeout result (fun _ => rfl) fun _ => trivial

theorem lookup_looks (cache : Cache) (key : String) : Asks Looking (cache.lookup key) := by
  have marked (verdict : Classification) : Asks Looking (cache.hasMarker key verdict) := by
    unfold Cache.hasMarker
    split
    · trivial
    · exact asks_request trivial
  unfold Cache.lookup
  refine .bind (marked _) fun found => ?_
  cases found
  · refine .bind (marked _) fun found => ?_
    cases found <;> trivial
  · trivial

theorem asks_lookup (cache : Cache) (key : String) : Asks Discreet (cache.lookup key) :=
  (lookup_looks cache key).mono discreet_of_looking

theorem within_open (root : Path) : Within Discreet (Cache.open root) :=
  .bind (.orFail (asks_request trivial)) fun _ => .bind (.orFail (asks_request trivial)) fun _ =>
    .pure _

theorem within_removeIfPresent (path : Path) : Within Discreet (Cache.removeIfPresent path) :=
  Asks.bind (p := Program.remove path) (asks_request trivial) fun answer => by
    cases answer <;> trivial

theorem within_store (cache : Cache) (key : String) (verdict : Classification) :
    Within Discreet (cache.store key verdict) := by
  unfold Cache.store
  split
  · exact .bind (.orFail (asks_request trivial)) fun _ => within_removeIfPresent _
  · exact .throw _

theorem within_settle (c : Config) (cache : Cache) (a : Artifact) (v : Variant)
    (verdict : Classification) : Within Discreet (Check.settle c cache a v verdict) := by
  unfold Check.settle
  refine .bind (.adapt (within_store cache _ _)) fun _ => ?_
  split
  · exact .adapt (within_removeIfPresent _)
  · exact .pure _

end BugHunt.Proofs.Toolless
