import BugHunt.Oracle.Sentinel
import BugHunt.Proofs.Courses
import BugHunt.Proofs.JsonTexts
import BugHunt.Proofs.Texts
/-!
What the sentinel of a crash tells its reader: the fields of the crash, whatever bytes the tool put
out and whatever the paths are made of.
-/

namespace BugHunt.Proofs.CrashRecords
open Courses JsonTexts Texts

def numberOrNull : Option Int → Value
  | some n => .number n
  | none => .null

/-- The fields of a crash. -/
def recorded (s : Sentinel) : Value := .object [
  ("stage", .string s.stage.sentinelExtension),
  ("tool", .string (Text.lossy s.tool.bytes)),
  ("artifact", .string (Text.lossy s.artifact.bytes)),
  ("exit_code", numberOrNull s.output.exitCode),
  ("signal", numberOrNull s.output.signal),
  ("output_tail", .string (s.output.tail 16384))]

theorem valueOf_ofOption (n : Option Int) : valueOf (Sentinel.ofOption n) = numberOrNull n := by
  cases n <;> rfl

theorem valueOf_toJson (s : Sentinel) : valueOf s.toJson = recorded s := by
  simp only [Sentinel.toJson, valueOf, membersOf, memberOf, valueOf_ofOption]
  rfl

/-- Whether bytes are the UTF-8 form of a JSON text for the fields of a crash, and for no other value. -/
def Tells (content : Bytes) (s : Sentinel) : Prop :=
  ∃ text, Text.decode? content = some text ∧ ∀ v, IsText text v ↔ v = recorded s

theorem isText_sentinel (s : Sentinel) (v : Value) : IsText s.toJson.pretty v ↔ v = recorded s := by
  have isText : IsText s.toJson.pretty (recorded s) := valueOf_toJson s ▸ isText_pretty s.toJson
  constructor
  · exact fun also => also.unique isText
  · rintro rfl
    exact isText

theorem tells_pretty (s : Sentinel) : Tells (utf8 s.toJson.pretty) s :=
  ⟨s.toJson.pretty, decode?_utf8 _, isText_sentinel s⟩

/-- What is told of two crashes is the same only if the same fields are told. -/
theorem Tells.unique {content : Bytes} {s s' : Sentinel} (tells : Tells content s)
    (also : Tells content s') : recorded s = recorded s' := by
  obtain ⟨text, decoded, only⟩ := tells
  obtain ⟨text', decoded', only'⟩ := also
  obtain rfl := Option.some.inj (decoded.symm.trans decoded')
  exact (only' _).mp ((only _).mpr rfl)

/-- Writing a sentinel is writing one file beside the program. What is written is the UTF-8 form of a
JSON text that is read as the six fields of the crash, and as nothing else. -/
theorem sentinel_read_back (s : Sentinel) : ∃ text,
    (∀ xs result, Course s.write.run xs result ↔ ∃ answer : Except Failure Unit,
      xs = [⟨.file (.write (s.artifact.withExtension s.stage.sentinelExtension) (utf8 text)), answer⟩] ∧
        result = (answer.mapError (OracleError.sentinel s.path)).map fun _ => s.path) ∧
    Text.decode? (utf8 text) = some text ∧ (∀ v, IsText text v ↔ v = recorded s) ∧
    read? text = some (recorded s) := by
  refine ⟨s.toJson.pretty, fun xs result => ?_, decode?_utf8 _, isText_sentinel s,
    read?_text ((isText_sentinel s _).mpr rfl)⟩
  constructor
  · intro course
    cases course with
    | ask answer rest =>
      refine ⟨answer, ?_⟩
      rcases (answer : Except Failure Unit) with cause | ⟨⟩
      · obtain ⟨rfl, rfl⟩ := course_done rest
        exact ⟨rfl, rfl⟩
      · obtain ⟨rfl, rfl⟩ := course_done rest
        exact ⟨rfl, rfl⟩
  · rintro ⟨answer, rfl, rfl⟩
    refine @Course.ask _ (.file (.write _ _)) _ answer _ _ ?_
    cases answer <;> exact .done _

end BugHunt.Proofs.CrashRecords
