import BugHunt.Proofs.Courses
import BugHunt.Proofs.Passages
import BugHunt.Proofs.Stages
/-!
The lines of a log that report verdicts. No other line that a check logs can be taken for one, so a
course of a check tells by its log what verdicts it came to.
-/

namespace BugHunt.Proofs.Reports
open Courses Asking Toolless Stages Texts Names Places Reducing Passages

/-! ## Lines that report verdicts -/

/-- How a report ends, after the name of the variant. -/
def closing (checked : Nat) : Classification → String
  | .interesting => ": interesting! ---------"
  | .uninteresting => s!": uninteresting. (checked {checked} assertions)"
  | .uncompilable => ": uncompilable."

/-- Whether a line reports a verdict on some variant. -/
def reports (checked : Nat) (verdict : Classification) (line : LogLine) : Bool :=
  line.level = .info && (closing checked verdict).toList.isSuffixOf line.message.toList

variable {checked : Nat} {verdict : Classification} {line : LogLine} {name : String}

theorem closing_uninteresting : closing checked .uninteresting =
    ": uninteresting. (checked " ++ toString checked ++ " assertions)" := rfl

theorem report_eq : verdict.report name checked = ⟨.info, name ++ closing checked verdict⟩ := by
  cases verdict with
  | interesting => rfl
  | uninteresting =>
    simp only [Classification.report, closing_uninteresting, toString_text, String.append_assoc]
  | uncompilable => rfl

theorem reports_iff :
    reports checked verdict line ↔ ∃ name, line = verdict.report name checked := by
  simp only [report_eq, reports, Bool.and_eq_true, decide_eq_true_eq, List.isSuffixOf_iff_suffix]
  constructor
  · rintro ⟨level, front, ends⟩
    refine ⟨String.ofList front, ?_⟩
    have message : line.message = String.ofList front ++ closing checked verdict := by
      apply String.toList_injective
      rw [String.toList_append, String.toList_ofList, ends]
    rw [← message, ← level]
  · rintro ⟨name, rfl⟩
    exact ⟨rfl, name.toList, by simp⟩

/-- The last word of a report. -/
def lastWord : Classification → String
  | .interesting => "---------"
  | .uninteresting => "assertions)"
  | .uncompilable => "uncompilable."

theorem closing_ends : (lastWord verdict).toList <:+ (closing checked verdict).toList := by
  cases verdict with
  | interesting =>
    have ends : (lastWord .interesting).toList <:+ ": interesting! ---------".toList := by decide
    exact ends
  | uninteresting =>
    have ends : (lastWord .uninteresting).toList <:+ " assertions)".toList := by decide
    rw [closing_uninteresting, String.toList_append]
    exact ends.trans (List.suffix_append ..)
  | uncompilable =>
    have ends : (lastWord .uncompilable).toList <:+ ": uncompilable.".toList := by decide
    exact ends

/-- A line that ends in another way reports no verdict. -/
theorem unreported {level : Level} {message : String} (ending : String)
    (ends : ending.toList <:+ message.toList)
    (unlike : ∀ verdict, ¬ ((lastWord verdict).toList <:+ ending.toList ∨
      ending.toList <:+ (lastWord verdict).toList)) :
    reports checked verdict ⟨level, message⟩ = false := by
  refine Bool.eq_false_iff.mpr fun told => ?_
  simp only [reports, Bool.and_eq_true, List.isSuffixOf_iff_suffix] at told
  exact unlike verdict (List.suffix_or_suffix_of_suffix (closing_ends.trans told.2) ends)

theorem unreported_level {level : Level} {message : String} (other : level ≠ .info) :
    reports checked verdict ⟨level, message⟩ = false := by
  simp [reports, other]

/-- A line reports one verdict at most. -/
theorem reports_report {other : Classification} :
    reports checked verdict (other.report name checked) = decide (verdict = other) := by
  by_cases same : verdict = other
  · subst same
    rw [decide_eq_true rfl]
    exact reports_iff.mpr ⟨name, rfl⟩
  · rw [decide_eq_false same, report_eq]
    refine Bool.eq_false_iff.mpr fun told => ?_
    simp only [reports, Bool.and_eq_true, List.isSuffixOf_iff_suffix, String.toList_append] at told
    have words := List.suffix_or_suffix_of_suffix (closing_ends.trans told.2)
      (closing_ends.trans (List.suffix_append ..))
    revert same words
    cases verdict <;> cases other <;> decide

/-! ## Logs -/

/-- The lines that were logged. -/
def lines (xs : List Exchange) : List LogLine :=
  xs.filterMap fun x => match x.request with
    | .log line => some line
    | _ => none

/-- Whether a line reports some verdict. -/
def isReport (checked : Nat) (line : LogLine) : Bool :=
  reports checked .interesting line || reports checked .uninteresting line ||
    reports checked .uncompilable line

/-- The lines that report verdicts. -/
def reportLines (checked : Nat) (xs : List Exchange) : List LogLine :=
  (lines xs).filter (isReport checked)

theorem isReport_of_reports (told : reports checked verdict line) : isReport checked line := by
  unfold isReport
  cases verdict <;> simp [told]

theorem reportLines_append (xs ys : List Exchange) :
    reportLines checked (xs ++ ys) = reportLines checked xs ++ reportLines checked ys := by
  simp [reportLines, lines]

theorem reportLines_perm {xs ys : List Exchange} (same : xs.Perm ys) :
    (reportLines checked xs).Perm (reportLines checked ys) :=
  (same.filterMap _).filter _

/-- Whether a request logs no report. -/
def Muted (checked : Nat) : Request → Prop
  | .log line => ∀ verdict, reports checked verdict line = false
  | _ => True

theorem reportLines_muted {xs : List Exchange} (muted : ∀ x ∈ xs, Muted checked x.request) :
    reportLines checked xs = [] := by
  refine List.filter_eq_nil_iff.mpr fun line among => ?_
  obtain ⟨x, logged, isLine⟩ := List.mem_filterMap.mp among
  have muted := muted x logged
  split at isLine
  · rename_i found isLog
    obtain rfl := Option.some.inj isLine
    rw [isLog] at muted
    simp [isReport, muted .interesting, muted .uninteresting, muted .uncompilable]
  · cases isLine

/-- The line that reports a verdict is all of the log. -/
theorem reportLines_report (name : String) (verdict : Classification) :
    reportLines checked [⟨.log (verdict.report name checked), ()⟩] =
      [verdict.report name checked] := by
  have told : isReport checked (verdict.report name checked) :=
    isReport_of_reports (reports_iff.mpr ⟨name, rfl⟩)
  exact List.filter_cons_of_pos told

theorem muted_of_ending {level : Level} {message : String} (ending : String)
    (ends : ending.toList <:+ message.toList)
    (unlike : ∀ verdict, ¬ ((lastWord verdict).toList <:+ ending.toList ∨
      ending.toList <:+ (lastWord verdict).toList)) :
    Muted checked (.log ⟨level, message⟩) :=
  fun _ => unreported ending ends unlike

theorem muted_of_level {line : LogLine} (other : line.level ≠ .info) :
    Muted checked (.log line) :=
  fun _ => unreported_level other

theorem permits_muted : Permits (Muted checked) fun _ => True where
  discreet r discreet := by
    cases r with
    | log line => exact muted_of_level (by rw [show line.level = .warn from discreet]; decide)
    | _ => trivial
  running _ _ r _ running := by
    cases running with
    | warn message => exact fun _ => unreported_level (by simp)
    | _ => trivial

theorem ends_after (front back : String) : back.toList <:+ (front ++ back).toList := by
  rw [String.toList_append]
  exact List.suffix_append ..

theorem muted_remark (line : LogLine) (remark : Remark line) : Muted checked (.log line) := by
  cases remark with
  | skipping path =>
    refine muted_of_ending " already reduced, skipping" (ends_after path _) fun verdict => ?_
    cases verdict <;> decide
  | reducingIr path =>
    refine muted_of_ending " with llvm-reduce" (ends_after ("Reducing " ++ path) _) fun verdict => ?_
    cases verdict <;> decide
  | reducingSource path =>
    refine muted_of_ending " with creduce" (ends_after ("Reducing " ++ path) _) fun verdict => ?_
    cases verdict <;> decide

/-! ## The name of what was reduced -/

theorem extension_dotted {extension : String} (known : extension ∈ extensions) :
    ∃ word, extension = "." ++ word := by
  simp only [extensions, List.mem_cons, List.not_mem_nil, or_false] at known
  obtain rfl | rfl | rfl | rfl | rfl := known
  · exact ⟨"c", by decide⟩
  · exact ⟨"cpp", by decide⟩
  · exact ⟨"C", by decide⟩
  · exact ⟨"ll", by decide⟩
  · exact ⟨"bc", by decide⟩

/-- An entry is shown with the extension of its name. -/
theorem display_ended (p : Path) {name : String} (clean : '/' ∉ name.toList)
    (ended : ∃ front, ∃ extension ∈ extensions, name = front ++ extension) :
    ∃ extension ∈ extensions, extension.toList <:+ (p / Path.ofString name).display.toList := by
  obtain ⟨front, extension, known, rfl⟩ := ended
  refine ⟨extension, known, ?_⟩
  obtain ⟨word, rfl⟩ := extension_dotted known
  have bytes : (p / Path.ofString (front ++ ("." ++ word))).bytes =
      (Names.front p ++ utf8 front) ++ Path.dot :: utf8 word := by
    rw [entry_bytes p clean, utf8_append, utf8_append, utf8_dot]
    simp
  have dot : Char.ofNat Path.dot.toNat = '.' := by decide
  rw [Path.display, bytes, lossy_ascii (by decide), dot, lossy_utf8]
  exact ⟨(Text.lossy (Names.front p ++ utf8 front)).toList, by simp⟩

theorem reduceIr_yields (c : Config) (ir : Path) :
    Yields (Reduce.reduceIr c ir) fun _ reduced =>
      reduced = Path.absolute c.startDirectory c.outputRoot / Path.ofString (Reduce.irName ir) := by
  unfold Reduce.reduceIr
  refine .bind (.monadLift fun _ done _ => ?_)
  cases done
  · exact .bind (.monadLift fun _ _ _ => .bind fun _ _ _ => .bind fun _ _ _ => .pure rfl)
  · exact .bind (.monadLift fun _ _ _ => .pure rfl)

theorem reduceSource_yields (c : Config) (a : Artifact) :
    Yields (Reduce.reduceSource c a) fun _ reduced =>
      reduced = Path.absolute c.startDirectory c.outputRoot / Path.ofString (Reduce.sourceName a) := by
  unfold Reduce.reduceSource
  refine .bind (.monadLift fun _ done _ => ?_)
  cases done
  · exact .bind fun _ _ _ => .bind fun _ _ _ => .bind fun _ _ _ => .pure rfl
  · exact .bind (.monadLift fun _ _ _ => .pure rfl)

/-- What a reduction tells as its result is shown with the extension of a program. -/
theorem dispatch_yields (c : Config) (a : Artifact) (v : Variant) :
    Yields (Reduce.dispatch c a v) fun _ reduced =>
      ∃ extension ∈ extensions, extension.toList <:+ reduced.display.toList := by
  refine .bind fun _ _ _ => ?_
  split
  · refine (reduceIr_yields c v.irPath).mono fun _ reduced isReduced => ?_
    rw [isReduced]
    refine display_ended _ (fun slash => (irName_proper v.irPath).clean (slash_mem_utf8 slash))
      ⟨"reduced-" ++ Plan.stemOf v.irPath, ".ll", by decide, by simp [Reduce.irName]⟩
  · refine (reduceSource_yields c a).mono fun _ reduced isReduced => ?_
    rw [isReduced]
    obtain ⟨front, extension, known, name⟩ := name_ended a
    refine display_ended _ (fun slash => (sourceName_proper a).clean (slash_mem_utf8 slash))
      ⟨"source-reduced-" ++ front, extension, known, ?_⟩
    rw [sourceName_eq, name, String.append_assoc]

end BugHunt.Proofs.Reports
