import BugHunt.Proofs.Reports
import BugHunt.Proofs.Scanning
/-!
The accounts of runs that come to a summary. Each variant that was checked is counted once, under
the verdict that the log reports of it, and the log reports nothing else.
-/

namespace BugHunt.Proofs.Accounting
open Courses Asking Toolless Runs Stages FanOut Groupings Scanning Reports VariantKeys

/-! ## Entries -/

/-- How a variant was checked: the bytes that it was planned from, the verdict, whether this was
remembered, and whether a minimizer failed on it. -/
structure Entry where
  artifact : Artifact
  flags : List String
  content : Bytes
  verdict : Classification
  hit : Bool
  failed : Bool
  hit_kept : hit → verdict ≠ .interesting
  failed_interesting : failed → verdict = .interesting

namespace Entry

/-- The variant that an entry is about. -/
def subject (e : Entry) : Artifact × List String := (e.artifact, e.flags)

/-- What an entry adds to a summary. -/
def counted (e : Entry) : Summary where
  interesting := if e.verdict = .interesting then 1 else 0
  uninteresting := if e.verdict = .uninteresting then 1 else 0
  uncompilable := if e.verdict = .uncompilable then 1 else 0
  cacheHits := if e.hit then 1 else 0
  reduceFailures := if e.failed then 1 else 0

/-- The line that reports an entry. -/
def line (c : Config) (cache : Cache) (e : Entry) : LogLine :=
  e.verdict.report (Plan.ofContent c.extraArgs cache.irDir e.artifact e.flags e.content).irPath.name
    c.assertions.length

end Entry

/-- The counter that a verdict is counted by. -/
def count (s : Summary) : Classification → Nat
  | .interesting => s.interesting
  | .uninteresting => s.uninteresting
  | .uncompilable => s.uncompilable

/-- How exchanges tell of the variants that were checked in them: there is one entry for each, made
from what was read, and the lines that report verdicts are those of the entries. -/
structure Told (c : Config) (cache : Cache) (xs : List Exchange)
    (subjects : List (Artifact × List String)) (entries : List Entry) : Prop where
  subjects : (entries.map Entry.subject).Perm subjects
  read : ∀ e ∈ entries, ⟨.file (.read e.artifact.path), .ok e.content⟩ ∈ xs
  logged : (reportLines c.assertions.length xs).Perm (entries.map (Entry.line c cache))

variable {c : Config} {cache : Cache} {a : Artifact} {xs ys : List Exchange}
  {subjects others : List (Artifact × List String)} {entries more : List Entry}

theorem Told.append (first : Told c cache xs subjects entries) (second : Told c cache ys others more) :
    Told c cache (xs ++ ys) (subjects ++ others) (entries ++ more) where
  subjects := by
    rw [List.map_append]
    exact first.subjects.append second.subjects
  read e among := by
    rcases List.mem_append.mp among with early | late
    · exact List.mem_append_left _ (first.read e early)
    · exact List.mem_append_right _ (second.read e late)
  logged := by
    rw [reportLines_append, List.map_append]
    exact first.logged.append second.logged

theorem Told.nothing (muted : ∀ x ∈ xs, Muted c.assertions.length x.request) :
    Told c cache xs [] [] where
  subjects := .nil
  read := by simp
  logged := by rw [reportLines_muted muted]; exact .nil

theorem Told.perm (told : Told c cache xs subjects entries) (same : ys.Perm xs) :
    Told c cache ys subjects entries where
  subjects := told.subjects
  read e among := same.mem_iff.mpr (told.read e among)
  logged := (reportLines_perm same).trans told.logged

/-! ## Checking a variant -/

/-- Whether an action logs the reports that `Q` tells of, where it comes to a value. -/
abbrev Logs (checked : Nat) (action : Action ε α) (Q : List LogLine → α → Prop) : Prop :=
  Yields action fun xs value => Q (reportLines checked xs) value

theorem Logs.muted_bind {action : Action ε α} {f : α → Action ε β} {checked : Nat}
    {R : List LogLine → β → Prop} (muted : Within (Muted checked) action)
    (rest : ∀ value, Logs checked (f value) R) : Logs checked (action >>= f) R := by
  refine .bind ((Yields.of_within muted).mono fun xs value silent => ?_)
  refine (rest value).mono fun ys result logged => ?_
  rwa [reportLines_append, reportLines_muted silent, List.nil_append]

theorem report_yields (name : String) (verdict : Classification) (s : Summary) :
    Yields (Check.report c name verdict s) fun xs t =>
      xs = [⟨.log (verdict.report name c.assertions.length), ()⟩] ∧ t = s.record verdict := by
  refine .bind (.monadLift fun xs answer course => .pure ⟨?_, rfl⟩)
  rw [course_request course]
  rfl

theorem Logs.report_bind {name : String} {verdict : Classification} {s : Summary}
    {f : Summary → Checking α} {R : List LogLine → α → Prop}
    (rest : Logs c.assertions.length (f (s.record verdict)) fun lines value =>
      R (verdict.report name c.assertions.length :: lines) value) :
    Logs c.assertions.length (Check.report c name verdict s >>= f) R := by
  refine .bind ((report_yields name verdict s).mono fun xs t ⟨isReport, isNext⟩ => ?_)
  obtain rfl := isReport
  obtain rfl := isNext
  refine rest.mono fun ys value logged => ?_
  rwa [reportLines_append, reportLines_report]

theorem muted_reduced (name : String) {reduced : Path} {checked : Nat}
    (ended : ∃ extension ∈ Passages.extensions, extension.toList <:+ reduced.display.toList) :
    Muted checked (.log ⟨.info, s!"Reduced {name} to {reduced.display}"⟩) := by
  obtain ⟨extension, known, ends⟩ := ended
  refine muted_of_ending extension (ends.trans (ends_after ("Reduced " ++ name ++ " to ") _))
    fun verdict => ?_
  revert known
  simp only [Passages.extensions, List.mem_cons, List.not_mem_nil, or_false]
  rintro (rfl | rfl | rfl | rfl | rfl) <;> cases verdict <;> decide

theorem reduce_logs (v : Variant) (s : Summary) :
    Logs c.assertions.length (Check.reduce c a v s) fun lines t =>
      lines = [] ∧ (t = s ∨ t = s.withReduceFailure) := by
  unfold Check.reduce
  refine .bind (.lift fun xs result course => ?_)
  have silent : reportLines c.assertions.length xs = [] :=
    reportLines_muted (course.asks (within_dispatch permits_muted c muted_remark a v))
  have logged {level : Level} {message : String} (muted : Muted c.assertions.length
      (.log ⟨level, message⟩)) {t : Summary} (isNext : t = s ∨ t = s.withReduceFailure) :
      Yields (do Program.log level message; return t : Checking Summary) fun ys t =>
        reportLines c.assertions.length (xs ++ ys) = [] ∧ (t = s ∨ t = s.withReduceFailure) := by
    refine .bind ((Yields.of_within (.monadLift (asks_request muted))).mono fun ys _ told => ?_)
    refine .pure ⟨?_, isNext⟩
    rw [reportLines_append, reportLines_append, silent, reportLines_muted told]
    rfl
  split
  · exact logged (muted_reduced _ (dispatch_yields c a v xs _ course)) (.inl rfl)
  · exact logged (muted_of_level (by simp)) (.inr rfl)
  · exact .throw _

theorem fresh_logs (p : Plan) (s : Summary) :
    Logs c.assertions.length (Check.fresh c cache a p s) fun lines t =>
      ∃ verdict, lines = [verdict.report p.irPath.name c.assertions.length] ∧
        (t = s.record verdict ∨
          verdict = .interesting ∧ t = (s.record verdict).withReduceFailure) := by
  unfold Check.fresh
  refine Logs.muted_bind (.adapt (within_build permits_muted c _ a p fun _ => trivial)) fun v => ?_
  split
  · refine Logs.muted_bind (.adapt ((within_store cache _ _).mono permits_muted.discreet)) fun _ => ?_
    exact Logs.report_bind (.pure ⟨.uncompilable, rfl, .inl rfl⟩)
  · refine Logs.muted_bind (.adapt (within_classify permits_muted c _ (fun _ _ => trivial)
      (fun _ _ => trivial) fun _ => trivial)) fun verdict => Logs.report_bind ?_
    split
    · refine (reduce_logs v _).mono fun xs t ⟨silent, either⟩ => ⟨.interesting, ?_, ?_⟩
      · rw [silent]
      · exact either.imp id fun failed => ⟨rfl, failed⟩
    · refine Logs.muted_bind ((within_settle c cache a v _).mono permits_muted.discreet) fun _ => ?_
      exact .pure ⟨_, rfl, .inl rfl⟩

/-- An entry counts its verdict, and its hit or its failure. -/
theorem merge_counted (s : Summary) (e : Entry) : s.merge e.counted =
    (if e.failed then Summary.withReduceFailure else id)
      ((if e.hit then s.withCacheHit else s).record e.verdict) := by
  obtain ⟨-, -, -, verdict, hit, failed, -, -⟩ := e
  cases verdict <;> cases hit <;> cases failed <;> rfl

/-- No interesting variant is remembered. -/
theorem lookup_kept {key : String} {found : Option Classification}
    (course : Course (cache.lookup key) xs found) : found ≠ some .interesting := by
  unfold Cache.lookup at course
  obtain ⟨_, _, uninteresting, -, -, course⟩ := course.split
  cases uninteresting with
  | true =>
    rw [(course_done course).2]
    simp
  | false =>
    obtain ⟨_, _, uncompilable, -, -, course⟩ := Course.split course
    cases uncompilable with
    | true =>
      rw [(course_done course).2]
      simp
    | false =>
      rw [(course_done course).2]
      simp

theorem plan_yields (directory : Path) (flags : List String) :
    Yields (Compile.plan c directory a flags) fun xs p => ∃ content,
      xs = [⟨.file (.read a.path), .ok content⟩] ∧
      p = Plan.ofContent c.extraArgs directory a flags content := by
  refine .bind (.orFail fun xs content course => .pure ⟨content, ?_, rfl⟩)
  rw [course_request course]
  rfl

theorem told_one {flags : List String} {e : Entry} (isAbout : e.subject = (a, flags))
    (read : ⟨.file (.read e.artifact.path), .ok e.content⟩ ∈ xs)
    (reported : reportLines c.assertions.length xs = [e.line c cache]) :
    Told c cache xs [(a, flags)] [e] where
  subjects := by rw [List.map_singleton, isAbout]
  read _ among := by
    obtain rfl := List.mem_singleton.mp among
    exact read
  logged := by rw [reported, List.map_singleton]

theorem variant_told (flags : List String) (s : Summary) :
    Yields (Check.variant c cache a flags s) fun xs t => ∃ e : Entry,
      Told c cache xs [(a, flags)] [e] ∧ t = s.merge e.counted := by
  unfold Check.variant
  have asked : Within (Muted c.assertions.length) (monadLift Program.isCancelled : Checking Bool) :=
    .monadLift (asks_request trivial)
  refine .bind ((Yields.of_within asked).mono fun before cancelled silent => ?_)
  dsimp only
  split
  · exact .throw_bind _
  refine .bind (.adapt ((plan_yields cache.irDir flags).mono ?_))
  rintro _ plan ⟨content, rfl, rfl⟩
  refine .bind (.lift fun between found course => ?_)
  have unsaid : reportLines c.assertions.length between = [] :=
    reportLines_muted (course.asks ((asks_lookup cache _).mono permits_muted.discreet))
  have quiet (after : List Exchange) : reportLines c.assertions.length
      (before ++ ([⟨.file (.read a.path), .ok content⟩] ++ (between ++ after))) =
        reportLines c.assertions.length after := by
    rw [reportLines_append, reportLines_muted silent, reportLines_append, reportLines_append, unsaid]
    rfl
  have read (after : List Exchange) : ⟨.file (.read a.path), .ok content⟩ ∈
      before ++ ([⟨.file (.read a.path), .ok content⟩] ++ (between ++ after)) := by simp
  split
  · rename_i verdict
    refine (report_yields _ verdict s.withCacheHit).mono ?_
    rintro _ _ ⟨rfl, rfl⟩
    have kept : verdict ≠ .interesting := fun same => lookup_kept course (congrArg some same)
    refine ⟨⟨a, flags, content, verdict, true, false, fun _ => kept, by simp⟩,
      told_one rfl (read _) ?_, by rw [merge_counted]; rfl⟩
    rw [quiet, reportLines_report]
    rfl
  · refine (fresh_logs _ s).mono ?_
    rintro after _ ⟨verdict, reported, rfl | ⟨rfl, rfl⟩⟩
    · refine ⟨⟨a, flags, content, verdict, false, false, by simp, by simp⟩,
        told_one rfl (read _) ?_, by rw [merge_counted]; rfl⟩
      rw [quiet, reported]
      rfl
    · refine ⟨⟨a, flags, content, .interesting, false, true, by simp, by simp⟩,
        told_one rfl (read _) ?_, by rw [merge_counted]; rfl⟩
      rw [quiet, reported]
      rfl

theorem each_told (sets : List (List String)) (s : Summary) :
    Yields (Check.each c cache a sets s) fun xs t => ∃ entries,
      Told c cache xs (sets.map (a, ·)) entries ∧ t = s.merge (sum (entries.map Entry.counted)) := by
  induction sets generalizing s with
  | nil =>
    refine .pure ⟨[], .nothing (by simp), ?_⟩
    rw [List.map_nil, sum_nil, Summary.merge_comm, Summary.zero_merge]
  | cons flags rest ih =>
    refine .bind ((variant_told flags s).mono ?_)
    rintro xs _ ⟨e, told, rfl⟩
    refine (ih _).mono ?_
    rintro ys _ ⟨entries, more, rfl⟩
    refine ⟨e :: entries, told.append more, ?_⟩
    rw [List.map_cons, sum_cons, Summary.merge_assoc]

/-! ## Checking programs -/

/-- The variants of an artifact. -/
def variantsOf (c : Config) (a : Artifact) : List (Artifact × List String) := (flagSets c a).map (a, ·)

theorem variants_told : Yields (Check.variants c cache a) fun xs t => ∃ entries,
    Told c cache xs (variantsOf c a) entries ∧ t = sum (entries.map Entry.counted) := by
  refine (each_told (flagSets c a) .zero).mono ?_
  rintro xs t ⟨entries, told, rfl⟩
  exact ⟨entries, told, Summary.zero_merge _⟩

theorem program_told (path : Path) : Yields (Check.program c path) fun xs t => ∃ a entries,
    Artifact.ofPath? path = some a ∧ Told c ⟨c.cacheRoot⟩ xs (variantsOf c a) entries ∧
    t = sum (entries.map Entry.counted) := by
  unfold Check.program
  split
  · exact .throw _
  · rename_i a isArtifact
    have opened : Within (Muted c.assertions.length)
        ((Cache.open c.cacheRoot).adapt PipelineError.cache) :=
      .adapt ((within_open c.cacheRoot).mono permits_muted.discreet)
    have atRoot : Yields ((Cache.open c.cacheRoot).adapt PipelineError.cache) _ :=
      (open_yields c.cacheRoot).adapt
    refine .bind fun xs cache course => ?_
    obtain rfl := atRoot xs cache course
    refine (variants_told.adapt).mono ?_
    rintro ys t ⟨entries, told, rfl⟩
    exact ⟨a, entries, isArtifact, (Told.nothing (course.asks opened)).append told, rfl⟩

/-! ## Scans -/

theorem muted_of_directing {checked : Nat} {r : Request} (directing : Directing r) :
    Muted checked r := by
  cases r with
  | log line => exact muted_of_level (by rw [show line.level = .warn from directing]; simp)
  | _ => trivial

theorem manages_muted (checked : Nat) (c : Config) : Manages (Muted checked) c where
  isCancelled := trivial
  createDirectories _ := trivial
  announcement := by
    refine muted_of_ending " solver thread(s) each" ?_ fun verdict => ?_
    · rw [announcement, String.toList_append]
      exact (ends_after (toString c.jobs) _).trans (List.suffix_append ..)
    · cases verdict <;> decide
  conclusion s := by
    refine muted_of_ending " cached)" ?_ fun verdict => ?_
    · rw [conclusion, String.toList_append]
      exact (ends_after _ " cached)").trans (List.suffix_append ..)
    · cases verdict <;> decide

theorem conclude_yields (parts : List Scan.Part) :
    Yields (conclude parts) fun _ t => Sums parts t := by
  unfold conclude
  refine .bind fun _ cancelled _ => ?_
  dsimp only
  split
  · exact .throw_bind _
  · refine .bind fun _ t totalled => ?_
    have isTotal : Scan.total parts = .ok t := (course_done totalled).2.symm
    exact .bind fun _ _ _ => .pure (total_ok.mp isTotal)

/-- The accounts of checks that all came to summaries are the accounts of each. -/
theorem checks_told {checks : List (Stint (Scan.pool c cache))} {summaries : List Summary}
    (results : checks.map Stint.result = summaries.map .ok) : ∃ entries,
      Told c cache (checks.map Stint.exchanges).flatten
        ((checks.map Stint.artifact).flatMap (variantsOf c)) entries ∧
      sum summaries = sum (entries.map Entry.counted) := by
  induction checks generalizing summaries with
  | nil =>
    obtain rfl := List.map_eq_nil_iff.mp results.symm
    exact ⟨[], .nothing (by simp), rfl⟩
  | cons check rest ih =>
    obtain ⟨t, others, rfl, isResult, more⟩ := List.map_eq_cons_iff.mp results.symm
    obtain ⟨entries, told, same⟩ := ih more.symm
    have whole := check.whole
    rw [← isResult] at whole
    have checked : Yields (Check.variants c cache check.artifact).normalized _ := variants_told.adapt
    obtain ⟨first, this, rfl⟩ := checked check.exchanges t whole
    refine ⟨first ++ entries, this.append told, ?_⟩
    rw [sum_cons, same, List.map_append, sum_append]

theorem run_told (supply : Supply) : Yields (Scan.run c supply) fun xs t => ∃ checked entries,
    checked <+: supply.ready ++ sought xs ∧
    (0 < c.processes → interrupt ∉ xs → checked = supply.ready ++ sought xs) ∧
    Told c ⟨c.cacheRoot⟩ xs (checked.flatMap (variantsOf c)) entries ∧
    t = sum (entries.map Entry.counted) := by
  rw [run_eq]
  refine .bind fun start parts gathered => ?_
  obtain ⟨e, isError, -⟩ | ⟨before, xs, found, checks, isOk, rfl, opened, served⟩ :=
    gather_course gathered
  · cases isError
  obtain rfl := Except.ok.inj isOk
  intro after t concluded
  rw [List.append_assoc]
  have sums := conclude_yields parts after t concluded
  obtain ⟨summaries, results, rfl⟩ := sums.perm served.results
  obtain ⟨entries, told, same⟩ := checks_told results
  have silent : sought (before ++ (xs ++ after)) = sought xs := by
    rw [sought, searches_around opened concluded, sought]
  refine ⟨checks.map Stint.artifact, entries, ?_, ?_, ?_, same⟩
  · rw [silent]
    exact served.handed.first
  · intro workers untold
    rw [silent]
    refine (served.handed.all workers (fun told => untold ?_) (going_of_sums sums)).2
    simp [told]
  · have muted := manages_muted c.assertions.length c
    obtain ⟨own, directing, shared⟩ := served.shared
    have first : Told c ⟨c.cacheRoot⟩ before [] [] := .nothing (opened.asks (within_opening muted))
    have last : Told c ⟨c.cacheRoot⟩ after [] [] :=
      .nothing (concluded.asks (within_conclude muted parts))
    have middle : Told c ⟨c.cacheRoot⟩ own [] [] :=
      .nothing fun x among => muted_of_directing (directing x among)
    simpa using first.append (((middle.append told).perm shared).append last)

/-! ## The accounts -/

/-- The accounts of a run that came to a summary after it had checked artifacts: every variant of
theirs is counted once, hits are verdicts that are kept, failures are interesting, and the log
reports each variant once, with the verdict that it is counted under. -/
structure Accounted (c : Config) (cache : Cache) (checked : List Artifact) (xs : List Exchange)
    (s : Summary) : Prop where
  total : s.total = (checked.map fun a => if a.isSource then c.optLevels.length else 1).sum
  hits : s.cacheHits ≤ s.uninteresting + s.uncompilable
  failures : s.reduceFailures ≤ s.interesting
  entries : ∃ entries, Told c cache xs (checked.flatMap (variantsOf c)) entries ∧
    s = sum (entries.map Entry.counted)
  counts : ∀ verdict, count s verdict = (lines xs).countP (reports c.assertions.length verdict)

namespace Entry

theorem counted_total (e : Entry) : e.counted.total = 1 := by
  unfold counted Summary.total
  cases e.verdict <;> rfl

theorem counted_hits (e : Entry) :
    e.counted.cacheHits ≤ e.counted.uninteresting + e.counted.uncompilable := by
  unfold counted
  by_cases hit : e.hit
  · have kept := e.hit_kept hit
    cases isVerdict : e.verdict with
    | interesting => exact absurd isVerdict kept
    | uninteresting => simp [hit]
    | uncompilable => simp [hit]
  · simp [hit]

theorem counted_failures (e : Entry) : e.counted.reduceFailures ≤ e.counted.interesting := by
  unfold counted
  by_cases failed : e.failed
  · simp [failed, e.failed_interesting failed]
  · simp [failed]

theorem counted_verdict (e : Entry) (verdict : Classification) :
    count e.counted verdict = if e.verdict = verdict then 1 else 0 := by
  unfold counted
  cases verdict <;> rfl

end Entry

theorem total_counted (entries : List Entry) :
    (sum (entries.map Entry.counted)).total = entries.length := by
  induction entries with
  | nil => rfl
  | cons e rest ih =>
    have one := e.counted_total
    rw [List.map_cons, sum_cons, List.length_cons, ← ih]
    simp only [Summary.total, Summary.merge] at one ⊢
    omega

theorem hits_counted (entries : List Entry) : (sum (entries.map Entry.counted)).cacheHits ≤
    (sum (entries.map Entry.counted)).uninteresting +
      (sum (entries.map Entry.counted)).uncompilable := by
  induction entries with
  | nil => exact Nat.le_refl _
  | cons e rest ih =>
    have first := e.counted_hits
    rw [List.map_cons, sum_cons]
    simp only [Summary.merge]
    omega

theorem failures_counted (entries : List Entry) : (sum (entries.map Entry.counted)).reduceFailures ≤
    (sum (entries.map Entry.counted)).interesting := by
  induction entries with
  | nil => exact Nat.le_refl _
  | cons e rest ih =>
    have first := e.counted_failures
    rw [List.map_cons, sum_cons]
    simp only [Summary.merge]
    omega

theorem count_merge (s t : Summary) (verdict : Classification) :
    count (s.merge t) verdict = count s verdict + count t verdict := by
  cases verdict <;> rfl

theorem count_counted (entries : List Entry) (verdict : Classification) :
    count (sum (entries.map Entry.counted)) verdict =
      entries.countP fun e => e.verdict = verdict := by
  induction entries with
  | nil => cases verdict <;> rfl
  | cons e rest ih =>
    rw [List.map_cons, sum_cons, count_merge, ih, e.counted_verdict, List.countP_cons]
    simp [Nat.add_comm]

theorem length_variantsOf (c : Config) (a : Artifact) :
    (variantsOf c a).length = if a.isSource then c.optLevels.length else 1 := by
  unfold variantsOf flagSets
  split <;> simp

/-- The lines that report a verdict are those of the entries with that verdict. -/
theorem Told.count (told : Told c cache xs subjects entries) (verdict : Classification) :
    (lines xs).countP (reports c.assertions.length verdict) =
      entries.countP fun e => e.verdict = verdict := by
  have all : (lines xs).countP (reports c.assertions.length verdict) =
      (reportLines c.assertions.length xs).countP (reports c.assertions.length verdict) := by
    rw [reportLines, List.countP_filter]
    refine List.countP_congr fun line _ => ?_
    simp only [Bool.and_eq_true, iff_self_and]
    exact isReport_of_reports
  rw [all, told.logged.countP_eq, List.countP_map]
  refine List.countP_congr fun e _ => ?_
  show reports _ verdict (e.verdict.report _ _) = true ↔ _
  rw [reports_report]
  simp [eq_comm]

theorem Told.accounted {checked : List Artifact}
    (told : Told c cache xs (checked.flatMap (variantsOf c)) entries) :
    Accounted c cache checked xs (sum (entries.map Entry.counted)) where
  total := by
    have lengths := told.subjects.length_eq
    rw [List.length_map, List.length_flatMap] at lengths
    rw [total_counted, lengths]
    simp only [length_variantsOf]
  hits := hits_counted entries
  failures := failures_counted entries
  entries := ⟨entries, told, rfl⟩
  counts verdict := by rw [count_counted, told.count]

/-- Every run that comes to a summary gives account of each variant that it checked: whatever the
cache held, and however the tools did. -/
theorem summaries_accounted (host : Host σ) (s : σ) (c : Config) (summary : Summary) :
    (∀ cache a, (exec host s (Check.variants c cache a)).1 = .ok summary →
      Accounted c cache [a] (record host s (Check.variants c cache a).run) summary) ∧
    (∀ path, (exec host s (Check.program c path)).1 = .ok summary →
      ∃ a, Artifact.ofPath? path = some a ∧
        Accounted c ⟨c.cacheRoot⟩ [a] (record host s (Check.program c path).run) summary) ∧
    (∀ supply, (exec host s (Scan.run c supply)).1 = .ok summary →
      ∃ checked, checked <+: supply.ready ++ sought (record host s (Scan.run c supply).run) ∧
        (0 < c.processes → interrupt ∉ record host s (Scan.run c supply).run →
          checked = supply.ready ++ sought (record host s (Scan.run c supply).run)) ∧
        Accounted c ⟨c.cacheRoot⟩ checked (record host s (Scan.run c supply).run) summary) := by
  refine ⟨fun cache a ends => ?_, fun path ends => ?_, fun supply ends => ?_⟩
  · have course := course_run host s (Check.variants c cache a).run
    rw [show (Program.run host s _).1 = _ from ends] at course
    obtain ⟨entries, told, rfl⟩ := variants_told _ _ course
    exact Told.accounted (by simpa using told)
  · have course := course_run host s (Check.program c path).run
    rw [show (Program.run host s _).1 = _ from ends] at course
    obtain ⟨a, entries, isArtifact, told, rfl⟩ := program_told path _ _ course
    exact ⟨a, isArtifact, Told.accounted (by simpa using told)⟩
  · have course := course_run host s (Scan.run c supply).run
    rw [show (Program.run host s _).1 = _ from ends] at course
    obtain ⟨checked, entries, first, all, told, rfl⟩ := run_told supply _ _ course
    exact ⟨checked, first, all, told.accounted⟩

/-- A check and a scan of one program whose verdict is known give account of its one variant. -/
theorem one_program_accounted :
    (exec stocked 16 (Check.variants plain ⟨plain.cacheRoot⟩ twinC)).1 = .ok ⟨0, 1, 0, 1, 0⟩ ∧
    Accounted plain ⟨plain.cacheRoot⟩ [twinC]
      (record stocked 16 (Check.variants plain ⟨plain.cacheRoot⟩ twinC).run) ⟨0, 1, 0, 1, 0⟩ ∧
    ∃ checked, checked <+: [twinC] ++ sought (record stocked 20 (Scan.run plain ⟨[twinC], []⟩).run) ∧
      Accounted plain ⟨plain.cacheRoot⟩ checked (record stocked 20 (Scan.run plain ⟨[twinC], []⟩).run)
        ⟨0, 1, 0, 1, 0⟩ := by
  have ends : (exec stocked 16 (Check.variants plain ⟨plain.cacheRoot⟩ twinC)).1 =
      .ok ⟨0, 1, 0, 1, 0⟩ := by rfl
  have single := (summaries_accounted stocked 16 plain ⟨0, 1, 0, 1, 0⟩).1 ⟨plain.cacheRoot⟩ twinC ends
  obtain ⟨checked, first, -, accounted⟩ :=
    (summaries_accounted stocked 20 plain ⟨0, 1, 0, 1, 0⟩).2.2 ⟨[twinC], []⟩ run_one
  exact ⟨ends, single, checked, first, accounted⟩

end BugHunt.Proofs.Accounting
