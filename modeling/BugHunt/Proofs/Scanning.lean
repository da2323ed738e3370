import BugHunt.Proofs.FanOut
import BugHunt.Proofs.Groupings
import BugHunt.Proofs.VariantKeys
/-!
Scans that end well. Such a scan has checked every artifact once, none of the checks failed, and
what it tells is the sum of what they found; a scan that was interrupted, or a check of which
failed, does not end well.
-/

namespace BugHunt.Proofs.Scanning
open Courses Asking Runs Stages FanOut Groupings VariantKeys

/-! ## The parts of a scan -/

/-- What a scan says before it starts. -/
def announcement (c : Config) : String :=
  s!"Scanning {c.searchRoots.length} search root(s) with {c.processes} worker(s), " ++
    s!"{c.jobs} solver thread(s) each"

/-- What a scan says when it is through. -/
def conclusion (s : Summary) : String :=
  s!"Checked {s.total} variant(s): {s.interesting} interesting, " ++
    s!"{s.uninteresting} uninteresting, {s.uncompilable} uncompilable ({s.cacheHits} cached)"

/-- The scan up to the start of the pool. -/
def opening (c : Config) : Checking Cache := do
  let cache ← (Cache.open c.cacheRoot).adapt .cache
  Program.info (announcement c)
  return cache

/-- The scan up to the end of the pool: the results of all checks. -/
def gather (c : Config) (supply : Supply) : Checking (List Scan.Part) := do
  let cache ← opening c
  ExceptT.lift ((Scan.pool c cache).run supply [] [])

/-- What a scan makes of the results. -/
def conclude (parts : List Scan.Part) : Checking Summary := do
  if ← Program.isCancelled then throw .interrupted
  let s ← ExceptT.mk (pure (Scan.total parts))
  Program.info (conclusion s)
  return s

theorem run_eq (c : Config) (supply : Supply) : Scan.run c supply = gather c supply >>= conclude := by
  unfold Scan.run gather opening conclude announcement conclusion
  simp only [bind_assoc, pure_bind]

/-- Whether a property holds of the requests by which a scan is run, but for those of its checks. -/
structure Manages (P : Request → Prop) (c : Config) : Prop where
  isCancelled : P .isCancelled
  createDirectories : ∀ path, P (.file (.createDirectories path))
  announcement : P (.log ⟨.info, announcement c⟩)
  conclusion : ∀ s, P (.log ⟨.info, conclusion s⟩)

section Manages

variable {P : Request → Prop} {c : Config} (manages : Manages P c)

include manages

theorem within_opening : Within P (opening c) := by
  have created (path : Path) : Within P (Action.orFail (Program.createDirectories path)
      (CacheError.files path)) := .orFail (asks_request (manages.createDirectories path))
  exact .bind (.adapt (.bind (created _) fun _ => .bind (created _) fun _ => .pure _)) fun _ =>
    .bind (.monadLift (asks_request manages.announcement)) fun _ => .pure _

theorem within_conclude (parts : List Scan.Part) : Within P (conclude parts) := by
  unfold conclude
  refine .bind (.monadLift (asks_request manages.isCancelled)) fun cancelled => ?_
  dsimp only
  split
  · exact .throw_bind _ _
  · refine .bind ?_ fun s => .bind (.monadLift (asks_request (manages.conclusion s))) fun _ => .pure _
    exact trivial

end Manages

theorem open_yields (root : Path) : Yields (Cache.open root) fun _ cache => cache = ⟨root⟩ :=
  .bind (.orFail fun _ _ _ => .bind (.orFail fun _ _ _ => .pure rfl))

/-- The cache of a scan lies at the root for it. -/
theorem opening_yields (c : Config) : Yields (opening c) fun _ cache => cache = ⟨c.cacheRoot⟩ := by
  have opened : Yields ((Cache.open c.cacheRoot).adapt PipelineError.cache) _ :=
    (open_yields c.cacheRoot).adapt
  refine .bind (opened.mono fun _ cache isCache => ?_)
  exact .bind (.monadLift fun _ _ _ => .pure isCache)

/-- What a scan exchanges up to the end of the pool: the cache cannot be opened, or the pool serves
the supply. -/
theorem gather_course {c : Config} {supply : Supply} {xs : List Exchange}
    {result : Except PipelineError (List Scan.Part)} (course : Course (gather c supply).run xs result) :
    (∃ e, result = .error e ∧ Course (opening c).run xs (.error e)) ∨
    ∃ before ys parts checks, result = .ok parts ∧ xs = before ++ ys ∧
      Course (opening c).run before (.ok ⟨c.cacheRoot⟩) ∧
      Served (Scan.pool c ⟨c.cacheRoot⟩) supply ys parts checks := by
  unfold gather at course
  rw [ExceptT.run_bind] at course
  obtain ⟨before, ys, opened, rfl, first, second⟩ := course.split
  cases opened with
  | error e =>
    obtain ⟨rfl, rfl⟩ := course_done second
    rw [List.append_nil]
    exact .inl ⟨e, rfl, first⟩
  | ok cache =>
    obtain rfl := opening_yields c before cache first
    obtain ⟨zs, rest, parts, rfl, pooled, ended⟩ := Course.split second
    obtain ⟨rfl, rfl⟩ := course_done ended
    have working (a : Artifact) : Asks Working ((Scan.pool c ⟨c.cacheRoot⟩).job a) :=
      (variants_working c _ a).adapt
    obtain ⟨checks, served⟩ := pool_served working pooled
    rw [List.append_nil]
    exact .inr ⟨before, zs, parts, checks, rfl, rfl, first, served⟩

/-! ## The token -/

/-- A token that a host answers by: whether an interrupt has been told stays so. -/
structure Token (host : Host σ) where
  tripped : σ → Bool
  told : ∀ s, (host .isCancelled s).1 = tripped s
  lasting : ∀ r s, tripped s → tripped (host r s).2

variable {host : Host σ} {s : σ}

theorem Token.run (token : Token host) (p : Program α) (tripped : token.tripped s) :
    token.tripped (p.run host s).2 := by
  induction p generalizing s with
  | done value => exact tripped
  | ask request next ih => exact ih _ (token.lasting request s tripped)

/-- As long as the token has not been tripped, nobody has been told of an interrupt. -/
theorem Token.untold (token : Token host) (p : Program α)
    (calm : token.tripped (p.run host s).2 = false) : interrupt ∉ record host s p := by
  induction p generalizing s with
  | done value => exact List.not_mem_nil
  | ask request next ih =>
    intro told
    rcases List.mem_cons.mp told with now | later
    · injection now with isRequest isAnswer
      subst isRequest
      have tripped : token.tripped s := (token.told s).symm.trans (eq_of_heq isAnswer).symm
      have still : token.tripped (Program.run host s (.ask .isCancelled next)).2 :=
        token.run _ tripped
      rw [calm] at still
      cases still
    · exact ih _ calm later

/-- A scan ends in the sum of the results if the token has not been tripped by then. -/
theorem exec_conclude (token : Token host) (parts : List Scan.Part) :
    (exec host s (conclude parts)).1 =
      if token.tripped s then .error .interrupted else Scan.total parts := by
  have asked : exec host s (monadLift Program.isCancelled : Checking Bool) =
      (.ok (token.tripped s), (host .isCancelled s).2) := by
    rw [← token.told s]
    exact exec_monadLift _
  unfold conclude
  rw [exec_bind_ok asked]
  cases token.tripped s with
  | true => rfl
  | false =>
    cases Scan.total parts with
    | error e => rfl
    | ok summary => rfl

/-! ## Scans that end well -/

/-- What is asked around the checks of a scan. -/
def Managing : Request → Prop
  | .isCancelled | .search _ | .choose _ | .log _ | .file (.createDirectories _) => True
  | _ => False

theorem managing_of_directing {r : Request} (directing : Directing r) : Managing r := by
  cases r with
  | isCancelled | search | choose | log => trivial
  | _ => exact directing.elim

theorem manages_managing (c : Config) : Manages Managing c where
  isCancelled := trivial
  createDirectories _ := trivial
  announcement := trivial
  conclusion _ := trivial

theorem manages_working (c : Config) : Manages Working c where
  isCancelled := trivial
  createDirectories _ := trivial
  announcement := trivial
  conclusion _ := trivial

theorem searches_of_working {xs : List Exchange} (working : ∀ x ∈ xs, Working x.request) :
    searches xs = [] := by
  refine searches_eq_nil fun x among root isSearch => ?_
  have working := working x among
  rw [isSearch] at working
  exact working.elim

/-- Around the pool nothing is searched. -/
theorem searches_around {c : Config} {cache : Cache} {parts : List Scan.Part}
    {result : Except PipelineError Summary} {before ys after : List Exchange}
    (opened : Course (opening c).run before (.ok cache))
    (concluded : Course (conclude parts).run after result) :
    searches (before ++ (ys ++ after)) = searches ys := by
  have first := searches_of_working (opened.asks (within_opening (manages_working c)))
  have last := searches_of_working (concluded.asks (within_conclude (manages_working c) parts))
  rw [searches_append, searches_append, first, last, List.nil_append, List.append_nil]

/-- A scan ends well just if the token has not been tripped by the end of the pool and all results
are summaries. -/
theorem run_ok (token : Token host) {c : Config} {supply : Supply} {summary : Summary} :
    (exec host s (Scan.run c supply)).1 = .ok summary ↔ ∃ parts t,
      exec host s (gather c supply) = (.ok parts, t) ∧ token.tripped t = false ∧ Sums parts summary := by
  rw [run_eq]
  cases gathered : exec host s (gather c supply) with
  | mk result t =>
    cases result with
    | error e => simp [exec_bind_error gathered]
    | ok parts =>
      rw [exec_bind_ok gathered, exec_conclude token]
      simp only [← total_ok]
      cases tripped : token.tripped t <;> simp [tripped]

/-- What a scan that came to a summary has done: it searched all its roots, it checked every artifact
of the supply, none of the checks failed, and the summary is the sum of theirs, in whatever order and
grouping they are added up. -/
structure Complete {c : Config} (supply : Supply) (xs : List Exchange)
    (checks : List (Stint (Scan.pool c ⟨c.cacheRoot⟩))) (summary : Summary) : Prop where
  roots : (searches xs).map Prod.fst = supply.roots
  artifacts : checks.map Stint.artifact = supply.ready ++ sought xs
  sums : Sums (checks.map Stint.result) summary
  grouped : ∀ grouping : Grouping, grouping.parts.Perm (checks.map Stint.result) →
    grouping.result = .ok summary

theorem record_run {c : Config} {supply : Supply} {parts : List Scan.Part} {t : σ}
    (gathered : exec host s (gather c supply) = (.ok parts, t)) :
    ∃ before ys after checks, record host s (Scan.run c supply).run = before ++ (ys ++ after) ∧
      record host s (gather c supply).run = before ++ ys ∧
      Course (opening c).run before (.ok ⟨c.cacheRoot⟩) ∧
      Course (conclude parts).run after (exec host t (conclude parts)).1 ∧
      Served (Scan.pool c ⟨c.cacheRoot⟩) supply ys parts checks := by
  have course := course_run host s (gather c supply).run
  rw [show (Program.run host s (gather c supply).run).1 = .ok parts from congrArg Prod.fst gathered]
    at course
  obtain ⟨e, isError, -⟩ | ⟨before, ys, found, checks, isOk, recorded, opened, served⟩ :=
    gather_course course
  · cases isError
  · obtain rfl := Except.ok.inj isOk
    refine ⟨before, ys, record host t (conclude parts).run, checks, ?_, recorded, opened,
      course_run host t _, served⟩
    rw [run_eq, record_exec_bind, gathered, recorded, List.append_assoc]

/-- Where the cache cannot be opened, nothing is checked. -/
theorem record_unopened {c : Config} {supply : Supply} {e : PipelineError} {t : σ}
    (gathered : exec host s (gather c supply) = (.error e, t)) :
    ∀ x ∈ record host s (Scan.run c supply).run, Managing x.request := by
  have course := course_run host s (gather c supply).run
  rw [show (Program.run host s (gather c supply).run).1 = .error e from congrArg Prod.fst gathered]
    at course
  rw [run_eq, record_exec_bind, gathered, List.append_nil]
  obtain ⟨_, -, opened⟩ | ⟨_, _, _, _, isOk, -⟩ := gather_course course
  · exact opened.asks (within_opening (manages_managing c))
  · cases isOk

/-- Where a result is no summary, there is no sum. -/
theorem not_sums {parts : List Scan.Part} {e : PipelineError} (failed : .error e ∈ parts)
    (s : Summary) : ¬ Sums parts s := by
  rintro ⟨summaries, rfl, -⟩
  obtain ⟨summary, -, isError⟩ := List.mem_map.mp failed
  cases isError

/-- Summaries do not stop a pool. -/
theorem going_of_sums {parts : List Scan.Part} {s : Summary} (sums : Sums parts s) :
    ∀ part ∈ parts, Scan.Part.isFailure part = false := by
  obtain ⟨summaries, rfl, -⟩ := sums
  intro part among
  obtain ⟨summary, -, rfl⟩ := List.mem_map.mp among
  rfl

theorem complete_of_served {c : Config} (workers : 0 < c.processes) {supply : Supply}
    {xs ys : List Exchange} {parts : List Scan.Part}
    {checks : List (Stint (Scan.pool c ⟨c.cacheRoot⟩))}
    (served : Served (Scan.pool c ⟨c.cacheRoot⟩) supply ys parts checks)
    (same : searches xs = searches ys) (untold : interrupt ∉ ys) {summary : Summary}
    (sums : Sums parts summary) : Complete supply xs checks summary := by
  obtain ⟨roots, artifacts⟩ := served.handed.all workers untold (going_of_sums sums)
  have total := sums.perm served.results
  refine ⟨?_, ?_, total, fun grouping reordered => ?_⟩
  · rw [same, roots]
  · rw [sought, same, artifacts, sought]
  · exact result_ok.mpr (total.perm reordered.symm)

/-- A scan that comes to a summary has checked every artifact once, each check came to a summary, and
the fields are the sums of theirs, whatever the order and the grouping. A scan does not come to a
summary if the token is tripped by the time that the pool is through, or if a check fails. -/
theorem successful_scan_checks_everything (token : Token host) {c : Config}
    (workers : 0 < c.processes) (supply : Supply) (s : σ) :
    ∃ checks : List (Stint (Scan.pool c ⟨c.cacheRoot⟩)),
      (∃ own, (∀ x ∈ own, Managing x.request) ∧ (record host s (Scan.run c supply).run).Perm
        (own ++ (checks.map Stint.exchanges).flatten)) ∧
      (∀ summary, (exec host s (Scan.run c supply)).1 = .ok summary →
        Complete supply (record host s (Scan.run c supply).run) checks summary) ∧
      ((∃ check ∈ checks, ∃ e, check.result = .error e) → ∀ summary,
        (exec host s (Scan.run c supply)).1 ≠ .ok summary ∧
        ∀ grouping : Grouping, grouping.parts.Perm (checks.map Stint.result) →
          grouping.result ≠ .ok summary) ∧
      (token.tripped (exec host s (gather c supply)).2 → ∀ summary,
        (exec host s (Scan.run c supply)).1 ≠ .ok summary) := by
  have interrupted (tripped : token.tripped (exec host s (gather c supply)).2) (summary : Summary) :
      (exec host s (Scan.run c supply)).1 ≠ .ok summary := by
    intro ends
    obtain ⟨parts, t, gathered, calm, -⟩ := (run_ok token).mp ends
    rw [gathered, calm] at tripped
    cases tripped
  cases gathered : exec host s (gather c supply) with
  | mk result t =>
    cases result with
    | error e =>
      refine ⟨[], ⟨_, record_unopened gathered, by simp⟩, fun summary ends => ?_, by simp,
        gathered ▸ interrupted⟩
      obtain ⟨_, _, same, -⟩ := (run_ok token).mp ends
      cases gathered.symm.trans same
    | ok parts =>
      obtain ⟨before, ys, after, checks, recorded, pooled, opened, concluded, served⟩ :=
        record_run gathered
      refine ⟨checks, ?_, fun summary ends => ?_, ?_, gathered ▸ interrupted⟩
      · obtain ⟨own, directing, shared⟩ := served.shared
        refine ⟨before ++ (after ++ own), ?_, ?_⟩
        · intro x among
          rcases List.mem_append.mp among with first | among
          · exact opened.asks (within_opening (manages_managing c)) x first
          · rcases List.mem_append.mp among with last | among
            · exact concluded.asks (within_conclude (manages_managing c) parts) x last
            · exact managing_of_directing (directing x among)
        · rw [recorded]
          have moved := List.perm_append_comm.trans (shared.append_left after)
          simpa [List.append_assoc] using moved.append_left before
      · obtain ⟨_, _, same, calm, sums⟩ := (run_ok token).mp ends
        obtain ⟨⟨rfl⟩, rfl⟩ := Prod.mk.inj (gathered.symm.trans same)
        have never : interrupt ∉ record host s (gather c supply).run :=
          token.untold _ (show token.tripped (exec host s (gather c supply)).2 = false by rwa [gathered])
        rw [pooled] at never
        refine complete_of_served workers served ?_
          (fun told => never (List.mem_append_right _ told)) sums
        rw [recorded, searches_around opened concluded]
      · rintro ⟨check, among, e, failed⟩ summary
        have isPart : .error e ∈ checks.map Stint.result := List.mem_map.mpr ⟨check, among, failed⟩
        refine ⟨fun ends => ?_, fun grouping same ends => ?_⟩
        · obtain ⟨_, _, same, -, sums⟩ := (run_ok token).mp ends
          obtain ⟨⟨rfl⟩, rfl⟩ := Prod.mk.inj (gathered.symm.trans same)
          exact not_sums (served.results.mem_iff.mpr isPart) summary sums
        · exact not_sums (same.mem_iff.mpr isPart) summary (result_ok.mp ends)

/-! ### A scan on a cache that knows everything -/

/-- A host on which every file is there, and empty. It is interrupted after a number of requests. -/
def stocked : Host Nat
  | .isCancelled, left => (left == 0, left - 1)
  | .choose _, left => ((0 : Nat), left)
  | .file (.createDirectories _), left => (Except.ok (), left - 1)
  | r, left => ((still [] r ()).1, left - 1)

def stockedToken : Token stocked where
  tripped left := left == 0
  told _ := rfl
  lasting r left tripped := by
    obtain rfl : left = 0 := by simpa using tripped
    cases r with
    | file r => cases r <;> rfl
    | _ => rfl

section Alone

variable (pool : Pool α)

/-- A job that runs alone takes every turn. -/
theorem run_turn (request : Request) (next : request.Answer → Program α) :
    pool.run ⟨[], []⟩ [.ask request next] [] =
      .ask (.choose 1) fun _ => .ask request fun answer => pool.run ⟨[], []⟩ [next answer] [] := by
  rw [Pool.run.eq_def, if_neg (by simp [Supply.isEmpty]), dif_neg (by simp)]
  refine congrArg _ (funext fun turn => ?_)
  dsimp only
  split
  · rename_i taken
    simp at taken
  · rename_i taken
    simp only [List.getElem_singleton] at taken
    cases taken
    simp [Nat.mod_one]

theorem run_last (result : α) :
    pool.run ⟨[], []⟩ [.done result] [] = .ask (.choose 1) fun _ => .done [result] := by
  rw [Pool.run.eq_def, if_neg (by simp [Supply.isEmpty]), dif_neg (by simp)]
  refine congrArg _ (funext fun turn => ?_)
  dsimp only
  split
  · rename_i taken
    simp only [List.getElem_singleton] at taken
    cases taken
    rw [show Supply.none = ⟨[], []⟩ from rfl, ite_self, Pool.run.eq_def, if_neg (by simp [Supply.isEmpty])]
    simp [Nat.mod_one]
  · rename_i taken
    simp at taken

/-- A job that runs alone runs as it would by itself. -/
theorem run_alone (p : Program α) (left : Nat) :
    (pool.run ⟨[], []⟩ [p] []).run stocked left =
      ([(p.run stocked left).1], (p.run stocked left).2) := by
  induction p generalizing left with
  | done value =>
    rw [run_last]
    rfl
  | ask request next ih =>
    rw [run_turn]
    exact ih _ _

end Alone

/-- What a scan of one program tells, and how many requests are left by then. -/
theorem gather_one : exec stocked 20 (gather plain ⟨[twinC], []⟩) = (.ok [.ok ⟨0, 1, 0, 1, 0⟩], 12) := by
  have opened : exec stocked 20 (opening plain) = (.ok ⟨plain.cacheRoot⟩, 17) := by rfl
  have checked : (Program.run stocked 16 ((Scan.pool plain ⟨plain.cacheRoot⟩).job twinC)) =
      (.ok ⟨0, 1, 0, 1, 0⟩, 12) := by rfl
  unfold gather
  rw [exec_bind_ok opened, exec_lift]
  have handed : (Program.run stocked 17 ((Scan.pool plain ⟨plain.cacheRoot⟩).run ⟨[twinC], []⟩ [] [])) =
      ([.ok ⟨0, 1, 0, 1, 0⟩], 12) := by
    rw [Pool.run.eq_def, if_pos (by decide)]
    show Program.run stocked 16 ((Scan.pool plain ⟨plain.cacheRoot⟩).run ⟨[], []⟩ [_] []) = _
    rw [run_alone, checked]
  rw [handed]

theorem run_one : (exec stocked 20 (Scan.run plain ⟨[twinC], []⟩)).1 = .ok ⟨0, 1, 0, 1, 0⟩ :=
  (run_ok stockedToken).mpr ⟨_, 12, gather_one, rfl, [⟨0, 1, 0, 1, 0⟩], rfl, rfl⟩

/-- A scan of one program whose verdict is known checks it once. With the token tripped from the
start, it comes to no summary. -/
theorem one_program_scanned :
    (exec stocked 20 (Scan.run plain ⟨[twinC], []⟩)).1 = .ok ⟨0, 1, 0, 1, 0⟩ ∧
    (∃ checks : List (Stint (Scan.pool plain ⟨plain.cacheRoot⟩)),
      checks.map Stint.artifact = [twinC] ∧ Sums (checks.map Stint.result) ⟨0, 1, 0, 1, 0⟩) ∧
    ∀ summary, (exec stocked 0 (Scan.run plain ⟨[twinC], []⟩)).1 ≠ .ok summary := by
  obtain ⟨checks, -, complete, -⟩ :=
    successful_scan_checks_everything stockedToken (c := plain) (by decide) ⟨[twinC], []⟩ 20
  obtain ⟨-, -, -, -, interrupted⟩ :=
    successful_scan_checks_everything stockedToken (c := plain) (by decide) ⟨[twinC], []⟩ 0
  have whole := complete _ run_one
  have nothing : searches (record stocked 20 (Scan.run plain ⟨[twinC], []⟩).run) = [] :=
    List.map_eq_nil_iff.mp whole.roots
  refine ⟨run_one, ⟨checks, ?_, whole.sums⟩, interrupted (stockedToken.run _ rfl)⟩
  rw [whole.artifacts, sought, nothing]
  rfl

end BugHunt.Proofs.Scanning
