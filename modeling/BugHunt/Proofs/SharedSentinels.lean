import BugHunt.Proofs.Cleanup
import BugHunt.Proofs.CrashRecords
import BugHunt.Proofs.Grounds
/-!
The sentinels of a series of calls of the oracle. The place of a sentinel is made of the directory and
the stem of the program and of the stage, and not of the program's extension. What stands there after
the series is the record of the last crash that was told there, whichever program's it was.
-/

namespace BugHunt.Proofs.SharedSentinels
open Cleanup CrashRecords Courses Custody FileTree Growth Homing Housing JsonTexts Names Outcomes Places
open Runs StageOrder Trees Verdicts Ways
open Grounds hiding Leads

variable {t u v : FileTree} {here P : Place} {pre : List Bytes} {stage : Stage}

/-! ## Programs in their directories -/

/-- Whether the pieces before a path's last name lead to a directory. -/
structure Opens (t : FileTree) (here : Place) (pre : List Bytes) (D : Place) : Prop where
  there : t.isDirectoryAt D
  found : ∃ node, t.walk true mostLinks (if pre.head? == some [] then [] else here) pre = .ok ⟨D, some node⟩

theorem Opens.kept {D : Place} (opens : Opens t here pre D) (firm : Firm t u) : Opens u here pre D := by
  have there := firm.isDirectoryAt opens.there
  obtain ⟨node, found⟩ := opens.found
  obtain ⟨node', isNode, -⟩ := (Option.any_eq_true _ _).mp there
  have kept := walk_kept firm found fun inert => absurd inert (busy_of_directory opens.there)
  exact ⟨there, node', isNode ▸ kept⟩

/-- A path with these pieces before its last name finds the entry of that name. -/
theorem Opens.find {D : Place} {p : Path} {name : Bytes} (opens : Opens t here pre D) (ends : Ends p pre name)
    (noLink : ∀ path, t.node? (D ++ [name]) ≠ some (.link path)) :
    t.find here p true = entry t D p name := by
  obtain ⟨node, found⟩ := opens.found
  have stepped : t.walk true mostLinks (if pre.head? == some [] then [] else here) (pre ++ []) =
      .ok ⟨D, some node⟩ := by
    rwa [List.append_nil]
  obtain ⟨left, goesOn⟩ := walk_through opens.there List.all_nil stepped
  have leads (followLast : Bool) := goesOn followLast name ends.proper.ne_nil
  refine ends.find_entry leads (.inr fun q path isLink => ?_)
  rw [ends.find_entry leads (.inl rfl)] at isLink
  obtain ⟨is, -⟩ := entry_eq_ok isLink
  exact noLink path (congrArg Target.node is).symm

/-- A call of the oracle on a program that has an extension, in a directory. -/
structure Trial where
  config : Config
  irPath : Path
  /-- The place of the directory. -/
  directory : Place
  pre : List Bytes
  stem : Bytes
  extension : Bytes
  pieces : irPath.pieces = pre ++ [stem ++ Path.dot :: extension]
  isStem : Stem stem
  plain : Path.dot ∉ extension

namespace Trial

def classify (trial : Trial) : Judging Classification := Oracle.classify trial.config trial.irPath

/-- The name of the sentinel of a stage. -/
def signed (trial : Trial) (stage : Stage) : Bytes :=
  trial.stem ++ Path.dot :: utf8 stage.sentinelExtension

/-- The place of the sentinel of a stage. -/
def slot (trial : Trial) (stage : Stage) : Place := trial.directory ++ [trial.signed stage]

theorem ends (trial : Trial) (stage : Stage) :
    Ends (sentinelPath trial.irPath stage) trial.pre (trial.signed stage) :=
  withExtension_ends _ trial.pieces trial.isStem trial.plain (by cases stage <;> decide)

end Trial

/-- Whether neither a link nor a device stands at a place. -/
def Open (node : Option Node) : Prop := (∀ path, node ≠ some (.link path)) ∧ node ≠ some .sink

theorem open_none : Open none := ⟨by simp, by simp⟩

theorem open_file (content : Bytes) (executable : Bool) : Open (some (.file content executable)) :=
  ⟨by simp, by simp⟩

/-- Whether a call can begin: no tool is at work, and in the program's directory neither a link nor a
device bears the name of a sentinel. -/
structure Ready (tree : σ → FileTree) (give : σ → Place → Prop) (here : Place) (s : σ) (trial : Trial) :
    Prop where
  idle : ∀ q, ¬ give s q
  opens : Opens (tree s) here trial.pre trial.directory
  clear : ∀ stage, Open ((tree s).node? (trial.slot stage))

/-! ## Writing a sentinel -/

theorem firm_of_around {marks : Place → Prop} (around : Around P marks t u)
    (free : ∀ q, P <+: q → t.node? q = none) : Firm t u := by
  intro q busy
  have outside : ¬ P <+: q := fun below => busy (free q below ▸ inert_none)
  exact (around q outside).resolve_right fun marked => busy marked.2.1

/-- A workspace that was made at an entry of a directory, or above it, was made at the entry. -/
theorem eq_entry_of_below {D : Place} {name : Bytes} (there : t.isDirectoryAt D)
    (free : ∀ q, P <+: q → t.node? q = none) (below : P <+: D ++ [name]) : P = D ++ [name] := by
  rcases List.prefix_concat_iff.mp below with same | above
  · exact same
  · exact absurd (free D above ▸ inert_none) (busy_of_directory there)

/-- What the writing of a sentinel leaves, in a tree `u` that differs from the one at the start of the
call in the workspace only. -/
structure Written (t u v : FileTree) (P : Place) (trial : Trial) (stage : Stage) (content : Bytes) :
    Prop where
  outside : ¬ P <+: trial.slot stage
  was : Inert (t.node? (trial.slot stage))
  view : v.node? = View.put u.node? (trial.slot stage) (some (rewritten content (t.node? (trial.slot stage))))
  shortPath : (sentinelPath trial.irPath stage).bytes.length ≤ longestPath
  shortName : (trial.signed stage).length ≤ longestName

theorem written_at_slot {trial : Trial} {given : Place → Prop} {content : Bytes}
    (opens : Opens t here trial.pre trial.directory) (clear : Open (t.node? (trial.slot stage)))
    (free : ∀ q, P <+: q → t.node? q = none) (housed : Housed t P (fun _ => False) u given)
    (written : u.write here (sentinelPath trial.irPath stage) content = .ok v) :
    Written t u v P trial stage content := by
  have same (q : Place) (outside : ¬ P <+: q) : u.node? q = t.node? q :=
    (housed.around q outside).resolve_right And.left
  have noLink (path : Path) : u.node? (trial.slot stage) ≠ some (.link path) := by
    by_cases below : P <+: trial.slot stage
    · have home : P = trial.slot stage := eq_entry_of_below opens.there free below
      rw [← home, housed.made]
      simp
    · rw [same _ below]
      exact clear.1 path
  have opens' := opens.kept (firm_of_around housed.around free)
  obtain ⟨q, node, found, noDirectory, rfl⟩ := write_eq_ok written
  rw [opens'.find (trial.ends stage) noLink] at found
  obtain ⟨rfl, rfl⟩ := Target.mk.inj (entry_eq_ok found).1
  have outside : ¬ P <+: trial.slot stage := by
    intro below
    have home : P = trial.slot stage := eq_entry_of_below opens.there free below
    have made : u.node? (trial.slot stage) = some .directory := home ▸ housed.made
    change (u.node? (trial.slot stage)).any _ = false at noDirectory
    rw [made] at noDirectory
    cases noDirectory
  have was := same _ outside
  refine ⟨outside, ⟨was ▸ noDirectory, clear.1⟩, ?_, ?_, ?_⟩
  · rw [← was]
    exact node?_set (by simp)
  all_goals
    unfold entry at found
    split at found
    · cases found
    · split at found
      · cases found
      · split at found
        · cases found
        · omega

/-- The name of a sentinel tells the stem and the stage. -/
theorem signed_eq_iff {trial other : Trial} {stage stage' : Stage} :
    other.signed stage' = trial.signed stage ↔ other.stem = trial.stem ∧ stage' = stage := by
  constructor
  · intro same
    have plain (stage : Stage) : Path.dot ∉ utf8 stage.sentinelExtension := by cases stage <;> decide
    have extensions := extension_unique (plain stage') (plain stage) same
    obtain rfl : stage' = stage := by
      cases stage <;> cases stage' <;> first | rfl | exact absurd extensions (by decide)
    exact ⟨List.append_cancel_right same, rfl⟩
  · rintro ⟨stems, rfl⟩
    rw [Trial.signed, Trial.signed, stems]

/-- Two sentinels share a place if and only if the directories, the stems and the stages are the same,
whatever the extensions of the programs are. -/
theorem slot_eq_iff {trial other : Trial} {stage stage' : Stage} :
    other.slot stage' = trial.slot stage ↔
      other.directory = trial.directory ∧ other.stem = trial.stem ∧ stage' = stage := by
  rw [← signed_eq_iff, Trial.slot, Trial.slot]
  constructor
  · intro same
    obtain ⟨directories, names⟩ := List.append_inj' same rfl
    exact ⟨directories, List.singleton_inj.mp names⟩
  · rintro ⟨directories, names⟩
    rw [directories, names]

theorem stage_of_sentinelPath {trial : Trial} {stage stage' : Stage}
    (same : sentinelPath trial.irPath stage = sentinelPath trial.irPath stage') : stage = stage' := by
  have pieces := congrArg Path.pieces same
  rw [(trial.ends stage).pieces, (trial.ends stage').pieces] at pieces
  exact (signed_eq_iff.mp (List.singleton_inj.mp (List.append_cancel_left pieces))).2

/-! ## Calls -/

/-- The request to write the sentinel of a stage, with its answer. -/
def report (trial : Trial) (stage : Stage) (content : Bytes) (answer : Except Failure Unit) : Exchange :=
  ⟨.file (.write (sentinelPath trial.irPath stage) content), answer⟩

/-- Where a call stands after it wrote a sentinel. -/
def Told (w : Workspace) (phase : Phase) : Prop :=
  phase = .closing w ∨ ∃ answer, phase = .cleared w answer

/-- What has come of the writing of a sentinel: around the workspace nothing has changed but what was
written. -/
structure Noted (t : FileTree) (here : Place) (trial : Trial) (phase : Phase) (u : FileTree)
    (stage : Stage) (content : Bytes) (answer : Except Failure Unit) (w : Workspace) (P : Place) : Prop where
  told : Told w phase
  lodging : Lodging t here w.root P
  around : ∀ q, ¬ P <+: q → q ≠ trial.slot stage → u.node? q = t.node? q
  stored : answer = .ok () → ¬ P <+: trial.slot stage ∧
    u.node? (trial.slot stage) = some (rewritten content (t.node? (trial.slot stage))) ∧
    (sentinelPath trial.irPath stage).bytes.length ≤ longestPath ∧ (trial.signed stage).length ≤ longestName

variable {trial : Trial} {phase : Phase} {w : Workspace} {content : Bytes} {answer : Except Failure Unit}
  {xs : List Exchange} {given : Place → Prop}

theorem Noted.later {phase' : Phase} (noted : Noted t here trial phase u stage content answer w P)
    (told : Told w phase') (same : ∀ q, ¬ P <+: q → v.node? q = u.node? q) :
    Noted t here trial phase' v stage content answer w P where
  told := told
  lodging := noted.lodging
  around q outside other := (same q outside).trans (noted.around q outside other)
  stored written := by
    obtain ⟨outside, view, short⟩ := noted.stored written
    exact ⟨outside, (same _ outside).trans view, short⟩

/-- Writing the sentinel of a stage that has crashed. -/
theorem noted_writes (grown : Grown t.node?) (opens : Opens t here trial.pre trial.directory)
    (clear : Open (t.node? (trial.slot stage)))
    (stands : Stands t here trial.irPath xs u given (.crashed w stage))
    (leaves : Leaves here u (.file (.write (sentinelPath trial.irPath stage) content)) answer v) :
    ∃ P, Noted t here trial (.closing w) v stage content answer w P := by
  obtain ⟨P, lodged, housed⟩ := stands.unmarked rfl (by simp)
  have free := lodged.lodging.free grown
  have same (q : Place) (outside : ¬ P <+: q) : u.node? q = t.node? q :=
    (housed.around q outside).resolve_right And.left
  refine ⟨P, .inl rfl, lodged.lodging, fun q outside other => ?_, fun written => ?_⟩
  · have stored {part : Bytes} (written : u.write here (sentinelPath trial.irPath stage) part = .ok v) :
        v.node? q = t.node? q := by
      rw [(written_at_slot opens clear free housed written).view, View.put_other other]
      exact same q outside
    cases answer with
    | ok value => exact stored leaves
    | error cause =>
      rcases leaves with rfl | ⟨part, written⟩
      · exact same q outside
      · exact stored written
  · subst written
    have written := written_at_slot opens clear free housed leaves
    exact ⟨written.outside, by rw [written.view, View.put_self], written.shortPath, written.shortName⟩

/-- The tools keep off all that is around the workspace. -/
theorem Noted.scribbled (stands : Stands t here trial.irPath xs u given phase)
    (noted : Noted t here trial phase u stage content answer w P) (scribbled : Scribbled given u v) :
    Noted t here trial phase v stage content answer w P := by
  refine noted.later noted.told fun q outside => scribbled.kept q fun isGiven => outside ?_
  have home {P' : Place} (lodging : Lodging t here w.root P') : P' = P :=
    (Target.mk.inj (Except.ok.inj (lodging.leads.symm.trans noted.lodging.leads))).1
  rcases noted.told with rfl | ⟨done, rfl⟩
  · obtain ⟨P', marks, lodged, isMarks, housed⟩ := stands.settled rfl
    exact home lodged.lodging ▸ (housed.spare q isGiven).below
  · cases stands with
    | housed isOpen => cases isOpen
    | cleared lodged isMarks asked left => exact home lodged.lodging ▸ (left.spare q isGiven).below

/-- What a request of the oracle leaves of what has come of the writing of a sentinel. -/
theorem Noted.step (grown : Grown t.node?) {r : Request} {answer' : r.Answer}
    (stands : Stands t here trial.irPath xs u given phase)
    (noted : Noted t here trial phase u stage content answer w P)
    (may : May trial.config trial.irPath phase r) (leaves : Leaves here u r answer' v) :
    Noted t here trial (phase.after r answer') v stage content answer w P := by
  have still (aside : Aside r) : Noted t here trial (phase.after r answer') v stage content answer w P := by
    have same : v = u := by cases aside <;> exact leaves
    subst same
    rw [after_aside phase aside answer']
    exact noted
  rcases noted.told with rfl | ⟨done, rfl⟩
  · cases may with
    | aside aside => exact still aside
    | readsBitcode unread => cases unread
    | removes settled =>
      obtain rfl := Option.some.inj settled
      obtain ⟨P', marks, lodged, isMarks, housed⟩ := stands.settled settled
      obtain rfl : P' = P :=
        (Target.mk.inj (Except.ok.inj (lodged.lodging.leads.symm.trans noted.lodging.leads))).1
      exact noted.later (.inr ⟨answer', rfl⟩) fun q => housed.removed_elsewhere lodged.lodging grown leaves
  · cases may with
    | aside aside => exact still aside
    | readsBitcode unread => cases unread
    | removes settled => cases settled

theorem standing_concat (xs : List Exchange) (x : Exchange) :
    standing (xs ++ [x]) = (standing xs).after x.request x.answer := by
  rw [standing, List.foldl_append]
  rfl

/-- Of a sentinel that may be asked to be written the stage has crashed. -/
theorem crashed_of_may {c : Config} {p : Path} (isPath : p = sentinelPath trial.irPath stage)
    (may : May c trial.irPath phase (.file (.write p content))) : ∃ w, phase = .crashed w stage := by
  cases may with
  | aside aside => cases aside
  | writes w stage' =>
    obtain rfl := stage_of_sentinelPath isPath
    exact ⟨w, rfl⟩

theorem report_of_mark {S : Place} (mark : Mark t here trial.irPath P xs stage v S) :
    ∃ content answer, report trial stage content answer ∈ xs := by
  obtain ⟨before, ⟨request, answer⟩, after, w, content, rfl, -, same⟩ := mark.asked
  dsimp only at same
  subst same
  exact ⟨content, answer, by simp [report]⟩

/-- How a tree stands that a call left: as it was, or but for a workspace and the mark of a sentinel. -/
theorem around_of_stands {irPath : Path} (stands : Stands t here irPath xs u given phase) :
    u.node? = t.node? ∨ ∃ w P marks, Lodged t here irPath xs w P ∧ Marks t here irPath P xs marks ∧
      Grown u.node? ∧ Around P marks t u := by
  cases stands with
  | fresh same => exact .inl same
  | laid lodged housed => exact .inr ⟨_, _, _, lodged, .none, housed.grown, housed.around⟩
  | housed _ _ lodged housed => exact .inr ⟨_, _, _, lodged, .none, housed.grown, housed.around⟩
  | marked lodged mark housed => exact .inr ⟨_, _, _, lodged, .sentinel mark, housed.grown, housed.around⟩
  | cleared lodged isMarks asked left => exact .inr ⟨_, _, _, lodged, isMarks, left.grown, left.around⟩

/-- A call leaves all as it was that it found, but for the sentinels that were asked to be written; and
of these holds what was written if that was answered with success. -/
structure Called (t u : FileTree) (trial : Trial) (xs : List Exchange) : Prop where
  grown : Grown u.node?
  firm : Firm t u
  kept : ∀ q, t.node? q ≠ none → (∀ stage content answer, report trial stage content answer ∈ xs →
    q ≠ trial.slot stage) → u.node? q = t.node? q
  stored : ∀ stage content, report trial stage content (.ok ()) ∈ xs →
    u.node? (trial.slot stage) = some (rewritten content (t.node? (trial.slot stage))) ∧
    (sentinelPath trial.irPath stage).bytes.length ≤ longestPath ∧ (trial.signed stage).length ≤ longestName

section Calls

variable {host : Host σ} {tree : σ → FileTree} {give : σ → Place → Prop} {s : σ}
  (shop : Workshop host tree here give) (grown : Grown (tree s).node?) (ready : Ready tree give here s trial)
include shop grown ready

theorem call_noted :
    ∀ stage content answer, report trial stage content answer ∈ record host s trial.classify.run →
      ∃ w P, Noted (tree s) here trial (standing (record host s trial.classify.run))
        (tree (exec host s trial.classify).2) stage content answer w P := by
  have heeds : Heeds (discipline trial.config trial.irPath) (Ended trial.config) .fresh trial.classify :=
    classify_heeds
  refine (run_keeps
    (I := fun xs s' => Stands (tree s) here trial.irPath xs (tree s') (give s') (standing xs) ∧
      ∀ stage content answer, report trial stage content answer ∈ xs →
        ∃ w P, Noted (tree s) here trial (standing xs) (tree s') stage content answer w P)
    (fun xs s' r invariant may => ?_) [] heeds
    ⟨.fresh rfl ready.idle, fun _ _ _ found => absurd found List.not_mem_nil⟩).2
  obtain ⟨stands, noted⟩ := invariant
  refine ⟨stands_step shop grown stands may, fun stage content answer found => ?_⟩
  obtain ⟨u, scribbled, leaves⟩ := shop.step r s'
  rw [standing_concat]
  rcases List.mem_append.mp found with before | now
  · obtain ⟨w, P, noted⟩ := noted stage content answer before
    exact ⟨w, P, (noted.scribbled stands scribbled).step grown (stands.scribbled scribbled) may leaves⟩
  · obtain ⟨rfl, isAnswer⟩ := Exchange.mk.inj (List.mem_singleton.mp now)
    obtain rfl := eq_of_heq isAnswer
    obtain ⟨w, stood⟩ : ∃ w, standing xs = .crashed w stage := crashed_of_may rfl may
    rw [stood] at stands ⊢
    obtain ⟨P, noted⟩ :=
      noted_writes grown ready.opens (ready.clear stage) (stands.scribbled scribbled) leaves
    exact ⟨w, P, noted⟩

theorem called : Called (tree s) (tree (exec host s trial.classify).2) trial
    (record host s trial.classify.run) := by
  have noted := call_noted shop grown ready
  have stands : Stands (tree s) here trial.irPath (record host s trial.classify.run)
      (tree (exec host s trial.classify).2) _ (standing (record host s trial.classify.run)) :=
    classify_stands shop grown ready.idle trial.config trial.irPath
  have stored (stage : Stage) (content : Bytes)
      (found : report trial stage content (.ok ()) ∈ record host s trial.classify.run) :=
    (noted stage content _ found).elim fun w ⟨P, noted⟩ => (noted.stored rfl).2
  rcases around_of_stands stands with same | ⟨w, P, marks, lodged, isMarks, grown', around⟩
  · exact ⟨same ▸ grown, fun q _ => congrFun same q, fun q _ _ => congrFun same q, stored⟩
  · refine ⟨grown', firm_of_around around (lodged.lodging.free grown), fun q there other => ?_, stored⟩
    have outside {w : Workspace} {P : Place} (lodging : Lodging (tree s) here w.root P) : ¬ P <+: q :=
      fun below => there (lodging.free grown q below)
    cases isMarks with
    | none => exact (around q (outside lodged.lodging)).resolve_right And.left
    | sentinel mark =>
      obtain ⟨content, answer, found⟩ := report_of_mark mark
      obtain ⟨w, P, noted⟩ := noted _ content answer found
      exact noted.around q (outside noted.lodging) (other _ content answer found)

end Calls

/-! ## Crashes -/

/-- What one program was asked and answered is no beginning of what it may be asked and answered else. -/
theorem course_front {p : Program α} {xs ys as bs : List Exchange} {value other : α}
    (course : Course p xs value) (also : Course p ys other) (same : xs ++ as = ys ++ bs) :
    xs = ys ∧ value = other ∧ as = bs := by
  induction course generalizing ys with
  | done value =>
    obtain ⟨rfl, rfl⟩ := course_done also
    exact ⟨rfl, rfl, same⟩
  | ask answer rest ih =>
    cases also with
    | ask answer' rest' =>
      obtain ⟨first, later⟩ := List.cons.inj same
      obtain rfl := eq_of_heq (Exchange.mk.inj first).2
      obtain ⟨rfl, rfl, rest⟩ := ih rest' later
      exact ⟨rfl, rfl, rest⟩

/-- An action whose beginning was answered with a value goes on from there. -/
theorem leads_onward {a : Action ε α} {f : α → Action ε β} {xs ys : List Exchange} {value : α} {result : β}
    (first : Leads a xs value) (leads : Leads (a >>= f) (xs ++ ys) result) : Leads (f value) ys result := by
  obtain ⟨xs', ys', value', split, first', second⟩ := leads_bind.mp leads
  obtain ⟨-, same, rfl⟩ := course_front first first' split
  obtain rfl := Except.ok.inj same
  exact second

/-- Whether a call of the oracle ran the tool of a stage and the tool failed, as the sentinel says. -/
inductive Crashed (c : Config) (irPath : Path) : Sentinel → List Exchange → Prop
  | facts {w : Workspace} {made prepared rest : List Exchange} {bitcode : Path} {child : Child}
    {status : Status} {streams : Bytes × Bytes} (workspace : Leads (Workspace.create irPath.name) made w)
    (assembled : Leads (Compile.assemble c irPath w.root) prepared bitcode) (fails : status ≠ .exited 0) :
    Crashed c irPath ⟨.factGeneration, c.tools.factgen, irPath, Command.outputOf status streams⟩
      (made ++ (prepared ++ (exits c (Oracle.factCommand c w bitcode) child status streams ++ rest)))
  | analysis {w : Workspace} {made generated rest : List Exchange} {child : Child} {status : Status}
    {streams : Bytes × Bytes} (workspace : Leads (Workspace.create irPath.name) made w)
    (facts : Generated c irPath w generated) (fails : status ≠ .exited 0) :
    Crashed c irPath ⟨.analysis, c.analysisTool, irPath, Command.outputOf status streams⟩
      (made ++ (generated ++ (exits c (Oracle.analysisCommand c w) child status streams ++ rest)))

theorem Crashed.path {c : Config} {irPath : Path} {k : Sentinel} (crashed : Crashed c irPath k xs) :
    k.path = sentinelPath irPath k.stage := by
  cases crashed <;> rfl

theorem leads_failure (c : Config) (command : Command) (child : Child) {status : Status}
    (streams : Bytes × Bytes) (fails : status ≠ .exited 0) :
    Leads (Oracle.runStage c command) (exits c command child status streams)
      (.crashed (Command.outputOf status streams)) :=
  leads_stage.mpr (.inr (.inl ⟨child, status, streams, fails, rfl, rfl⟩))

theorem mem_told (k : Sentinel) (crash : String) :
    (⟨.file (.write k.path (utf8 k.toJson.pretty)), Except.ok ()⟩ : Exchange) ∈ told k crash :=
  .tail _ (.tail _ (.head _))

/-- A call that comes to a verdict after a crash has written the sentinel of the crash. -/
theorem reported_of_crashed {c : Config} {irPath : Path} {verdict : Classification} {k : Sentinel}
    (leads : Leads (Oracle.classify c irPath) xs verdict) (crashed : Crashed c irPath k xs) :
    ⟨.file (.write k.path (utf8 k.toJson.pretty)), Except.ok ()⟩ ∈ xs := by
  unfold Oracle.classify at leads
  cases crashed with
  | @facts w made prepared rest bitcode child status streams workspace assembled fails =>
    have within := leads_onward (leads_adapt.mpr workspace) leads
    obtain ⟨judged, removed, split, judging, -⟩ := leads_cleaningUp.mp within
    obtain ⟨prepared', ys, bitcode', rfl, assembled', generating⟩ := leads_bind.mp judging
    rw [List.append_assoc] at split
    obtain ⟨-, same, split⟩ := course_front assembled (leads_adapt.mp assembled') split
    obtain rfl := Except.ok.inj same
    obtain ⟨ran, ys, result, rfl, stage, after⟩ := leads_bind.mp generating
    rw [List.append_assoc] at split
    obtain ⟨-, same, rfl⟩ := course_front (leads_failure c _ child streams fails) stage split
    obtain rfl := Except.ok.inj same
    obtain ⟨⟨⟩, reported, rfl⟩ := leads_return.mp after
    rw [leads_crash.mp reported]
    simp only [List.mem_append]
    exact .inr (.inr (.inr (.inl (mem_told _ _))))
  | @analysis w made generated rest child status streams workspace facts fails =>
    have within := leads_onward (leads_adapt.mpr workspace) leads
    obtain ⟨judged, removed, split, judging, -⟩ := leads_cleaningUp.mp within
    obtain @⟨bitcode, prepared, child', streams', assembled⟩ := facts
    obtain ⟨prepared', ys, bitcode', rfl, assembled', generating⟩ := leads_bind.mp judging
    rw [List.append_assoc, List.append_assoc] at split
    obtain ⟨-, same, split⟩ := course_front assembled (leads_adapt.mp assembled') split
    obtain rfl := Except.ok.inj same
    obtain ⟨ran, ys, result, rfl, stage, after⟩ := leads_bind.mp generating
    rw [List.append_assoc] at split
    have succeeded : Leads (Oracle.runStage c (Oracle.factCommand c w bitcode))
        (exits c (Oracle.factCommand c w bitcode) child' (.exited 0) streams') .succeeded :=
      leads_stage.mpr (.inl ⟨child', streams', rfl, rfl⟩)
    obtain ⟨-, same, split⟩ := course_front succeeded stage split
    obtain rfl := Except.ok.inj same
    obtain ⟨ran, ys, result, rfl, stage, after⟩ := leads_bind.mp after
    rw [List.append_assoc] at split
    obtain ⟨-, same, rfl⟩ := course_front (leads_failure c _ child streams fails) stage split
    obtain rfl := Except.ok.inj same
    obtain ⟨⟨⟩, reported, rfl⟩ := leads_return.mp after
    rw [leads_crash.mp reported]
    simp only [List.mem_append]
    exact .inr (.inr (.inr (.inl (mem_told _ _))))

/-! ## Series of calls -/

variable {host : Host σ} {tree : σ → FileTree} {give : σ → Place → Prop} {s : σ}

/-- The state after a series of calls. -/
def later (host : Host σ) (s : σ) (trials : List Trial) : σ :=
  trials.foldl (fun s trial => (exec host s trial.classify).2) s

/-- Whether each call of a series can begin when those before it have ended. -/
def Fit (host : Host σ) (tree : σ → FileTree) (give : σ → Place → Prop) (here : Place) :
    σ → List Trial → Prop
  | _, [] => True
  | s, trial :: rest => Ready tree give here s trial ∧
    Fit host tree give here (exec host s trial.classify).2 rest

theorem later_append (before after : List Trial) :
    later host s (before ++ after) = later host (later host s before) after :=
  List.foldl_append

theorem fit_append {before after : List Trial} : Fit host tree give here s (before ++ after) ↔
    Fit host tree give here s before ∧ Fit host tree give here (later host s before) after := by
  induction before generalizing s with
  | nil => simp [Fit, later]
  | cons trial rest ih =>
    rw [List.cons_append, Fit, Fit, ih, and_assoc]
    rfl

section Series

variable (shop : Workshop host tree here give)
include shop

theorem series_grown (grown : Grown (tree s).node?) {trials : List Trial}
    (fit : Fit host tree give here s trials) :
    Grown (tree (later host s trials)).node? ∧ Firm (tree s) (tree (later host s trials)) := by
  induction trials generalizing s with
  | nil => exact ⟨grown, .refl _⟩
  | cons trial rest ih =>
    have called := called shop grown fit.1
    obtain ⟨grown', firm⟩ := ih called.grown fit.2
    exact ⟨grown', called.firm.trans firm⟩

/-- What stands at a place stays until a sentinel is asked to be written there. -/
theorem series_kept (grown : Grown (tree s).node?) {trials : List Trial}
    (fit : Fit host tree give here s trials) {q : Place} (there : (tree s).node? q ≠ none)
    (other : ∀ before trial after, trials = before ++ trial :: after → ∀ stage content answer,
      report trial stage content answer ∈ record host (later host s before) trial.classify.run →
        q ≠ trial.slot stage) :
    (tree (later host s trials)).node? q = (tree s).node? q := by
  induction trials generalizing s with
  | nil => rfl
  | cons trial rest ih =>
    have called := called shop grown fit.1
    have same := called.kept q there (other [] trial rest rfl)
    refine (ih called.grown fit.2 (same ▸ there) fun before trial' after split => ?_).trans same
    exact other (trial :: before) trial' after (congrArg (trial :: ·) split)

/-- The directories of the programs are still there at the end. -/
theorem series_opens (grown : Grown (tree s).node?) {trials : List Trial}
    (fit : Fit host tree give here s trials) {trial : Trial} (among : trial ∈ trials) :
    Opens (tree (later host s trials)) here trial.pre trial.directory := by
  obtain ⟨before, after, rfl⟩ := List.append_of_mem among
  obtain ⟨fitBefore, fitAfter⟩ := fit_append.mp fit
  have grown' := (series_grown shop grown fitBefore).1
  rw [later_append]
  exact fitAfter.1.opens.kept (series_grown shop grown' fitAfter).2

end Series

theorem Opens.read {D : Place} {p : Path} {name : Bytes} {executable : Bool} (opens : Opens t here pre D)
    (ends : Ends p pre name) (isFile : t.node? (D ++ [name]) = some (.file content executable))
    (shortPath : p.bytes.length ≤ longestPath) (shortName : name.length ≤ longestName) :
    t.read here p = .ok content := by
  have found := opens.find ends (by simp [isFile])
  rw [entry, if_neg (by omega), if_neg (by simp [opens.there]), if_neg (by omega), isFile] at found
  simp [FileTree.read, stat, existing, found, bind, Except.bind, Functor.map, Except.map]

theorem rewritten_open (content : Bytes) {node : Option Node} (clear : Open node) :
    ∃ executable, rewritten content node = .file content executable := by
  unfold rewritten
  split
  · exact ⟨_, rfl⟩
  · exact absurd rfl clear.2
  · exact ⟨false, rfl⟩

/-- After a series of calls the place of a sentinel holds the record of the last crash of its stage among
the programs of its directory and its stem. By the sentinel's path each of these programs is told of
that crash, whichever program's it was. -/
theorem last_crash_recorded (shop : Workshop host tree here give) (grown : Grown (tree s).node?)
    {before after : List Trial} {k : Sentinel} {verdict : Classification}
    (fit : Fit host tree give here s (before ++ trial :: after))
    (ended : (exec host (later host s before) trial.classify).1 = .ok verdict)
    (crashed : Crashed trial.config trial.irPath k (record host (later host s before) trial.classify.run))
    (last : ∀ mid other rest, after = mid ++ other :: rest → ∀ content answer,
      report other k.stage content answer ∈
          record host (later host s (before ++ trial :: mid)) other.classify.run →
        other.directory = trial.directory → other.stem ≠ trial.stem) :
    let u := tree (later host s (before ++ trial :: after))
    ∃ content executable, Tells content k ∧ u.node? (trial.slot k.stage) = some (.file content executable) ∧
      u.read here k.path = .ok content ∧
      ∀ other ∈ before ++ trial :: after, other.directory = trial.directory → other.stem = trial.stem →
        (other.irPath.withExtension k.stage.sentinelExtension).bytes.length ≤ longestPath →
          u.read here (other.irPath.withExtension k.stage.sentinelExtension) = .ok content := by
  intro u
  obtain ⟨fitBefore, ready, fitAfter⟩ := fit_append.mp fit
  have grown' := (series_grown shop grown fitBefore).1
  have called := called shop grown' ready
  have path : k.path = sentinelPath trial.irPath k.stage := crashed.path
  have leads : Leads trial.classify (record host (later host s before) trial.classify.run) verdict := by
    have course := course_run host (later host s before) trial.classify.run
    have isVerdict : (Program.run host (later host s before) trial.classify.run).1 = .ok verdict := ended
    rwa [isVerdict] at course
  have reported := reported_of_crashed leads crashed
  rw [path] at reported
  obtain ⟨view, shortPath, shortName⟩ := called.stored k.stage (utf8 k.toJson.pretty) reported
  obtain ⟨executable, isFile⟩ := rewritten_open (utf8 k.toJson.pretty) (ready.clear k.stage)
  rw [isFile] at view
  -- No later call writes there: it would have the same directory, stem and stage.
  have stays : u.node? (trial.slot k.stage) = some (.file (utf8 k.toJson.pretty) executable) := by
    have kept := series_kept shop called.grown fitAfter (q := trial.slot k.stage) (by simp [view]) ?_
    · rw [← view, ← kept]
      simp only [u, later_append]
      rfl
    · intro mid other rest split stage content answer found same
      obtain ⟨directories, stems, rfl⟩ := slot_eq_iff.mp same.symm
      have state : later host s (before ++ trial :: mid) =
          later host (exec host (later host s before) trial.classify).2 mid :=
        later_append before (trial :: mid)
      exact last mid other rest split content answer (state ▸ found) directories stems
  have reads {other : Trial} (among : other ∈ before ++ trial :: after)
      (directories : other.directory = trial.directory) (stems : other.stem = trial.stem)
      (short : (sentinelPath other.irPath k.stage).bytes.length ≤ longestPath) :
      u.read here (sentinelPath other.irPath k.stage) = .ok (utf8 k.toJson.pretty) := by
    have same : other.signed k.stage = trial.signed k.stage := signed_eq_iff.mpr ⟨stems, rfl⟩
    have opens := series_opens shop grown fit among
    have isFile : u.node? (other.directory ++ [other.signed k.stage]) =
        some (.file (utf8 k.toJson.pretty) executable) := by
      rw [directories, same]
      exact stays
    exact opens.read (other.ends k.stage) isFile short (same ▸ shortName)
  exact ⟨_, executable, tells_pretty k, stays, path ▸ reads (by simp) rfl rfl shortPath,
    fun other among directories stems short => reads among directories stems short⟩

/-! ## A text and its bitcode in one directory -/

theorem leads_of_exec {a : Action ε α} {value : α} {s' : σ} (ran : exec host s a = (.ok value, s')) :
    Leads a (record host s a.run) value := by
  have course := course_run host s a.run
  rwa [show (Program.run host s a.run).1 = .ok value from congrArg Prod.fst ran] at course

theorem crashed_of_failing {c : Config} {irPath bitcode : Path} {output : Output} {s₁ s₂ s₃ : σ}
    (made : exec host s (Workspace.create irPath.name) = (.ok w, s₁))
    (assembled : exec host s₁ (Compile.assemble c irPath w.root) = (.ok bitcode, s₂))
    (fails : exec host s₂ (Oracle.runStage c (Oracle.factCommand c w bitcode)) =
      (.ok (.crashed output), s₃)) :
    Crashed c irPath ⟨.factGeneration, c.tools.factgen, irPath, output⟩
      (record host s (Oracle.classify c irPath).run) := by
  obtain ⟨child, status, streams, fault, isRecord, same⟩ :=
    (leads_stage.mp (leads_of_exec fails)).resolve_left (by simp) |>.resolve_right (by simp)
  obtain rfl := StageResult.crashed.inj same
  rw [Oracle.classify, record_bind_ok (exec_adapt_ok made), record_adapt,
    show record host s₁ ((Oracle.classifyIn c w irPath).cleaningUp _).run = _ from record_bind ..,
    Oracle.classifyIn, record_bind_ok (exec_adapt_ok assembled), record_adapt, record_exec_bind, isRecord]
  simp only [List.append_assoc]
  exact .facts (leads_of_exec made) (leads_of_exec assembled) fault

/-- A tool that ends by itself. -/
theorem exec_exits {command : Command} (memory : Option Nat) (limit : Nat) {child : Child} {status : Status}
    {streams : Bytes × Bytes} {s₁ s₂ s₃ : σ} (goesOn : host .isCancelled s = (false, s))
    (started : host (.spawn command memory) s = (.ok child, s₁))
    (ended : host (.await child (Observation.ending? (some (1000 * limit)))) s₁ = (.ok (.exited status), s₂))
    (collected : host (.collect child) s₂ = (streams, s₃)) :
    exec host s (command.run memory (some limit)) = (.ok (Command.outcomeOf status streams), s₃) := by
  have started : exec host s (Action.orFail (Program.spawn command memory)
      (RunError.spawn command.program.display)) = (.ok child, s₁) := by
    rw [exec_orFail, show (Program.spawn command memory).run host s = (.ok child, s₁) from started,
      mapError_ok]
  unfold Command.run
  refine (exec_bind_ok (exec_request goesOn)).trans ((exec_bind_ok started).trans ?_)
  exact (exec_bind_ok (exec_request ended)).trans (exec_bind_ok (exec_request collected))

/-- Where the output of an assembler leads. -/
def outputOf (t : FileTree) (command : Command) : Option Place :=
  match Bench.Call.ofArguments? command.arguments with
  | some (.convert _ output) => (t.find [] output true).toOption.map Target.place
  | _ => none

/-- What an assembler leaves. -/
def assembled (t : FileTree) (output : Place) : Except Failure Ending × FileTree :=
  match Trees.write t output [0x42, 0x43, 0xC0, 0xDE] with
  | .ok u => (.ok (.exited (.exited 0)), u)
  | .error cause => (.error cause, t)

theorem assembled_scribbled (t : FileTree) (output : Place) :
    Scribbled (fun q => some output = some q) t (assembled t output).2 := by
  unfold assembled
  cases written : Trees.write t output [0x42, 0x43, 0xC0, 0xDE] with
  | ok u =>
    refine ⟨fun q other => ?_, fun grown => write_grown grown written⟩
    exact (write_change written).elsewhere q fun same => other (congrArg some same.symm)
  | error cause => exact ⟨fun _ _ => rfl, id⟩

theorem given_outputOf {command : Command} {q : Place} (isOutput : outputOf t command = some q) :
    Given t command q := by
  unfold outputOf at isOutput
  split at isOutput
  · rename_i input output call
    rw [Given, call]
    cases found : t.find [] output true with
    | error cause =>
      rw [found] at isOutput
      cases isOutput
    | ok target =>
      rw [found] at isOutput
      exact ⟨[], target, found, (Option.some.inj isOutput).symm⟩
  · cases isOutput

/-- A host whose tools fail without a word, but for the assembler, which writes bitcode. Beside the
tree stands where an assembler at work writes to. -/
def assembling : Host (FileTree × Option Place)
  | .spawn command _, (t, _) => (.ok ⟨0⟩, t, outputOf t command)
  | .await .., (t, some output) => ((assembled t output).1, (assembled t output).2, none)
  | r, (t, output) => ((failing true r t).1, (failing true r t).2, output)

theorem assembling_workshop : Workshop assembling Prod.fst [] fun s q => s.2 = some q where
  step r s := by
    obtain ⟨t, output⟩ := s
    have rests : Scribbled (fun q => output = some q) t t := ⟨fun _ _ => rfl, id⟩
    cases r with
    | spawn command memory => exact ⟨t, rests, rfl⟩
    | await child stop =>
      cases output with
      | none => exact ⟨t, rests, rfl⟩
      | some output => exact ⟨_, assembled_scribbled t output, rfl⟩
    | file | temporaryDirectory | temporaryFile | search | isCancelled | choose | log | terminate | collect =>
      exact ⟨t, rests, failing_leaves true _ t⟩
  grants r s q isGiven := by
    obtain ⟨t, output⟩ := s
    cases r with
    | spawn command memory => exact .inr (given_outputOf isGiven)
    | await child stop =>
      cases output with
      | none => exact .inl isGiven
      | some output => cases isGiven
    | file | temporaryDirectory | temporaryFile | search | isCancelled | choose | log | terminate | collect =>
      exact .inl isGiven

/-- A text, bitcode of the same stem, and what else is there. -/
def pair (rest : List (Place × Node)) : FileTree := ⟨[([utf8 "d"], .directory), ([utf8 "tmp"], .directory),
  ([utf8 "d", utf8 "m.ll"], .file [] false),
  ([utf8 "d", utf8 "m.bc"], .file [0x42, 0x43, 0xC0, 0xDE] false)] ++ rest⟩

def workspaceNodes : List (Place × Node) := [([utf8 "tmp", utf8 "m.scratch"], .directory),
  ([utf8 "tmp", utf8 "m.scratch", utf8 "facts"], .directory),
  ([utf8 "tmp", utf8 "m.scratch", utf8 "results"], .directory)]

def assembledNode : Place × Node :=
  ([utf8 "tmp", utf8 "m.scratch", utf8 "m.bc"], .file [0x42, 0x43, 0xC0, 0xDE] false)

def sentinelNode (content : Bytes) : Place × Node :=
  ([utf8 "d", utf8 "m.factgen-crash"], .file content false)

/-- A call of the oracle on one of the two. -/
def pairTrial (extension : String) (irPath : Path)
    (pieces : irPath.pieces = [[], utf8 "d"] ++ [utf8 "m" ++ Path.dot :: utf8 extension])
    (plain : Path.dot ∉ utf8 extension) : Trial where
  config := VariantKeys.plain
  irPath := irPath
  directory := [utf8 "d"]
  pre := [[], utf8 "d"]
  stem := utf8 "m"
  extension := utf8 extension
  pieces := pieces
  isStem := ⟨by decide, by decide, by decide⟩
  plain := plain

def textTrial : Trial := pairTrial "ll" "/d/m.ll" (by decide +kernel) (by decide)

def bitcodeTrial : Trial := pairTrial "bc" "/d/m.bc" (by decide +kernel) (by decide)

/-- The crash of a fact generator that fails without a word. -/
def wordless (irPath : Path) : Sentinel :=
  ⟨.factGeneration, VariantKeys.plain.tools.factgen, irPath, ⟨[], [], some 1, none⟩⟩

theorem fails_wordless (t : FileTree) (w : Workspace) (bitcode : Path) : exec assembling (t, none)
    (Oracle.runStage VariantKeys.plain (Oracle.factCommand VariantKeys.plain w bitcode)) =
      (.ok (.crashed ⟨[], [], some 1, none⟩), t, none) := rfl

theorem make_for_text : exec assembling (pair [], none) (Workspace.create (Path.name "/d/m.ll")) =
    (.ok ⟨"/tmp/m.scratch"⟩, pair workspaceNodes, none) := by
  cbv

theorem assemble_text : exec assembling (pair workspaceNodes, none)
    (Compile.assemble VariantKeys.plain "/d/m.ll" "/tmp/m.scratch") =
      (.ok "/tmp/m.scratch/m.bc", pair (workspaceNodes ++ [assembledNode]), none) := by
  have created : exec assembling (pair workspaceNodes, none)
      (Action.orFail (Program.createDirectories "/tmp/m.scratch") (CompileError.files "/tmp/m.scratch")) =
        (.ok (), pair workspaceNodes, none) := by
    cbv
  have output (tool : Path) : outputOf (pair workspaceNodes)
      (Command.ofProgram tool |>.path "/d/m.ll" |>.text "-o" |>.path "/tmp/m.scratch/m.bc") =
        some [utf8 "tmp", utf8 "m.scratch", utf8 "m.bc"] := by
    cbv
  have written : assembled (pair workspaceNodes) [utf8 "tmp", utf8 "m.scratch", utf8 "m.bc"] =
      (.ok (.exited (.exited 0)), pair (workspaceNodes ++ [assembledNode])) := by
    cbv
  have converted : exec assembling (pair workspaceNodes, none)
      (Compile.convert VariantKeys.plain VariantKeys.plain.tools.llvmAs "/d/m.ll" "/tmp/m.scratch/m.bc") =
        (.ok (), pair (workspaceNodes ++ [assembledNode]), none) := by
    have goesOn : assembling .isCancelled (pair workspaceNodes, none) =
        (false, pair workspaceNodes, none) := rfl
    have ran := exec_exits VariantKeys.plain.memoryLimit VariantKeys.plain.compileTimeout goesOn
      (congrArg (Prod.mk _ <| Prod.mk _ ·) (output VariantKeys.plain.tools.llvmAs))
      (congrArg (fun done => (done.1, done.2, none)) written) rfl
    exact exec_bind_ok (exec_adapt_ok ran)
  have looked : exec assembling (pair (workspaceNodes ++ [assembledNode]), none)
      (monadLift (Compile.looksLikeBitcode "/tmp/m.scratch/m.bc") : Compiling Bool) =
        (.ok true, pair (workspaceNodes ++ [assembledNode]), none) := by
    cbv
  have stem : Plan.stemOf "/d/m.ll" = "m" := by cbv
  rw [Compile.assemble, show Kind.ofPath? "/d/m.ll" = some .textIr by decide +kernel]
  dsimp only
  rw [stem]
  refine (exec_bind_ok created).trans ((exec_bind_ok converted).trans ?_)
  exact exec_bind_ok looked

theorem text_classified : exec assembling (pair [], none) textTrial.classify =
    (.ok .uninteresting, pair [sentinelNode (utf8 (wordless "/d/m.ll").toJson.pretty)], none) := by
  have written (content : Bytes) : (Program.write (wordless "/d/m.ll").path content).run assembling
      (pair (workspaceNodes ++ [assembledNode]), none) =
        (.ok (), pair (workspaceNodes ++ [assembledNode, sentinelNode content]), none) := by
    rw [show (wordless "/d/m.ll").path = "/d/m.factgen-crash" by decide +kernel]
    cbv
  have discarded (content : Bytes) : (Workspace.discard false ⟨"/tmp/m.scratch"⟩).run assembling
      (pair (workspaceNodes ++ [assembledNode, sentinelNode content]), none) =
        ((), pair [sentinelNode content], none) := by
    cbv
  exact exec_of_failing make_for_text assemble_text (fails_wordless ..)
    (exec_told (k := wordless "/d/m.ll") (fun _ => rfl) written) (discarded _)

theorem make_beside_sentinel (content : Bytes) :
    exec assembling (pair [sentinelNode content], none) (Workspace.create (Path.name "/d/m.bc")) =
      (.ok ⟨"/tmp/m.scratch"⟩, pair (sentinelNode content :: workspaceNodes), none) := by
  cbv

theorem assemble_beside_sentinel (content : Bytes) :
    exec assembling (pair (sentinelNode content :: workspaceNodes), none)
        (Compile.assemble VariantKeys.plain "/d/m.bc" "/tmp/m.scratch") =
      (.ok "/d/m.bc", pair (sentinelNode content :: workspaceNodes), none) := by
  cbv

theorem bitcode_classified (content : Bytes) :
    exec assembling (pair [sentinelNode content], none) bitcodeTrial.classify =
      (.ok .uninteresting, pair [sentinelNode (utf8 (wordless "/d/m.bc").toJson.pretty)], none) := by
  have written (new : Bytes) : (Program.write (wordless "/d/m.bc").path new).run assembling
      (pair (sentinelNode content :: workspaceNodes), none) =
        (.ok (), pair (sentinelNode new :: workspaceNodes), none) := by
    rw [show (wordless "/d/m.bc").path = "/d/m.factgen-crash" by decide +kernel]
    cbv
  have discarded (new : Bytes) : (Workspace.discard false ⟨"/tmp/m.scratch"⟩).run assembling
      (pair (sentinelNode new :: workspaceNodes), none) = ((), pair [sentinelNode new], none) := by
    cbv
  exact exec_of_failing (make_beside_sentinel content) (assemble_beside_sentinel content)
    (fails_wordless ..) (exec_told (k := wordless "/d/m.bc") (fun _ => rfl) written) (discarded _)

theorem pair_ready {extension : String} {irPath : Path} {pieces} {plain} {rest : List (Place × Node)}
    (tidy : rest = [] ∨ ∃ content, rest = [sentinelNode content]) :
    Ready Prod.fst (fun s q => s.2 = some q) [] (pair rest, none)
      (pairTrial extension irPath pieces plain) where
  idle q given := by cases given
  opens := by
    have found : (pair rest).walk true mostLinks [] [[], utf8 "d"] = .ok ⟨[utf8 "d"], some .directory⟩ := by
      cbv
    exact ⟨rfl, .directory, found⟩
  clear stage := by
    have slot : (pairTrial extension irPath pieces plain).slot stage =
        [utf8 "d", utf8 "m" ++ Path.dot :: utf8 stage.sentinelExtension] := rfl
    rw [slot]
    rcases tidy with rfl | ⟨content, rfl⟩
    · rw [show (pair []).node? _ = none by cases stage <;> decide +kernel]
      exact open_none
    · cases stage with
      | factGeneration => exact open_file content false
      | analysis => exact open_none

theorem pair_grown : Grown (pair []).node? := by
  refine grown_of_nodes fun entry found => ?_
  simp only [pair, List.append_nil, List.mem_cons, List.not_mem_nil, or_false] at found
  rcases found with rfl | rfl | rfl | rfl <;> rfl

/-- A text and bitcode of one stem, and a fact generator that fails on both of them. When the bitcode's
crash has been recorded, the record of the text's is gone. -/
theorem text_record_lost :
    Workshop assembling Prod.fst [] (fun s q => s.2 = some q) ∧ Grown (pair []).node? ∧
    Fit assembling Prod.fst (fun s q => s.2 = some q) [] (pair [], none) [textTrial, bitcodeTrial] ∧
    Crashed textTrial.config "/d/m.ll" (wordless "/d/m.ll")
      (record assembling (pair [], none) textTrial.classify.run) ∧
    Crashed bitcodeTrial.config "/d/m.bc" (wordless "/d/m.bc")
      (record assembling (later assembling (pair [], none) [textTrial]) bitcodeTrial.classify.run) ∧
    (wordless "/d/m.ll").path = "/d/m.factgen-crash" ∧
    ∃ content, Tells content (wordless "/d/m.bc") ∧ ¬ Tells content (wordless "/d/m.ll") ∧
      (later assembling (pair [], none) [textTrial, bitcodeTrial]).1.read [] "/d/m.factgen-crash" =
        .ok content := by
  have first : later assembling (pair [], none) [textTrial] =
      (pair [sentinelNode (utf8 (wordless "/d/m.ll").toJson.pretty)], none) :=
    congrArg Prod.snd text_classified
  have crashed : Crashed bitcodeTrial.config "/d/m.bc" (wordless "/d/m.bc")
      (record assembling (later assembling (pair [], none) [textTrial]) bitcodeTrial.classify.run) := by
    rw [first]
    exact crashed_of_failing (make_beside_sentinel _) (assemble_beside_sentinel _) (fails_wordless ..)
  have fit :
      Fit assembling Prod.fst (fun s q => s.2 = some q) [] (pair [], none) [textTrial, bitcodeTrial] := by
    refine ⟨pair_ready (.inl rfl), ?_, trivial⟩
    rw [text_classified]
    exact pair_ready (.inr ⟨_, rfl⟩)
  have ended : (exec assembling (later assembling (pair [], none) [textTrial]) bitcodeTrial.classify).1 =
      .ok .uninteresting := by
    rw [first, bitcode_classified]
  obtain ⟨content, -, tells, -, read, -⟩ :=
    last_crash_recorded assembling_workshop pair_grown (show Fit _ _ _ _ _ ([textTrial] ++ bitcodeTrial :: [])
      from fit) ended crashed fun mid other rest split => by simp at split
  have place (irPath : Path) (isPath : irPath = "/d/m.ll" ∨ irPath = "/d/m.bc") :
      (wordless irPath).path = "/d/m.factgen-crash" := by
    rcases isPath with rfl | rfl <;> decide +kernel
  refine ⟨assembling_workshop, pair_grown, fit, ?_, crashed, place _ (.inl rfl), content, tells,
    fun also => ?_, place _ (.inr rfl) ▸ read⟩
  · exact crashed_of_failing make_for_text assemble_text (fails_wordless ..)
  · have same := tells.unique also
    simp only [recorded, Value.object.injEq, List.cons.injEq, Prod.mk.injEq, Value.string.injEq] at same
    exact absurd same.2.2.1.2 (by decide +kernel)

end BugHunt.Proofs.SharedSentinels
