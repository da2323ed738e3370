import BugHunt.Machine.Host
import BugHunt.Proofs.Exclusion
import BugHunt.Proofs.Ways
/-!
What a call that stores a verdict leaves when one of its two steps fails. The first step leaves the
marker, the second one takes the opposite marker away, and nothing undoes the first.
-/

namespace BugHunt.Proofs.FailedStores
open FileTree Names Places Runs Texts Trees Walking Ways

/-! ## Hosts with a file tree -/

/-- An operation on what a name leads to; a name with a zero byte leads to nothing. -/
def named (p : Path) (operation : Except Errno FileTree) : Except Errno FileTree :=
  if Machine.hasNul p then .error .invalid else operation

/-- Whether an answer is that of an operation which has been carried out, or of one that has
changed nothing. A host may refuse an operation for a reason of its own, but it does not say
that something is missing which is there. -/
inductive Performs (before after : FileTree) (operation : Except Errno FileTree) :
    Except Failure Unit → Prop
  | done (is : operation = .ok after) : Performs before after operation (.ok ())
  | failed {cause : Failure} (kept : after = before)
    (missing : cause.isMissing → operation = .error .noEntry) :
    Performs before after operation (.error cause)

/-- Whether a path leads to something. -/
def there (t : FileTree) (here : Place) (p : Path) : Bool := !Machine.hasNul p && t.exists here p

/-- A host that keeps its files in a tree, as long as nothing else is at work on them. -/
structure Disk (host : Host σ) (tree : σ → FileTree) (here : Place) (calm : σ → Prop) : Prop where
  look : ∀ s p, calm s → ∃ s', (Program.exists p).run host s = (there (tree s) here p, s') ∧
    tree s' = tree s ∧ calm s'
  touch : ∀ s p, calm s → ∃ answer s', (Program.touch p).run host s = (answer, s') ∧
    Performs (tree s) (tree s') (named p ((tree s).touch here p)) answer ∧ calm s'
  remove : ∀ s p, calm s → ∃ answer s', (Program.remove p).run host s = (answer, s') ∧
    Performs (tree s) (tree s') (named p ((tree s).remove here p)) answer ∧ calm s'

section Machine
open Machine

theorem spend_idle {m : Machine} (idle : m.processes = []) (time : Nat) :
    m.spend time = m.reach (some (m.clock + time)) := by
  have next : m.nextProcess? = none := by rw [nextProcess?, idle]; rfl
  rw [spend, runUntil, show manySteps = 99999999 + 1 from rfl, runWhile, next]
  rfl

theorem changeTree_performs (m : Machine) (p : Path) (result : Except Errno FileTree) :
    ∃ answer m', naming [p] m (m.changeTree result) = (answer, m') ∧
      Performs m.tree m'.tree (named p result) answer ∧ m'.processes = m.processes ∧
      m'.here = m.here := by
  unfold naming named
  rw [List.any_cons, List.any_nil, Bool.or_false]
  split
  · exact ⟨_, _, rfl, .failed rfl fun missing => absurd missing (by decide), rfl, rfl⟩
  · cases result with
    | ok after => exact ⟨_, _, rfl, .done rfl, rfl, rfl⟩
    | error errno =>
      refine ⟨_, _, rfl, .failed rfl ?_, rfl, rfl⟩
      intro missing
      simpa [Failure.isMissing] using missing

theorem host_file (r : FileRequest) {m : Machine} (idle : m.processes = []) :
    Machine.host (.file r) m = (m.reach (some (m.clock + 10))).answerFile r := by
  rw [← spend_idle idle]
  rfl

/-- The model machine is such a host while no process runs on it. -/
theorem machine_disk (here : Place) : Disk Machine.host Machine.tree here
    fun m => m.processes = [] ∧ m.here = here := by
  constructor
  case look =>
    rintro m p ⟨idle, rfl⟩
    exact ⟨_, host_file (.exists p) idle, rfl, idle, rfl⟩
  case touch =>
    rintro m p ⟨idle, rfl⟩
    obtain ⟨answer, m', ran, performs, processes, place⟩ :=
      changeTree_performs (m.reach (some (m.clock + 10))) p (m.tree.touch m.here p)
    exact ⟨answer, m', (host_file (.touch p) idle).trans ran, performs, processes.trans idle, place⟩
  case remove =>
    rintro m p ⟨idle, rfl⟩
    obtain ⟨answer, m', ran, performs, processes, place⟩ :=
      changeTree_performs (m.reach (some (m.clock + 10))) p (m.tree.remove m.here p)
    exact ⟨answer, m', (host_file (.remove p) idle).trans ran, performs, processes.trans idle, place⟩

theorem run_touch_ok {m : Machine} (idle : m.processes = []) {p : Path} (clean : hasNul p = false)
    {u : FileTree} (touched : m.tree.touch m.here p = .ok u) : (Program.touch p).run Machine.host m =
      (.ok (), { m.reach (some (m.clock + 10)) with tree := u }) := by
  have ran : (Program.touch p).run Machine.host m = naming [p] (m.reach (some (m.clock + 10)))
      ((m.reach (some (m.clock + 10))).changeTree (m.tree.touch m.here p)) :=
    host_file (.touch p) idle
  rw [ran, touched, naming, List.any_cons, clean]
  rfl

theorem run_remove_error {m : Machine} (idle : m.processes = []) {p : Path} (clean : hasNul p = false)
    {errno : Errno} (failed : m.tree.remove m.here p = .error errno) :
    (Program.remove p).run Machine.host m =
      (.error (.system errno), m.reach (some (m.clock + 10))) := by
  have ran : (Program.remove p).run Machine.host m = naming [p] (m.reach (some (m.clock + 10)))
      ((m.reach (some (m.clock + 10))).changeTree (m.tree.remove m.here p)) :=
    host_file (.remove p) idle
  rw [ran, failed, naming, List.any_cons, clean]
  rfl

end Machine

/-! ## One call -/

variable {host : Host σ} {tree : σ → FileTree} {here : Place} {calm : σ → Prop} {s : σ}
  {c : Cache} {key : String} {verdict : Classification} {t u w : FileTree} {p q : Path}

/-- What a call that leaves the marker `p` and takes `q` away comes to on a tree. -/
inductive Stores (t : FileTree) (here : Place) (p q : Path) : Except CacheError Unit → FileTree → Prop
  | refused (cause : Failure) : Stores t here p q (.error (.files p cause)) t
  | torn {u : FileTree} (touched : named p (t.touch here p) = .ok u) (cause : Failure) :
    Stores t here p q (.error (.files q cause)) u
  | missing {u : FileTree} (touched : named p (t.touch here p) = .ok u)
    (gone : named q (u.remove here q) = .error .noEntry) : Stores t here p q (.ok ()) u
  | removed {u w : FileTree} (touched : named p (t.touch here p) = .ok u)
    (removed : named q (u.remove here q) = .ok w) : Stores t here p q (.ok ()) w

theorem removeIfPresent_ok {s' : σ} (ran : (Program.remove q).run host s = (.ok (), s')) :
    exec host s (Cache.removeIfPresent q) = (.ok (), s') := by
  rw [exec, Cache.removeIfPresent, ExceptT.run_mk, run_bind, ran]
  rfl

theorem removeIfPresent_error {s' : σ} {cause : Failure}
    (ran : (Program.remove q).run host s = (.error cause, s')) :
    exec host s (Cache.removeIfPresent q) =
      (if cause.isMissing then .ok () else .error (.files q cause), s') := by
  rw [exec, Cache.removeIfPresent, ExceptT.run_mk, run_bind, ran]
  rfl

theorem store_eq {other : Classification} (opposite : Cache.opposite? verdict = some other)
    (isMarker : c.markerPath? key verdict = some p) (isOther : c.markerPath? key other = some q) :
    c.store key verdict = (do
      Action.orFail (Program.touch p) (.files p)
      Cache.removeIfPresent q) := by
  rw [Cache.store, isMarker, opposite, Option.bind_some, isOther]

theorem store_stores (disk : Disk host tree here calm) (isCalm : calm s) {other : Classification}
    (opposite : Cache.opposite? verdict = some other)
    (isMarker : c.markerPath? key verdict = some p) (isOther : c.markerPath? key other = some q) :
    ∃ result s', exec host s (c.store key verdict) = (result, s') ∧
      Stores (tree s) here p q result (tree s') ∧ calm s' := by
  obtain ⟨answer, s₁, ran, performs, after⟩ := disk.touch s p isCalm
  rw [store_eq opposite isMarker isOther]
  cases performs with
  | @failed cause kept _ =>
    refine ⟨_, s₁, exec_bind_error (by rw [exec_orFail, ran]; rfl), ?_, after⟩
    rw [kept]
    exact .refused cause
  | done touched =>
    have first : exec host s (Action.orFail (Program.touch p) (CacheError.files p)) = (.ok (), s₁) := by
      rw [exec_orFail, ran]
      rfl
    rw [exec_bind_ok first]
    obtain ⟨answer, s₂, removal, performs, after⟩ := disk.remove s₁ q after
    cases performs with
    | done removed => exact ⟨_, s₂, removeIfPresent_ok removal, .removed touched removed, after⟩
    | failed kept missing =>
      refine ⟨_, s₂, removeIfPresent_error removal, ?_, after⟩
      rw [kept]
      split
      · rename_i isMissing
        exact .missing touched (missing isMissing)
      · exact .torn touched _

/-! ## Two entries of one directory -/

section Siblings

variable {pre : List Bytes} {first second : Bytes}

theorem touch_ok (touched : t.touch here p = .ok u) : ∃ q node,
    t.find here p true = .ok ⟨q, node⟩ ∧ node.any Node.isDirectory = false ∧
      u = if node.isSome then t else t.set q (.file [] false) := by
  unfold FileTree.touch FileTree.writable at touched
  cases found : t.find here p true with
  | error e => simp [found, bind, Except.bind] at touched
  | ok target =>
    obtain ⟨q, node⟩ := target
    simp only [found, bind, Except.bind] at touched
    split at touched
    · cases touched
    · rename_i writable
      split at writable
      · cases writable
      · split at writable
        · cases writable
        · rename_i noDirectory
          obtain rfl := Except.ok.inj writable
          exact ⟨q, node, rfl, by simpa using noDirectory, (Except.ok.inj touched).symm⟩

theorem remove_ok (removed : u.remove here q = .ok w) : ∃ place node,
    u.find here q false = .ok ⟨place, some node⟩ ∧ node.isDirectory = false ∧
      w = u.erase place := by
  unfold FileTree.remove existing at removed
  cases found : u.find here q false with
  | error e => simp [found, bind, Except.bind] at removed
  | ok target =>
    obtain ⟨place, node⟩ := target
    cases node with
    | none => simp [found, bind, Except.bind] at removed
    | some node =>
      simp only [found, bind, Except.bind] at removed
      split at removed
      · cases removed
      · rename_i noDirectory
        exact ⟨place, node, rfl, by simpa using noDirectory, (Except.ok.inj removed).symm⟩

theorem remove_missing (gone : u.remove here q = .error .noEntry) (place : Place) (node : Node) :
    u.find here q false ≠ .ok ⟨place, some node⟩ := by
  intro found
  unfold FileTree.remove existing at gone
  simp only [found, bind, Except.bind] at gone
  split at gone <;> cases gone

/-- A touched path leads to a file in a tree that is otherwise the same. -/
theorem sameWays_of_touch (ends : Ends p pre first) (unlinked : Unlinked t here p)
    (touched : t.touch here p = .ok u) : SameWays t u ∧
      ∃ place, t.find here p true = .ok ⟨place, t.node? place⟩ ∧ (u.node? place).isSome ∧
        ∀ other ≠ place, u.node? other = t.node? other := by
  obtain ⟨place, node, found, noDirectory, is⟩ := touch_ok touched
  obtain ⟨d, leads⟩ := entries_of_found (.refl t) ends found
  have reached := ((leads p first true ends).1 (.inr unlinked)).symm.trans found
  obtain ⟨rfl, rfl⟩ := Target.mk.inj (entry_eq_ok reached).1
  cases isNode : t.node? (d ++ [first]) with
  | some node =>
    rw [isNode, Option.isSome_some, if_pos rfl] at is
    subst is
    exact ⟨.refl u, _, found, by rw [isNode]; rfl, fun _ _ => rfl⟩
  | none =>
    rw [isNode, Option.isSome_none, if_neg (by simp)] at is
    have view : u.node? = View.put t.node? (d ++ [first]) (some (.file [] false)) := by
      rw [is, node?_set (by simp)]
    refine ⟨?_, d ++ [first], found, by simp [view], ?_⟩
    · intro other
      by_cases same : other = d ++ [first]
      · subst same
        rw [view, View.put_self, isNode]
        exact .inr ⟨inert_none, inert_file _ _⟩
      · rw [view, View.put_other same]
        exact .inl rfl
    · intro other elsewhere
      rw [view, View.put_other elsewhere]

/-- What the second path finds is not changed by touching the first one. -/
theorem find_of_touch (ends : Ends p pre first) (endsToo : Ends q pre second)
    (differ : first ≠ second) (unlinked : Unlinked t here p) (touched : t.touch here p = .ok u)
    (unlinkedToo : Unlinked t here q) (followLast : Bool) :
    u.find here q followLast = t.find here q followLast := by
  obtain ⟨same, place, found, -, kept⟩ := sameWays_of_touch ends unlinked touched
  obtain ⟨d, leads⟩ := entries_of_found same ends found
  have reached := ((leads p first true ends).1 (.inr unlinked)).symm.trans found
  obtain rfl := (Target.mk.inj (entry_eq_ok reached).1).1
  obtain ⟨before, after⟩ := leads q second followLast endsToo
  rw [before (.inr unlinkedToo), after (.inr (unlinked_congr same endsToo unlinkedToo))]
  apply entry_congr same
  apply kept
  simpa using differ.symm

/-- After the first path has been touched it leads to something. The second path does if it did
before. -/
theorem exists_of_touch (ends : Ends p pre first) (endsToo : Ends q pre second)
    (differ : first ≠ second) (unlinked : Unlinked t here p) (unlinkedToo : Unlinked t here q)
    (touched : t.touch here p = .ok u) :
    u.exists here p ∧ u.exists here q = t.exists here q := by
  refine ⟨?_, exists_of_find (find_of_touch ends endsToo differ unlinked touched unlinkedToo true)⟩
  obtain ⟨same, place, found, isThere, -⟩ := sameWays_of_touch ends unlinked touched
  obtain ⟨d, leads⟩ := entries_of_found same ends found
  obtain ⟨before, after⟩ := leads p first true ends
  obtain ⟨is, elsewhere⟩ := entry_eq_ok ((before (.inr unlinked)).symm.trans found)
  obtain rfl := (Target.mk.inj is).1
  obtain ⟨node, isNode⟩ := Option.isSome_iff_exists.mp isThere
  rw [exists_iff, after (.inr (unlinked_congr same ends unlinked)), elsewhere same, isNode]
  exact ⟨_, node, rfl⟩

/-- A removed path leads to nothing in a tree that is otherwise the same. -/
theorem sameWays_of_remove (ends : Ends q pre second) (unlinked : Unlinked u here q)
    (removed : u.remove here q = .ok w) : SameWays u w ∧
      ∃ place, u.find here q false = .ok ⟨place, u.node? place⟩ ∧ w.node? place = none ∧
        ∀ other ≠ place, w.node? other = u.node? other := by
  obtain ⟨place, node, found, noDirectory, is⟩ := remove_ok removed
  have inert : Inert (some node) := by
    refine ⟨by simpa using noDirectory, ?_⟩
    intro target isLink
    exact unlinked place target (isLink ▸ found)
  obtain ⟨d, leads⟩ := entries_of_found (.refl u) ends found
  have reached := ((leads q second false ends).1 (.inl rfl)).symm.trans found
  obtain ⟨rfl, isNode⟩ := Target.mk.inj (entry_eq_ok reached).1
  have view : w.node? = View.put u.node? (d ++ [second]) none := by
    rw [is, node?_erase (by simp)]
  refine ⟨?_, d ++ [second], isNode ▸ found, by simp [view], ?_⟩
  · intro other
    by_cases same : other = d ++ [second]
    · subst same
      rw [view, View.put_self, ← isNode]
      exact .inr ⟨inert, inert_none⟩
    · rw [view, View.put_other same]
      exact .inl rfl
  · intro other elsewhere
    rw [view, View.put_other elsewhere]

/-- After the second path has been removed it leads to nothing. The first one leads to something if
it did before. -/
theorem exists_of_remove (ends : Ends p pre first) (endsToo : Ends q pre second)
    (differ : first ≠ second) (unlinked : Unlinked u here p) (unlinkedToo : Unlinked u here q)
    (removed : u.remove here q = .ok w) :
    w.exists here p = u.exists here p ∧ w.exists here q = false := by
  obtain ⟨same, place, found, isGone, kept⟩ := sameWays_of_remove endsToo unlinkedToo removed
  obtain ⟨d, leads⟩ := entries_of_found same endsToo found
  obtain ⟨is, elsewhere⟩ :=
    entry_eq_ok (((leads q second false endsToo).1 (.inl rfl)).symm.trans found)
  obtain rfl := (Target.mk.inj is).1
  constructor
  · obtain ⟨inFirst, inSecond⟩ := leads p first true ends
    apply exists_of_find
    rw [inFirst (.inr unlinked), inSecond (.inr (unlinked_congr same ends unlinked))]
    apply entry_congr same
    apply kept
    simpa using differ
  · rw [Bool.eq_false_iff, Ne, exists_iff,
      (leads q second true endsToo).2 (.inr (unlinked_congr same endsToo unlinkedToo)),
      elsewhere same, isGone]
    simp

theorem exists_of_missing (endsToo : Ends q pre second) (unlinkedToo : Unlinked u here q)
    (gone : u.remove here q = .error .noEntry) : u.exists here q = false := by
  rw [Bool.eq_false_iff, Ne, exists_iff]
  rintro ⟨place, node, found⟩
  obtain ⟨d, leads⟩ := entries_of_found (.refl u) endsToo found
  have followed := (leads q second true endsToo).1 (.inr unlinkedToo)
  have unfollowed := (leads q second false endsToo).1 (.inl rfl)
  exact remove_missing gone place node (unfollowed.trans (followed.symm.trans found))

end Siblings

/-! ## Markers -/

/-- The markers of a key end in the same name, up to their endings, in the same directory. -/
theorem marker_ends (c : Cache) (key : String) : ∃ pre name, ∀ verdict ending,
    Cache.markerEnding? verdict = some ending → ∃ p, c.markerPath? key verdict = some p ∧
      Ends p pre (name ++ utf8 ending) := by
  obtain ⟨bytes, paths⟩ := Exclusion.markerPath_bytes c key
  obtain ⟨pre, name, split⟩ := Exclusion.pieces_of_ending bytes
  refine ⟨pre, name, fun verdict ending ends => ⟨_, paths verdict ending ends, ?_⟩⟩
  have long : Path.slash ∉ utf8 ending ∧ 2 < (utf8 ending).length := by
    cases verdict <;> simp only [Cache.markerEnding?, Option.some.injEq, reduceCtorEq] at ends <;>
      subst ends <;> decide
  obtain ⟨pieces, proper⟩ := split (utf8 ending) long.1 long.2
  exact ⟨pieces, proper⟩

def marked (t : FileTree) (here : Place) (c : Cache) (key : String) (verdict : Classification) :
    Bool :=
  (c.markerPath? key verdict).any (there t here)

/-- What a tree remembers of a key: the markers that are there, the uninteresting one first. -/
def remembered (t : FileTree) (here : Place) (c : Cache) (key : String) : Option Classification :=
  if marked t here c key .uninteresting then some .uninteresting
  else if marked t here c key .uncompilable then some .uncompilable
  else none

/-- The verdict that a host remembers for a key. -/
def lookedUp (host : Host σ) (s : σ) (c : Cache) (key : String) : Option Classification :=
  ((c.lookup key).run host s).1

theorem hasMarker_run (disk : Disk host tree here calm) (isCalm : calm s) (c : Cache) (key : String)
    (verdict : Classification) : ∃ s', (c.hasMarker key verdict).run host s =
      (marked (tree s) here c key verdict, s') ∧ tree s' = tree s ∧ calm s' := by
  unfold Cache.hasMarker marked
  cases c.markerPath? key verdict with
  | none => exact ⟨s, rfl, rfl, isCalm⟩
  | some p => exact disk.look s p isCalm

theorem lookedUp_eq (disk : Disk host tree here calm) (isCalm : calm s) (c : Cache) (key : String) :
    lookedUp host s c key = remembered (tree s) here c key := by
  obtain ⟨s₁, first, same, after⟩ := hasMarker_run disk isCalm c key .uninteresting
  obtain ⟨s₂, second, -⟩ := hasMarker_run disk after c key .uncompilable
  unfold lookedUp Cache.lookup remembered
  rw [run_bind, first]
  by_cases isFirst : marked (tree s) here c key .uninteresting
  · simp only [isFirst, if_true, run_pure]
  · simp only [isFirst, Bool.false_eq_true, if_false]
    rw [run_bind, second, same]
    by_cases isSecond : marked (tree s) here c key .uncompilable
    · simp only [isSecond, if_true, run_pure]
    · simp only [isSecond, Bool.false_eq_true, if_false, run_pure]

theorem marked_eq (isMarker : c.markerPath? key verdict = some p) :
    marked t here c key verdict = there t here p := by
  rw [marked, isMarker, Option.any_some]

theorem remembered_congr (same : ∀ verdict p, c.markerPath? key verdict = some p →
    there u here p = there t here p) : remembered u here c key = remembered t here c key := by
  have marks (verdict : Classification) : marked u here c key verdict = marked t here c key verdict := by
    cases isMarker : c.markerPath? key verdict with
    | none => rw [marked, marked, isMarker, Option.any_none, Option.any_none]
    | some p => rw [marked_eq isMarker, marked_eq isMarker, same verdict p isMarker]
  rw [remembered, remembered, marks, marks]

section Opposites

variable {other : Classification} (opposite : Cache.opposite? verdict = some other)
include opposite

theorem remembered_single (isThere : marked t here c key verdict)
    (isGone : marked t here c key other = false) : remembered t here c key = some verdict := by
  cases verdict with
  | interesting => cases opposite
  | uninteresting => rw [remembered, if_pos isThere]
  | uncompilable =>
    obtain rfl := Option.some.inj opposite
    rw [remembered, isGone, if_neg (by simp), if_pos isThere]

/-- Of two markers the uninteresting one is believed. -/
theorem remembered_torn (isThere : marked u here c key verdict)
    (kept : marked u here c key other = marked t here c key other) :
    remembered u here c key = if remembered t here c key = some .uninteresting
      then some .uninteresting else some verdict := by
  cases verdict with
  | interesting => cases opposite
  | uninteresting => rw [remembered, if_pos isThere, ite_self]
  | uncompilable =>
    obtain rfl := Option.some.inj opposite
    unfold remembered
    rw [kept]
    by_cases before : marked t here c key .uninteresting
    · simp only [before, if_true]
    · simp only [before, Bool.false_eq_true, if_false, isThere, if_true]
      split <;> simp_all

end Opposites

/-- Of the two markers of a key, the one that a verdict leaves and the one that it takes away. -/
theorem markers_of (c : Cache) (key : String) (cacheable : verdict ≠ .interesting) :
    ∃ other p q pre first second, Cache.opposite? verdict = some other ∧
      c.markerPath? key verdict = some p ∧ c.markerPath? key other = some q ∧
      Ends p pre first ∧ Ends q pre second ∧ first ≠ second := by
  obtain ⟨pre, name, paths⟩ := marker_ends c key
  obtain ⟨p, isUninteresting, endsP⟩ := paths .uninteresting "uninteresting" rfl
  obtain ⟨q, isUncompilable, endsQ⟩ := paths .uncompilable "nocompile" rfl
  have differ : name ++ utf8 "uninteresting" ≠ name ++ utf8 "nocompile" := by
    intro same
    exact absurd (List.append_cancel_left same) (by decide)
  cases verdict with
  | interesting => exact absurd rfl cacheable
  | uninteresting => exact ⟨_, p, q, pre, _, _, rfl, isUninteresting, isUncompilable, endsP, endsQ, differ⟩
  | uncompilable =>
    exact ⟨_, q, p, pre, _, _, rfl, isUncompilable, isUninteresting, endsQ, endsP, differ.symm⟩

/-! ## What a call leaves -/

theorem named_ok {operation : Except Errno FileTree} (ok : named p operation = .ok u) :
    Machine.hasNul p = false ∧ operation = .ok u := by
  unfold named at ok
  split at ok
  · cases ok
  · rename_i clean
    exact ⟨by simpa using clean, ok⟩

theorem named_missing {operation : Except Errno FileTree} (gone : named q operation = .error .noEntry) :
    operation = .error .noEntry := by
  unfold named at gone
  split at gone
  · cases gone
  · exact gone

/-- Whether an error tells that the opposite marker could not be taken away. -/
def Torn (c : Cache) (key : String) (verdict : Classification) (error : CacheError) : Prop :=
  ∃ other q cause, Cache.opposite? verdict = some other ∧ c.markerPath? key other = some q ∧
    error = .files q cause

/-- Whether no marker of another key leads to where a marker of this one leads. -/
def Apart (t : FileTree) (here : Place) (c : Cache) (key other : String) : Prop :=
  ∀ verdict verdict' p p', c.markerPath? key verdict = some p → c.markerPath? other verdict' = some p' →
    ∀ place node node', t.find here p true = .ok ⟨place, node⟩ →
      t.find here p' true ≠ .ok ⟨place, node'⟩

/-- Whether no marker of a key is a link. -/
def NoLinks (t : FileTree) (here : Place) (c : Cache) (key : String) : Prop :=
  ∀ verdict p, c.markerPath? key verdict = some p → Unlinked t here p

/-- The markers of a key that is a name are entries of the directory of markers. -/
theorem marker_entry {before : List Bytes} (lead : Lead (front c.resultsDir) before)
    (clean : '/' ∉ key.toList) (isMarker : c.markerPath? key verdict = some p) :
    ∃ ending, Cache.markerEnding? verdict = some ending ∧
      Ends p before (utf8 (key ++ "." ++ ending)) := by
  have entry {ending : String} (cleanEnd : '/' ∉ ending.toList) (long : 2 < (utf8 ending).length) :
      Ends (c.resultsDir / Path.ofString (key ++ "." ++ ending)) before
        (utf8 (key ++ "." ++ ending)) := by
    have proper : Proper (utf8 (key ++ "." ++ ending)) := by
      refine proper_of_length (by simp [clean, cleanEnd]) ?_
      rw [utf8_append, List.length_append]
      omega
    refine ⟨?_, proper⟩
    rw [entry_eq _ proper.clean]
    exact (lead _ proper.clean).1
  cases verdict with
  | interesting => cases isMarker
  | uninteresting =>
    obtain rfl := Option.some.inj ((Exclusion.markerPath_eq rfl).symm.trans isMarker)
    exact ⟨_, rfl, entry (by decide) (by decide)⟩
  | uncompilable =>
    obtain rfl := Option.some.inj ((Exclusion.markerPath_eq rfl).symm.trans isMarker)
    exact ⟨_, rfl, entry (by decide) (by decide)⟩

/-- Other keys that are names have markers elsewhere. -/
theorem apart_of_names {other : String} (differ : other ≠ key) (clean : '/' ∉ key.toList)
    (cleanOther : '/' ∉ other.toList) (unlinked : NoLinks t here c key)
    (unlinkedOther : NoLinks t here c other) : Apart t here c key other := by
  obtain ⟨before, lead⟩ := lead_front c.resultsDir
  intro verdict verdict' p p' isMarker isOther place node node' found foundToo
  obtain ⟨ending, isEnding, ends⟩ := marker_entry lead clean isMarker
  obtain ⟨ending', isEndingToo, endsToo⟩ := marker_entry lead cleanOther isOther
  obtain ⟨d, leads⟩ := entries_of_found (.refl t) ends found
  have atOne := ((leads p _ true ends).1 (.inr (unlinked _ _ isMarker))).symm.trans found
  have atOther := ((leads p' _ true endsToo).1 (.inr (unlinkedOther _ _ isOther))).symm.trans foundToo
  have isPlace := (Target.mk.inj (entry_eq_ok atOne).1).1
  have isPlaceToo := (Target.mk.inj (entry_eq_ok atOther).1).1
  have names := List.singleton_inj.mp (List.append_cancel_left (isPlaceToo.symm.trans isPlace))
  exact differ (Exclusion.markerName_inj isEndingToo isEnding names)

theorem torn_iff {other : Classification} (opposite : Cache.opposite? verdict = some other)
    (isOther : c.markerPath? key other = some q) (path : Path) (cause : Failure) :
    Torn c key verdict (.files path cause) ↔ path = q := by
  constructor
  · rintro ⟨other', q', cause', opposite', isOther', same⟩
    obtain rfl := Option.some.inj (opposite.symm.trans opposite')
    obtain rfl := Option.some.inj (isOther.symm.trans isOther')
    exact (CacheError.files.inj same).1
  · rintro rfl
    exact ⟨other, path, cause, opposite, isOther, rfl⟩

/-- Touching a marker changes nothing for the keys with markers elsewhere. -/
theorem remembered_of_touch {another : String} {pre : List Bytes} {first : Bytes}
    (isMarker : c.markerPath? key verdict = some p) (ends : Ends p pre first)
    (unlinked : Unlinked t here p) (touched : t.touch here p = .ok u)
    (apart : Apart t here c key another) :
    remembered u here c another = remembered t here c another := by
  obtain ⟨same, place, found, -, elsewhere⟩ := sameWays_of_touch ends unlinked touched
  apply remembered_congr
  intro verdict' p' isMarker'
  have equal : u.exists here p' = t.exists here p' := by
    apply exists_congr same
    intro place' node found'
    rw [elsewhere]
    rintro rfl
    exact apart _ _ _ _ isMarker isMarker' _ _ _ found found'
  rw [there, there, equal]

/-- What a call that stores a verdict leaves on a tree. -/
theorem remembered_of_stores (unlinked : NoLinks t here c key) {other : Classification}
    {pre : List Bytes} {first second : Bytes} (opposite : Cache.opposite? verdict = some other)
    (isMarker : c.markerPath? key verdict = some p) (isOther : c.markerPath? key other = some q)
    (ends : Ends p pre first) (endsToo : Ends q pre second) (differ : first ≠ second)
    {result : Except CacheError Unit} (stores : Stores t here p q result w) :
    (result = .ok () → remembered w here c key = some verdict) ∧
    ∀ error, result = .error error →
      (∀ another, Apart t here c key another →
        remembered w here c another = remembered t here c another) ∧
      (¬ Torn c key verdict error → remembered w here c key = remembered t here c key) ∧
      (Torn c key verdict error → remembered w here c key =
        if remembered t here c key = some .uninteresting
          then some .uninteresting else some verdict) := by
  have unlinkedP := unlinked verdict p isMarker
  have unlinkedQ := unlinked other q isOther
  cases stores with
  | refused cause =>
    refine ⟨nofun, ?_⟩
    intro error is
    obtain rfl := Except.error.inj is
    have apart : p ≠ q := by
      rintro rfl
      have pieces := ends.pieces.symm.trans endsToo.pieces
      exact differ (List.singleton_inj.mp (List.append_cancel_left pieces))
    refine ⟨fun _ _ => rfl, fun _ => rfl, ?_⟩
    intro torn
    exact absurd ((torn_iff opposite isOther p cause).mp torn) apart
  | torn touched cause =>
    obtain ⟨clean, isTouched⟩ := named_ok touched
    obtain ⟨isThere, kept⟩ := exists_of_touch ends endsToo differ unlinkedP unlinkedQ isTouched
    refine ⟨nofun, ?_⟩
    intro error is
    obtain rfl := Except.error.inj is
    refine ⟨?_, ?_, ?_⟩
    · intro another
      exact remembered_of_touch isMarker ends unlinkedP isTouched
    · intro notTorn
      exact absurd ((torn_iff opposite isOther q cause).mpr rfl) notTorn
    · intro _
      apply remembered_torn opposite
      · rw [marked_eq isMarker, there, clean, isThere]
        rfl
      · rw [marked_eq isOther, marked_eq isOther, there, there, kept]
  | missing touched gone =>
    obtain ⟨clean, isTouched⟩ := named_ok touched
    obtain ⟨isThere, -⟩ := exists_of_touch ends endsToo differ unlinkedP unlinkedQ isTouched
    obtain ⟨same, -⟩ := sameWays_of_touch ends unlinkedP isTouched
    have isGone := exists_of_missing endsToo (unlinked_congr same endsToo unlinkedQ)
      (named_missing gone)
    refine ⟨fun _ => remembered_single opposite ?_ ?_, nofun⟩
    · rw [marked_eq isMarker, there, clean, isThere]
      rfl
    · rw [marked_eq isOther, there, isGone, Bool.and_false]
  | removed touched removed =>
    obtain ⟨clean, isTouched⟩ := named_ok touched
    obtain ⟨isThere, -⟩ := exists_of_touch ends endsToo differ unlinkedP unlinkedQ isTouched
    obtain ⟨same, -⟩ := sameWays_of_touch ends unlinkedP isTouched
    obtain ⟨stays, isGone⟩ := exists_of_remove ends endsToo differ
      (unlinked_congr same ends unlinkedP) (unlinked_congr same endsToo unlinkedQ)
      (named_ok removed).2
    refine ⟨fun _ => remembered_single opposite ?_ ?_, nofun⟩
    · rw [marked_eq isMarker, there, clean, stays, isThere]
      rfl
    · rw [marked_eq isOther, there, isGone, Bool.and_false]

/-- A verdict is stored, on a host that keeps its files in a tree and may refuse any of the two
steps, where no marker of the key is a link. After a success it is the verdict that is remembered.
After an error every key with markers elsewhere is remembered as before, and so is the key itself,
unless its new marker was left and the opposite one could not be taken away: then the verdict is
remembered, if it is not the uninteresting one that was remembered before. -/
theorem lookedUp_after_store (disk : Disk host tree here calm) (isCalm : calm s)
    (unlinked : NoLinks (tree s) here c key) (verdict : Classification) :
    ∃ result after, exec host s (c.store key verdict) = (result, after) ∧
      (result = .ok () → lookedUp host after c key = some verdict) ∧
      ∀ error, result = .error error →
        (∀ other, Apart (tree s) here c key other →
          lookedUp host after c other = lookedUp host s c other) ∧
        (∀ other, other ≠ key → '/' ∉ key.toList → '/' ∉ other.toList →
          NoLinks (tree s) here c other → Apart (tree s) here c key other) ∧
        (¬ Torn c key verdict error → lookedUp host after c key = lookedUp host s c key) ∧
        (Torn c key verdict error → lookedUp host after c key =
          if lookedUp host s c key = some .uninteresting
            then some .uninteresting else some verdict) := by
  by_cases cacheable : verdict = .interesting
  · subst cacheable
    refine ⟨.error (.notCacheable .interesting), s, rfl, nofun, ?_⟩
    intro error _
    refine ⟨fun _ _ => rfl, ?_, fun _ => rfl, ?_⟩
    · intro other differ clean cleanOther unlinkedOther
      exact apart_of_names differ clean cleanOther unlinked unlinkedOther
    · rintro ⟨other, q, cause, opposite, -⟩
      cases opposite
  · obtain ⟨other, p, q, pre, first, second, opposite, isMarker, isOther, ends, endsToo, differ⟩ :=
      markers_of c key cacheable
    obtain ⟨result, after, ran, stores, isCalmToo⟩ :=
      store_stores disk isCalm opposite isMarker isOther
    obtain ⟨stored, failed⟩ :=
      remembered_of_stores unlinked opposite isMarker isOther ends endsToo differ stores
    have before (key : String) := lookedUp_eq disk isCalm c key
    have afterwards (key : String) := lookedUp_eq disk isCalmToo c key
    refine ⟨result, after, ran, ?_, ?_⟩
    · rw [afterwards]
      exact stored
    · intro error is
      obtain ⟨others, untorn, torn⟩ := failed error is
      rw [afterwards, before]
      refine ⟨?_, ?_, untorn, torn⟩
      · intro another apart
        rw [afterwards, before]
        exact others another apart
      · intro another differ clean cleanOther unlinkedOther
        exact apart_of_names differ clean cleanOther unlinked unlinkedOther

/-! ## A directory in the place of a marker -/

theorem noLinks_of_linkless (linkless : ∀ place target, t.node? place ≠ some (.link target))
    (c : Cache) (key : String) : NoLinks t here c key := by
  intro verdict p isMarker
  have cacheable : verdict ≠ .interesting := by
    rintro rfl
    cases isMarker
  obtain ⟨-, p', -, pre, first, -, -, isMarker', -, ends, -⟩ := markers_of c key cacheable
  obtain rfl := Option.some.inj (isMarker.symm.trans isMarker')
  intro place target found
  obtain ⟨d, leads⟩ := entries_of_found (.refl t) ends found
  have reached := ((leads p first false ends).1 (.inl rfl)).symm.trans found
  have isNode := (Target.mk.inj (entry_eq_ok reached).1).2
  exact linkless _ target isNode.symm

/-- The directory of markers of the cache in `c`. -/
def shelf : Place := [utf8 "c", utf8 "results"]

/-- A machine with a cache that has a directory in the place of one marker of the key `k`. -/
def desk : Machine where
  tree := ⟨[([utf8 "c"], .directory), (shelf, .directory),
    (shelf ++ [utf8 "k.nocompile"], .directory)]⟩
  here := []
  temporary := "/tmp"
  environment := []

theorem desk_linkless (place : Place) (target : Path) :
    desk.tree.node? place ≠ some (.link target) := by
  intro isLink
  unfold node? at isLink
  split at isLink
  · cases isLink
  · obtain ⟨before, after, nodes, -⟩ := List.lookup_eq_some_iff.mp isLink
    have among : (place, Node.link target) ∈ desk.tree.nodes := by simp [nodes]
    simp [desk] at among

theorem find_on_desk (ends : Ends p shelf first) (short : p.bytes.length ≤ longestPath)
    (shortName : first.length ≤ longestName) (followLast : Bool) :
    desk.tree.find [] p followLast =
      .ok ⟨shelf ++ [first], desk.tree.node? (shelf ++ [first])⟩ := by
  have step (d : Place) (name : Bytes) (rest : List Bytes) (proper : Proper name)
      (fits : name.length ≤ longestName) (isThere : desk.tree.isDirectoryAt d)
      (next : desk.tree.node? (d ++ [name]) = some .directory) :
      desk.tree.walk followLast mostLinks d (name :: rest) =
        desk.tree.walk followLast mostLinks (d ++ [name]) rest := by
    rw [walk_onto isThere (not_isIdle proper) proper.ne_dots (Nat.not_lt.mpr fits)
      (desk_linkless _), onto, next]
  have toCache : Proper (utf8 "c") := ⟨by decide, by decide, by decide, by decide⟩
  have toMarkers : Proper (utf8 "results") := proper_of_length (by decide) (by decide)
  have atShelf : desk.tree.isDirectoryAt shelf := rfl
  rw [ends.find, if_neg (Nat.not_lt.mpr short), ite_self]
  rw [show shelf ++ [first] = utf8 "c" :: utf8 "results" :: [first] from rfl,
    step [] _ _ toCache (by decide) rfl rfl, step _ _ _ toMarkers (by decide) rfl rfl]
  change desk.tree.walk followLast mostLinks shelf [first] = _
  rw [walk_last ends.proper (.inr fun _ _ => desk_linkless _), if_neg (by simp [atShelf]),
    if_neg (Nat.not_lt.mpr shortName)]
  rfl

theorem desk_uninteresting : Cache.markerPath? ⟨"c"⟩ "k" .uninteresting =
    some "c/results/k.uninteresting" := by
  decide

theorem desk_uncompilable : Cache.markerPath? ⟨"c"⟩ "k" .uncompilable =
    some "c/results/k.nocompile" := by
  decide

theorem uninteresting_ends : Ends "c/results/k.uninteresting" shelf (utf8 "k.uninteresting") :=
  ⟨by decide, proper_of_length (by decide) (by decide)⟩

theorem uncompilable_ends : Ends "c/results/k.nocompile" shelf (utf8 "k.nocompile") :=
  ⟨by decide, proper_of_length (by decide) (by decide)⟩

theorem desk_remembers : remembered desk.tree [] ⟨"c"⟩ "k" = some .uncompilable := by
  have free := find_on_desk uninteresting_ends (by decide) (by decide) true
  have taken := find_on_desk uncompilable_ends (by decide) (by decide) true
  have isFree : desk.tree.exists [] "c/results/k.uninteresting" = false := by
    rw [FileTree.exists, stat, existing, free]
    rfl
  have isTaken : desk.tree.exists [] "c/results/k.nocompile" = true := by
    rw [FileTree.exists, stat, existing, taken]
    rfl
  rw [remembered, marked_eq desk_uninteresting, marked_eq desk_uncompilable, there, there, isFree,
    isTaken]
  decide

theorem touch_on_desk : desk.tree.touch [] "c/results/k.uninteresting" =
    .ok (desk.tree.set (shelf ++ [utf8 "k.uninteresting"]) (.file [] false)) := by
  have free := find_on_desk uninteresting_ends (by decide) (by decide) true
  rw [FileTree.touch, FileTree.writable, free]
  rfl

/-- The call on the desk leaves its marker, and finds that it cannot take a directory away. -/
theorem store_on_desk : ∃ after, exec Machine.host desk (Cache.store ⟨"c"⟩ "k" .uninteresting) =
    (.error (.files "c/results/k.nocompile" (.system .isDirectory)), after) ∧
    after.processes = [] ∧ after.here = [] ∧
    Stores desk.tree [] "c/results/k.uninteresting" "c/results/k.nocompile"
      (.error (.files "c/results/k.nocompile" (.system .isDirectory))) after.tree := by
  have unlinked : NoLinks desk.tree [] ⟨"c"⟩ "k" := noLinks_of_linkless desk_linkless _ _
  have taken := find_on_desk uncompilable_ends (by decide) (by decide) false
  have found := find_of_touch uninteresting_ends uncompilable_ends (by decide)
    (unlinked _ _ desk_uninteresting) touch_on_desk (unlinked _ _ desk_uncompilable) false
  have refused : (desk.tree.set (shelf ++ [utf8 "k.uninteresting"]) (.file [] false)).remove []
      "c/results/k.nocompile" = .error .isDirectory := by
    rw [FileTree.remove, existing, found, taken]
    rfl
  obtain ⟨m, touched, isTree, idle, place⟩ : ∃ m : Machine,
      (Program.touch "c/results/k.uninteresting").run Machine.host desk = (.ok (), m) ∧
      m.tree = desk.tree.set (shelf ++ [utf8 "k.uninteresting"]) (.file [] false) ∧
      m.processes = [] ∧ m.here = [] :=
    ⟨_, run_touch_ok rfl (by decide) touch_on_desk, rfl, rfl, rfl⟩
  have first : exec Machine.host desk (Action.orFail (Program.touch "c/results/k.uninteresting")
      (CacheError.files "c/results/k.uninteresting")) = (.ok (), m) := by
    rw [exec_orFail, touched]
    rfl
  have second : (Program.remove "c/results/k.nocompile").run Machine.host m =
      (.error (.system .isDirectory), m.reach (some (m.clock + 10))) :=
    run_remove_error idle (by decide) (by rw [isTree, place, refused])
  refine ⟨m.reach (some (m.clock + 10)), ?_, idle, place, ?_⟩
  · rw [store_eq rfl desk_uninteresting desk_uncompilable, exec_bind_ok first,
      removeIfPresent_error second]
    rfl
  · change Stores _ _ _ _ _ m.tree
    rw [isTree]
    refine .torn ?_ _
    rw [named, if_neg (by decide), touch_on_desk]

/-- The uninteresting verdict is stored over a directory that stands for the opposite marker: the
call fails, and the verdict that is remembered is another one than before. -/
theorem failed_store_remembered :
    lookedUp Machine.host desk ⟨"c"⟩ "k" = some .uncompilable ∧
    (exec Machine.host desk (Cache.store ⟨"c"⟩ "k" .uninteresting)).1 =
      .error (.files "c/results/k.nocompile" (.system .isDirectory)) ∧
    lookedUp Machine.host (exec Machine.host desk (Cache.store ⟨"c"⟩ "k" .uninteresting)).2 ⟨"c"⟩ "k" =
      some .uninteresting := by
  obtain ⟨after, ran, idle, place, stores⟩ := store_on_desk
  obtain ⟨-, failed⟩ := remembered_of_stores (noLinks_of_linkless desk_linkless ⟨"c"⟩ "k") rfl
    desk_uninteresting desk_uncompilable uninteresting_ends uncompilable_ends (by decide) stores
  obtain ⟨-, -, torn⟩ := failed _ rfl
  rw [ran, lookedUp_eq (machine_disk []) ⟨rfl, rfl⟩, lookedUp_eq (machine_disk []) ⟨idle, place⟩]
  refine ⟨desk_remembers, rfl, ?_⟩
  rw [torn ⟨_, _, _, rfl, desk_uncompilable, rfl⟩, desk_remembers]
  rfl

/-- The failed call leaves its verdict on the key of which only the opposite marker stays, and leaves
other keys alone. -/
theorem torn_store_on_desk : ∃ after,
    exec Machine.host desk (Cache.store ⟨"c"⟩ "k" .uninteresting) =
      (.error (.files "c/results/k.nocompile" (.system .isDirectory)), after) ∧
    lookedUp Machine.host after ⟨"c"⟩ "k" = some .uninteresting ∧
    lookedUp Machine.host after ⟨"c"⟩ "l" = lookedUp Machine.host desk ⟨"c"⟩ "l" := by
  obtain ⟨result, after, ran, -, failed⟩ := lookedUp_after_store (machine_disk []) ⟨rfl, rfl⟩
    (noLinks_of_linkless desk_linkless ⟨"c"⟩ "k") .uninteresting
  obtain ⟨after', isRun, -⟩ := store_on_desk
  obtain ⟨rfl, rfl⟩ := Prod.mk.inj (ran.symm.trans isRun)
  obtain ⟨others, apart, -, torn⟩ := failed _ rfl
  refine ⟨after, ran, ?_, ?_⟩
  · rw [torn ⟨_, _, _, rfl, desk_uncompilable, rfl⟩, ite_self]
  · exact others "l" (apart "l" (by decide) (by decide) (by decide)
      (noLinks_of_linkless desk_linkless ⟨"c"⟩ "l"))

end BugHunt.Proofs.FailedStores
