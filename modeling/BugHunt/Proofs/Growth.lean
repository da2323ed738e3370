import BugHunt.Proofs.Runs
/-!
Trees on a bench stay trees: what stands somewhere stands in a directory, whatever a program asks
of the bench.
-/

namespace BugHunt.Proofs.Growth
open Places Trees Runs Bench

variable {b : Bench} {s : State}

/-- Whether all that stands anywhere stands in a directory. -/
def Grown (v : View) : Prop := ∀ q, v q ≠ none → v.directory q.dropLast

/-- A tree holds what its nodes are. -/
theorem mem_nodes {t : FileTree} {q : Place} (there : t.node? q ≠ none) :
    q = [] ∨ ∃ node, (q, node) ∈ t.nodes := by
  unfold FileTree.node? at there
  split at there
  · rename_i root
    exact .inl root
  · right
    generalize t.nodes = nodes at there
    induction nodes with
    | nil => exact absurd rfl there
    | cons entry rest ih =>
      obtain ⟨place, node⟩ := entry
      rw [lookup_cons_ite] at there
      split at there
      · rename_i same
        exact ⟨node, same ▸ List.mem_cons_self⟩
      · obtain ⟨other, found⟩ := ih there
        exact ⟨other, List.mem_cons_of_mem _ found⟩

theorem grown_of_nodes {t : FileTree}
    (nodes : ∀ entry ∈ t.nodes, View.directory t.node? entry.1.dropLast) : Grown t.node? := by
  intro q there
  rcases mem_nodes there with rfl | ⟨node, found⟩
  · rfl
  · exact nodes _ found

theorem Grown.parent {v : View} (grown : Grown v) {q : Place} (there : v.directory q) :
    v.directory q.dropLast := by
  apply grown
  intro none
  simp [View.directory, none] at there

/-- A node may come to stand in a directory, where there is no directory. -/
theorem Grown.put {v : View} {place : Place} {node : Option Node} (grown : Grown v)
    (before : v.directory place = false) (parent : node ≠ none → v.directory place.dropLast) :
    Grown (v.put place node) := by
  have kept (q : Place) (there : v.directory q) : View.directory (v.put place node) q := by
    have other : q ≠ place := by
      rintro rfl
      simp [before] at there
    rwa [View.directory, View.put_other other]
  intro q there
  apply kept
  by_cases same : q = place
  · subst same
    exact parent (by simpa using there)
  · rw [View.put_other same] at there
    exact grown q there

theorem Grown.set {t : FileTree} {place : Place} {node : Node} (grown : Grown t.node?)
    (free : View.writable t.node? place) : Grown (t.set place node).node? := by
  obtain ⟨noDirectory, parent⟩ := View.writable_iff.mp free
  rw [node?_set (ne_root_of_writable free)]
  exact grown.put noDirectory fun _ => parent

/-! ## The operations on places -/

theorem write_grown {t u : FileTree} {place : Place} {content : Bytes} (grown : Grown t.node?)
    (written : write t place content = .ok u) : Grown u.node? := by
  obtain ⟨free, view⟩ := write_view written
  obtain ⟨noDirectory, parent⟩ := View.writable_iff.mp free
  rw [view]
  exact grown.put noDirectory fun _ => parent

theorem touch_grown {t u : FileTree} {place : Place} (grown : Grown t.node?)
    (touched : touch t place = .ok u) : Grown u.node? := by
  unfold touch at touched
  split at touched
  · obtain rfl := Except.ok.inj touched
    exact grown
  · exact write_grown grown touched

theorem copy_grown {t u : FileTree} {source target : Place} (grown : Grown t.node?)
    (copied : copy t source target = .ok u) : Grown u.node? := by
  obtain ⟨content, -, written⟩ := copy_written copied
  exact write_grown grown written

theorem rename_grown {t u : FileTree} {source target : Place} (grown : Grown t.node?)
    (renamed : rename t source target = .ok u) : Grown u.node? := by
  unfold rename at renamed
  cases found : read t source with
  | error cause =>
    rw [found] at renamed
    cases renamed
  | ok content =>
    rw [found] at renamed
    obtain ⟨executable, isFile⟩ := read_eq_ok found
    have noDirectory : View.directory t.node? source = false := by
      rw [View.directory, isFile]
      rfl
    have named : source ≠ [] := by
      rintro rfl
      cases isFile
    simp only [bind, Except.bind] at renamed
    split at renamed
    · rename_i free
      obtain rfl := Except.ok.inj renamed
      have erased : (t.erase source).node? = View.put t.node? source none := node?_erase named
      refine Grown.set ?_ ?_
      · rw [erased]
        exact grown.put noDirectory fun absurd => (absurd rfl).elim
      · rw [erased, View.writable_put noDirectory rfl]
        exact free
    · cases renamed

theorem remove_grown {t u : FileTree} {place : Place} (grown : Grown t.node?)
    (removed : remove t place = .ok u) : Grown u.node? := by
  obtain ⟨file, view⟩ := remove_view removed
  rw [view]
  exact grown.put file fun absurd => (absurd rfl).elim

/-- Nothing that stays lies below what goes. -/
theorem removeTree_grown {t u : FileTree} {place : Place} (grown : Grown t.node?)
    (removed : removeTree t place = .ok u) : Grown u.node? := by
  rw [← removeTree_prune removed]
  intro q there
  by_cases named : place = []
  · subst named
    have root : q = [] := by
      by_cases same : q = []
      · exact same
      · simp [FileTree.node?, FileTree.prune, same] at there
    subst root
    rfl
  · rw [node?_prune named] at there
    split at there
    · cases there rfl
    · rename_i outside
      have above : ¬ place <+: q.dropLast := fun below =>
        outside (below.trans (List.dropLast_prefix q))
      rw [View.directory, node?_prune named, if_neg above]
      exact grown q there

theorem createDirectory_grown {t u : FileTree} {place : Place} (grown : Grown t.node?)
    (made : createDirectory t place = .ok u) : Grown u.node? := by
  obtain ⟨free, parent, view⟩ := createDirectory_view made
  rw [view]
  exact grown.put (View.directory_of_none free) fun _ => parent

theorem makePath_grown {t u : FileTree} {place : Place} {names : List Bytes}
    (grown : Grown t.node?) (there : View.directory t.node? place)
    (made : makePath t place names = .ok u) : Grown u.node? := by
  induction names generalizing t place with
  | nil =>
    obtain rfl := Except.ok.inj made
    exact grown
  | cons name rest ih =>
    unfold makePath at made
    split at made
    · rename_i free
      have writable := View.writable_entry free there
      refine ih (grown.set writable) ?_ made
      rw [node?_set (by simp), View.directory, View.put_self]
      rfl
    · rename_i node found
      split at made
      · rename_i isDirectory
        refine ih grown ?_ made
        rw [View.directory, found]
        exact isDirectory
      · cases made

theorem createDirectories_grown {t u : FileTree} {place : Place} (grown : Grown t.node?)
    (made : createDirectories t place = .ok u) : Grown u.node? := by
  unfold createDirectories at made
  split at made
  · obtain rfl := Except.ok.inj made
    exact grown
  · exact makePath_grown grown (View.directory_root t) made

/-! ## The tools -/

theorem put_grown {t : FileTree} (grown : Grown t.node?) (place : Place)
    (written : Option Bytes) : Grown (put t place written).node? := by
  unfold put
  split
  · exact grown
  · rename_i bytes
    cases result : write t place bytes with
    | ok u => exact write_grown grown result
    | error cause => exact grown

theorem fill_grown {t : FileTree} (grown : Grown t.node?) (directory : Place)
    (files : List (Bytes × Bytes)) : Grown (fill t directory files).node? := by
  induction files with
  | nil => exact grown
  | cons file rest ih => exact put_grown ih _ _

theorem carryOut_grown (grown : Grown s.tree.node?) (command : Command) :
    Grown (b.carryOut command s.tree).1.node? := by
  unfold carryOut
  split
  · rename_i call _
    cases call with
    | compile options source output => exact put_grown grown _ _
    | convert input output => exact put_grown grown _ _
    | facts context directory bitcode => exact fill_grown grown _ _
    | analyse options facts results => exact fill_grown grown _ _
    | minimizeIr output input => exact put_grown grown _ _
    | minimizeSource copy => exact put_grown grown _ _
  · exact grown

/-! ## The bench -/

theorem change_grown (grown : Grown s.tree.node?) {result : Except Failure FileTree}
    (made : ∀ u, result = .ok u → Grown u.node?) : Grown (change s result).2.tree.node? := by
  cases result with
  | ok u => exact made u rfl
  | error cause => exact grown

theorem makeTemporary_grown (grown : Grown s.tree.node?) {directory : Path}
    {before after : String} {make : FileTree → Place → Except Failure FileTree}
    (made : ∀ place u, make s.tree place = .ok u → Grown u.node?) :
    Grown (b.makeTemporary s directory before after make).2.tree.node? := by
  unfold makeTemporary
  simp only
  split
  · rename_i u result
    exact made _ u result
  · exact grown

/-- Whatever is asked of a bench, its tree stays a tree. -/
theorem host_grown (grown : Grown s.tree.node?) (r : Request) :
    Grown (b.host r s).2.tree.node? := by
  cases r with
  | file request =>
    cases request with
    | read | «exists» | isFile | makeExecutable => exact grown
    | createDirectories => exact change_grown grown fun _ => createDirectories_grown grown
    | createDirectory => exact change_grown grown fun _ => createDirectory_grown grown
    | write => exact change_grown grown fun _ => write_grown grown
    | touch => exact change_grown grown fun _ => touch_grown grown
    | copy => exact change_grown grown fun _ => copy_grown grown
    | rename => exact change_grown grown fun _ => rename_grown grown
    | remove => exact change_grown grown fun _ => remove_grown grown
    | removeTree => exact change_grown grown fun _ => removeTree_grown grown
  | temporaryDirectory => exact makeTemporary_grown grown fun _ _ => createDirectory_grown grown
  | temporaryFile => exact makeTemporary_grown grown fun _ _ => write_grown grown
  | search | isCancelled | choose | log | terminate | collect => exact grown
  | spawn command memory =>
    simp only [host]
    split
    · exact grown
    · exact grown
  | await child stop =>
    simp only [host]
    split
    · exact grown
    · exact carryOut_grown grown _

theorem run_grown (p : Program α) (grown : Grown s.tree.node?) :
    Grown (p.run b.host s).2.tree.node? := by
  induction p generalizing s with
  | done value => exact grown
  | ask request next ih => exact ih _ (host_grown grown request)

theorem exec_grown {a : Action ε α} {r : Except ε α} {t : State} (grown : Grown s.tree.node?)
    (ran : exec b.host s a = (r, t)) : Grown t.tree.node? := by
  have kept := @run_grown b s _ a.run grown
  rw [show a.run.run b.host s = (r, t) from ran] at kept
  exact kept

end BugHunt.Proofs.Growth
