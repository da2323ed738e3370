import BugHunt.FileTree.Basic
/-!
What stands where after a change of a file tree, and the operations of a host that leads every
path to one place: no links, no limits, no rights. They fail for want of a directory or a file.
-/

namespace BugHunt.Proofs.Trees

/-- What stands at each place. -/
abbrev View := Place → Option Node

/-- The view with another node, or none, at one place. -/
def View.put (v : View) (place : Place) (node : Option Node) : View :=
  fun q => if q = place then node else v q

@[simp] theorem View.put_self (v : View) (place : Place) (node : Option Node) :
    v.put place node place = node := by
  simp [View.put]

theorem View.put_other {v : View} {place q : Place} {node : Option Node} (h : q ≠ place) :
    v.put place node q = v q := by
  simp [View.put, h]

/-- Putting back what was there changes nothing. -/
theorem View.put_back {v : View} {place : Place} {node before : Option Node}
    (was : v place = before) : (v.put place node).put place before = v := by
  funext q
  by_cases h : q = place
  · rw [h, View.put_self, was]
  · rw [View.put_other h, View.put_other h]

theorem View.put_put (v : View) (place : Place) (m n : Option Node) :
    (v.put place m).put place n = v.put place n := by
  funext q
  by_cases h : q = place
  · rw [h, View.put_self, View.put_self]
  · rw [View.put_other h, View.put_other h, View.put_other h]

@[simp] theorem node?_root (t : FileTree) : t.node? [] = some .directory := rfl

theorem lookup_cons_ite (q there : Place) (node : Node) (rest : List (Place × Node)) :
    ((there, node) :: rest).lookup q = if q = there then some node else rest.lookup q := by
  rw [List.lookup_cons]
  by_cases same : q = there
  · simp [same]
  · have : (q == there) = false := by simpa using same
    simp [same, this]

theorem lookup_map_replace (nodes : List (Place × Node)) (place q : Place) (node : Node) :
    (nodes.map fun entry => if entry.1 = place then (place, node) else entry).lookup q =
      if q = place ∧ (nodes.lookup place).isSome then some node else nodes.lookup q := by
  induction nodes with
  | nil => simp
  | cons entry rest ih =>
    obtain ⟨there, old⟩ := entry
    rw [List.map_cons]
    by_cases here : there = place
    · subst here
      by_cases same : q = there <;> simp [lookup_cons_ite, same, ih]
    · simp only [here, if_false, lookup_cons_ite, ih, Ne.symm here]
      by_cases same : q = there
      · simp [same, here]
      · simp [same]

theorem node?_set {t : FileTree} {place : Place} {node : Node} (named : place ≠ []) :
    (t.set place node).node? = View.put t.node? place (some node) := by
  funext q
  unfold FileTree.node? View.put
  by_cases root : q = []
  · simp [root, Ne.symm named]
  · simp only [root, if_false]
    unfold FileTree.set
    split
    · rename_i there
      simp only [lookup_map_replace, there, and_true]
    · rename_i free
      rw [List.lookup_append]
      by_cases same : q = place
      · subst same
        simp only [Option.not_isSome_iff_eq_none] at free
        simp [free]
      · simp [same, lookup_cons_ite]

theorem lookup_filter (nodes : List (Place × Node)) (keep : Place → Bool) (q : Place) :
    (nodes.filter fun entry => keep entry.1).lookup q =
      if keep q then nodes.lookup q else none := by
  induction nodes with
  | nil => simp
  | cons entry rest ih =>
    obtain ⟨there, node⟩ := entry
    rw [List.filter_cons]
    by_cases same : q = there
    · subst same
      by_cases kept : keep q <;> simp [kept, ih]
    · by_cases kept : keep there <;> simp [kept, lookup_cons_ite, same, ih]

theorem node?_erase {t : FileTree} {place : Place} (named : place ≠ []) :
    (t.erase place).node? = View.put t.node? place none := by
  funext q
  unfold FileTree.node? FileTree.erase View.put
  by_cases root : q = []
  · simp [root, Ne.symm named]
  · simp only [root, if_false]
    rw [lookup_filter t.nodes (fun there => there != place) q]
    by_cases same : q = place <;> simp [same]

/-- Nothing is left of a pruned place and what lay below it. -/
theorem node?_prune {t : FileTree} {place q : Place} (named : place ≠ []) :
    (t.prune place).node? q = if place <+: q then none else t.node? q := by
  unfold FileTree.node? FileTree.prune
  by_cases root : q = []
  · subst root
    simp [List.prefix_nil, named]
  · simp only [root, if_false]
    rw [lookup_filter t.nodes (fun there => !place.isPrefixOf there) q]
    by_cases below : place <+: q
    · have : place.isPrefixOf q = true := List.isPrefixOf_iff_prefix.mpr below
      simp [below, this]
    · have : place.isPrefixOf q = false := by
        exact Bool.eq_false_iff.mpr fun h => below (List.isPrefixOf_iff_prefix.mp h)
      simp [below, this]

/-! ## Operations on places -/

def View.directory (v : View) (place : Place) : Bool := (v place).any Node.isDirectory

theorem directory_congr {v t : View} {q : Place} (same : t q = v q) :
    t.directory q = v.directory q := by
  rw [View.directory, View.directory, same]

theorem View.directory_of_none {v : View} {q : Place} (free : v q = none) :
    v.directory q = false := by
  rw [View.directory, free]
  rfl

/-- Whether a file can be made or changed at a place. -/
def View.writable (v : View) (place : Place) : Bool :=
  !v.directory place && v.directory place.dropLast

theorem View.writable_iff {v : View} {place : Place} :
    v.writable place ↔ v.directory place = false ∧ v.directory place.dropLast := by
  rw [View.writable, Bool.and_eq_true, Bool.not_eq_true']

/-- A new file can be made in a directory. -/
theorem View.writable_entry {v : View} {directory : Place} {name : Bytes}
    (free : v (directory ++ [name]) = none) (there : v.directory directory) :
    v.writable (directory ++ [name]) :=
  View.writable_iff.mpr ⟨View.directory_of_none free, by rwa [List.dropLast_concat]⟩

/-- Files that come, change and go leave the directories as they are. -/
theorem View.directory_put {v : View} {place : Place} {node : Option Node}
    (before : v.directory place = false) (after : node.any Node.isDirectory = false) :
    (v.put place node).directory = v.directory := by
  funext q
  by_cases same : q = place
  · rw [same, before, View.directory, View.put_self, after]
  · exact directory_congr (View.put_other same)

theorem View.writable_put {v : View} {place : Place} {node : Option Node}
    (before : v.directory place = false) (after : node.any Node.isDirectory = false) :
    (v.put place node).writable = v.writable := by
  funext q
  simp only [View.writable, View.directory_put before after]

/-- Why a file cannot be made or changed at a place. -/
def refusal (v : View) (place : Place) : Failure :=
  if v.directory place then .system .isDirectory else .system .noEntry

def read (t : FileTree) (place : Place) : Except Failure Bytes :=
  match t.node? place with
  | some (.file content _) => .ok content
  | some _ => .error (.system .isDirectory)
  | none => .error (.system .noEntry)

def «exists» (t : FileTree) (place : Place) : Bool := (t.node? place).isSome

def isFile (t : FileTree) (place : Place) : Bool := (t.node? place).any Node.isFile

def write (t : FileTree) (place : Place) (content : Bytes) : Except Failure FileTree :=
  if View.writable t.node? place then .ok (t.set place (.file content false))
  else .error (refusal t.node? place)

/-- Makes an empty file where there is none. -/
def touch (t : FileTree) (place : Place) : Except Failure FileTree :=
  if (t.node? place).isSome && !View.directory t.node? place then .ok t else write t place []

def createDirectory (t : FileTree) (place : Place) : Except Failure FileTree :=
  if (t.node? place).isSome then .error (.system .alreadyThere)
  else if View.directory t.node? place.dropLast then .ok (t.set place .directory)
  else .error (.system .noEntry)

/-- Makes the directories that lead from a place along names. -/
def makePath (t : FileTree) (place : Place) : List Bytes → Except Failure FileTree
  | [] => .ok t
  | name :: rest =>
    match t.node? (place ++ [name]) with
    | none => makePath (t.set (place ++ [name]) .directory) (place ++ [name]) rest
    | some node =>
      if node.isDirectory then makePath t (place ++ [name]) rest
      else .error (.system .notDirectory)

def createDirectories (t : FileTree) (place : Place) : Except Failure FileTree :=
  if View.directory t.node? place then .ok t else makePath t [] place

def copy (t : FileTree) (source target : Place) : Except Failure FileTree := do
  let content ← read t source
  write t target (if source = target then [] else content)

def rename (t : FileTree) (source target : Place) : Except Failure FileTree := do
  let content ← read t source
  if View.writable t.node? target then
    return (t.erase source).set target (.file content false)
  else throw (refusal t.node? target)

def remove (t : FileTree) (place : Place) : Except Failure FileTree :=
  match t.node? place with
  | none => .error (.system .noEntry)
  | some node => if node.isDirectory then .error (.system .isDirectory) else .ok (t.erase place)

def removeTree (t : FileTree) (place : Place) : Except Failure FileTree :=
  match t.node? place with
  | none => .error (.system .noEntry)
  | some node => if node.isDirectory then .ok (t.prune place) else .error (.system .notDirectory)

theorem View.directory_root (t : FileTree) : View.directory t.node? [] = true := rfl

theorem ne_root_of_writable {t : FileTree} {place : Place}
    (free : View.writable t.node? place) : place ≠ [] := by
  rintro rfl
  simp [View.writable, View.directory_root] at free

theorem write_ok {t : FileTree} {place : Place} (content : Bytes)
    (free : View.writable t.node? place) :
    ∃ u, write t place content = .ok u ∧
      u.node? = View.put t.node? place (some (.file content false)) :=
  ⟨_, by simp [write, free], node?_set (ne_root_of_writable free)⟩

theorem write_error {t : FileTree} {place : Place} (content : Bytes)
    (refused : View.writable t.node? place = false) :
    write t place content = .error (refusal t.node? place) := by
  simp [write, refused]

theorem read_ok {t : FileTree} {place : Place} {content : Bytes} {executable : Bool}
    (there : t.node? place = some (.file content executable)) : read t place = .ok content := by
  simp [read, there]

theorem read_eq_ok {t : FileTree} {place : Place} {content : Bytes}
    (done : read t place = .ok content) :
    ∃ executable, t.node? place = some (.file content executable) := by
  unfold read at done
  split at done
  · rename_i found
    obtain rfl := Except.ok.inj done
    exact ⟨_, found⟩
  · cases done
  · cases done

/-! ## What an operation found that succeeded, and what it did -/

theorem write_view {t u : FileTree} {place : Place} {content : Bytes}
    (written : write t place content = .ok u) : View.writable t.node? place ∧
      u.node? = View.put t.node? place (some (.file content false)) := by
  unfold write at written
  split at written
  · rename_i free
    obtain rfl := Except.ok.inj written
    exact ⟨free, node?_set (ne_root_of_writable free)⟩
  · cases written

/-- A copy is what was read, written to the target. A file copied onto itself is emptied. -/
theorem copy_written {t u : FileTree} {source target : Place}
    (copied : copy t source target = .ok u) : ∃ content, read t source = .ok content ∧
      write t target (if source = target then [] else content) = .ok u := by
  unfold copy at copied
  cases found : read t source with
  | error cause =>
    rw [found] at copied
    cases copied
  | ok content =>
    rw [found] at copied
    exact ⟨content, rfl, copied⟩

theorem remove_view {t u : FileTree} {place : Place} (removed : remove t place = .ok u) :
    View.directory t.node? place = false ∧ u.node? = View.put t.node? place none := by
  unfold remove at removed
  split at removed
  · cases removed
  · rename_i node there
    split at removed
    · cases removed
    · rename_i file
      obtain rfl := Except.ok.inj removed
      have named : place ≠ [] := by
        rintro rfl
        obtain rfl : Node.directory = node := by simpa using there
        exact file rfl
      refine ⟨?_, node?_erase named⟩
      rw [View.directory, there]
      simpa using file

theorem removeTree_prune {t u : FileTree} {place : Place} (removed : removeTree t place = .ok u) :
    t.prune place = u := by
  unfold removeTree at removed
  split at removed
  · cases removed
  · split at removed
    · exact Except.ok.inj removed
    · cases removed

theorem createDirectory_view {t u : FileTree} {place : Place}
    (made : createDirectory t place = .ok u) : t.node? place = none ∧
      View.directory t.node? place.dropLast ∧
        u.node? = View.put t.node? place (some .directory) := by
  unfold createDirectory at made
  split at made
  · cases made
  · rename_i taken
    have free : t.node? place = none := by simpa using taken
    have named : place ≠ [] := by
      rintro rfl
      cases free
    split at made
    · rename_i parent
      obtain rfl := Except.ok.inj made
      exact ⟨free, parent, node?_set named⟩
    · cases made

theorem createDirectory_ok {t : FileTree} {place : Place} (free : t.node? place = none)
    (parent : View.directory t.node? place.dropLast) :
    ∃ u, createDirectory t place = .ok u ∧
      u.node? = View.put t.node? place (some .directory) := by
  have named : place ≠ [] := by
    rintro rfl
    simp at free
  exact ⟨_, by simp [createDirectory, free, parent], node?_set named⟩

theorem createDirectories_of_directory {t : FileTree} {place : Place}
    (there : View.directory t.node? place) : createDirectories t place = .ok t := by
  simp [createDirectories, there]

/-- What was there stays, and what is new is a directory on the way to the place. -/
structure Extends (v w : View) (place : Place) : Prop where
  kept : ∀ q, v q ≠ none → w q = v q
  new : ∀ q, w q ≠ v q → q <+: place ∧ w q = some .directory

theorem Extends.refl (v : View) (place : Place) : Extends v v place :=
  ⟨fun _ _ => rfl, fun _ h => absurd rfl h⟩

theorem Extends.trans {u v w : View} {place : Place} (h : Extends u v place)
    (k : Extends v w place) : Extends u w place := by
  constructor
  · intro q there
    have same := h.kept q there
    rw [k.kept q (same ▸ there), same]
  · intro q changed
    by_cases same : w q = v q
    · rw [same] at changed ⊢
      exact h.new q changed
    · exact k.new q same

theorem makePath_spec {t u : FileTree} {place : Place} {names : List Bytes}
    (made : makePath t place names = .ok u) : Extends t.node? u.node? (place ++ names) := by
  induction names generalizing t place with
  | nil =>
    obtain rfl := Except.ok.inj made
    exact .refl ..
  | cons name rest ih =>
    have next : place ++ name :: rest = place ++ [name] ++ rest := by simp
    rw [next]
    unfold makePath at made
    split at made
    · rename_i free
      have set := @node?_set t (place ++ [name]) .directory (by simp)
      refine Extends.trans ⟨?_, ?_⟩ (ih made)
      · intro q there
        rw [set]
        exact View.put_other fun same => there (same ▸ free)
      · intro q changed
        rw [set] at changed ⊢
        by_cases same : q = place ++ [name]
        · subst same
          exact ⟨List.prefix_append .., View.put_self ..⟩
        · exact absurd (View.put_other same) changed
    · split at made
      · exact ih made
      · cases made

/-- The place itself is a directory in the end. -/
theorem makePath_directory {t u : FileTree} {place : Place} {names : List Bytes}
    (start : View.directory t.node? place) (made : makePath t place names = .ok u) :
    View.directory u.node? (place ++ names) := by
  induction names generalizing t place with
  | nil =>
    obtain rfl := Except.ok.inj made
    simpa using start
  | cons name rest ih =>
    have next : place ++ name :: rest = place ++ [name] ++ rest := by simp
    rw [next]
    unfold makePath at made
    split at made
    · refine ih ?_ made
      rw [node?_set (by simp)]
      simp [View.directory, Node.isDirectory]
    · rename_i node found
      split at made
      · rename_i isDirectory
        exact ih (by simp [View.directory, found, isDirectory]) made
      · cases made

theorem createDirectories_spec {t u : FileTree} {place : Place}
    (made : createDirectories t place = .ok u) :
    Extends t.node? u.node? place ∧ View.directory u.node? place := by
  unfold createDirectories at made
  split at made
  · rename_i there
    obtain rfl := Except.ok.inj made
    exact ⟨.refl .., there⟩
  · exact ⟨by simpa using makePath_spec made,
      by simpa using makePath_directory (View.directory_root t) made⟩

/-- Nothing changes but at some places, and directories stay. -/
structure Change (within : Place → Prop) (v w : View) : Prop where
  elsewhere : ∀ q, ¬ within q → w q = v q
  directories : ∀ q, v.directory q → w.directory q

theorem Change.refl (within : Place → Prop) (v : View) : Change within v v :=
  ⟨fun _ _ => rfl, fun _ h => h⟩

theorem Change.trans {within : Place → Prop} {u v w : View} (h : Change within u v)
    (k : Change within v w) : Change within u w :=
  ⟨fun q outside => (k.elsewhere q outside).trans (h.elsewhere q outside),
    fun q there => k.directories q (h.directories q there)⟩

theorem Change.mono {within around : Place → Prop} {v w : View} (h : Change within v w)
    (inside : ∀ q, within q → around q) : Change around v w :=
  ⟨fun q outside => h.elsewhere q fun found => outside (inside q found), h.directories⟩

/-- A file that comes, changes or goes. -/
theorem Change.put {within : Place → Prop} {v : View} {place : Place} {node : Option Node}
    (inside : within place) (before : v.directory place = false)
    (after : node.any Node.isDirectory = false) : Change within v (v.put place node) where
  elsewhere := fun q outside => View.put_other fun same => outside (same ▸ inside)
  directories := fun q there => by rwa [View.directory_put before after]

theorem Extends.change {v w : View} {place : Place} (h : Extends v w place) :
    Change (fun q => q <+: place ∧ v q = none) v w where
  elsewhere := by
    intro q outside
    by_cases same : w q = v q
    · exact same
    · refine absurd ⟨(h.new q same).1, ?_⟩ outside
      by_cases there : v q = none
      · exact there
      · exact absurd (h.kept q there) same
  directories := by
    intro q there
    have some : v q ≠ none := by
      intro none
      simp [View.directory, none] at there
    rwa [View.directory, h.kept q some]

theorem remove_ok {t : FileTree} {place : Place} {node : Node} (there : t.node? place = some node)
    (file : node.isDirectory = false) :
    ∃ u, remove t place = .ok u ∧ u.node? = View.put t.node? place none := by
  have named : place ≠ [] := by
    rintro rfl
    obtain rfl : Node.directory = node := by simpa using there
    cases file
  exact ⟨_, by simp [remove, there, file], node?_erase named⟩

theorem write_change {t u : FileTree} {place : Place} {content : Bytes}
    (written : write t place content = .ok u) : Change (· = place) t.node? u.node? := by
  obtain ⟨free, view⟩ := write_view written
  rw [view]
  exact .put rfl (View.writable_iff.mp free).1 rfl

theorem copy_change {t u : FileTree} {source target : Place} (copied : copy t source target = .ok u) :
    Change (· = target) t.node? u.node? := by
  obtain ⟨content, -, written⟩ := copy_written copied
  exact write_change written

theorem remove_change {t u : FileTree} {place : Place} (removed : remove t place = .ok u) :
    Change (· = place) t.node? u.node? ∧ u.node? place = none := by
  obtain ⟨file, view⟩ := remove_view removed
  rw [view]
  exact ⟨.put rfl file rfl, View.put_self ..⟩

/-- Where there is no directory, a file is there after a touch, unless it cannot be made. -/
theorem touch_spec {t : FileTree} {place : Place} (plain : View.directory t.node? place = false) :
    (∃ u, touch t place = .ok u ∧ Trees.exists u place ∧ View.directory u.node? place = false) ∨
      (∃ cause, touch t place = .error cause) ∧ View.writable t.node? place = false := by
  unfold touch
  split
  · rename_i there
    simp only [Bool.and_eq_true] at there
    exact .inl ⟨t, rfl, there.1, plain⟩
  · cases free : View.writable t.node? place with
    | true =>
      obtain ⟨u, written, view⟩ := write_ok [] free
      refine .inl ⟨u, written, ?_, ?_⟩
      · rw [Trees.exists, view, View.put_self]
        rfl
      · rw [View.directory, view, View.put_self]
        rfl
    | false => exact .inr ⟨⟨_, write_error [] free⟩, rfl⟩

/-- Where there is no directory, nothing is there after a removal. -/
theorem remove_spec {t : FileTree} {place : Place} (plain : View.directory t.node? place = false) :
    (∃ u, remove t place = .ok u ∧ Change (· = place) t.node? u.node? ∧ u.node? place = none) ∨
      ∃ cause : Failure, remove t place = .error cause ∧ cause.isMissing ∧ t.node? place = none := by
  cases found : t.node? place with
  | none =>
    refine .inr ⟨.system .noEntry, ?_, by decide, rfl⟩
    rw [remove, found]
  | some node =>
    have file : node.isDirectory = false := by simpa [View.directory, found] using plain
    obtain ⟨u, removed, view⟩ := remove_ok found file
    obtain ⟨change, gone⟩ := remove_change removed
    exact .inl ⟨u, removed, change, gone⟩

/-- Nothing is left below a place that is removed with all below it. -/
theorem removeTree_below {t u : FileTree} {place q : Place}
    (removed : removeTree t place = .ok u) (below : place <+: q) (named : q ≠ []) :
    u.node? q = none := by
  rw [← removeTree_prune removed, FileTree.node?, if_neg named, FileTree.prune,
    lookup_filter t.nodes (fun there => !place.isPrefixOf there) q]
  have gone : place.isPrefixOf q = true := List.isPrefixOf_iff_prefix.mpr below
  simp [gone]

theorem rename_ok {t : FileTree} {source target : Place} {content : Bytes} {executable : Bool}
    (there : t.node? source = some (.file content executable))
    (free : View.writable t.node? target) :
    ∃ u, rename t source target = .ok u ∧
      u.node? = (View.put t.node? source none).put target (some (.file content false)) := by
  have named : source ≠ [] := by
    rintro rfl
    cases there
  refine ⟨(t.erase source).set target (.file content false), ?_, ?_⟩
  · rw [rename, read_ok there]
    exact if_pos free
  · rw [node?_set (ne_root_of_writable free), node?_erase named]

end BugHunt.Proofs.Trees
