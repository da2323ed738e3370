import BugHunt.Proofs.Anchoring
import BugHunt.Proofs.FailedStores
import BugHunt.Proofs.FanOut
import BugHunt.Proofs.Grounds
import BugHunt.Proofs.Tallying
import Mathlib
/-!
What a search of roots comes upon: every regular file with the suffix of a program that readable
directories lead down to, once for each root that it lies below. Links below a root lead nowhere, and
what cannot be read hides only what lies beneath it.
-/

namespace BugHunt.Proofs.Discovery
open AbsoluteForms Anchoring Asking FileTree Names Trees

variable {t : FileTree} {here start place : Place} {root path : Path} {names : List Bytes}

/-- A tree with one entry at each place, all of whose names can be names. -/
structure Sound (t : FileTree) : Prop where
  single : (t.nodes.map Prod.fst).Nodup
  busy : ∀ entry ∈ t.nodes, ∀ name ∈ entry.1, Busy name

theorem Sound.node_iff (sound : Sound t) {node : Node} (named : place ≠ []) :
    t.node? place = some node ↔ (place, node) ∈ t.nodes := by
  have single := sound.single
  rw [FileTree.node?, if_neg named]
  generalize t.nodes = nodes at single
  induction nodes with
  | nil => simp
  | cons entry rest ih =>
    obtain ⟨there, other⟩ := entry
    rw [List.map_cons, List.nodup_cons] at single
    rw [lookup_cons_ite, List.mem_cons, Prod.mk.injEq]
    by_cases same : place = there
    · subst same
      have none (node : Node) : (place, node) ∉ rest :=
        fun among => single.1 (List.mem_map.mpr ⟨_, among, rfl⟩)
      simp [none, eq_comm]
    · simp [same, ih single.2]

theorem mem_children_iff {name : Bytes} {node : Node} :
    (name, node) ∈ t.children place ↔ (place ++ [name], node) ∈ t.nodes := by
  rw [FileTree.children, List.mem_filterMap]
  constructor
  · rintro ⟨⟨there, other⟩, among, found⟩
    simp only at found
    split at found
    · split at found
      · rename_i same
        obtain ⟨rfl, rfl⟩ := Prod.mk.inj (Option.some.inj found)
        rwa [← same]
      · cases found
    · cases found
  · intro among
    exact ⟨_, among, by simp⟩

theorem Sound.child_iff (sound : Sound t) {name : Bytes} {node : Node} :
    (name, node) ∈ t.children place ↔ t.node? (place ++ [name]) = some node := by
  rw [mem_children_iff, sound.node_iff (by simp)]

theorem Sound.child_busy (sound : Sound t) {name : Bytes} {node : Node}
    (child : (name, node) ∈ t.children place) : Busy name :=
  sound.busy _ (mem_children_iff.mp child) name (by simp)

/-- The children of a directory have names of their own. -/
theorem Sound.children_apart (sound : Sound t) (place : Place) :
    (t.children place).Pairwise fun a b => a.1 ≠ b.1 := by
  have single := List.pairwise_map.mp sound.single
  rw [FileTree.children, List.pairwise_filterMap]
  apply single.imp
  rintro ⟨there, node⟩ ⟨other, node'⟩ apart ⟨name, found⟩ isName ⟨name', found'⟩ isName' rfl
  have named : (name, found) ∈ (FileTree.mk [(there, node)]).children place :=
    List.mem_filterMap.mpr ⟨_, List.mem_singleton_self _, isName⟩
  have named' : (name, found') ∈ (FileTree.mk [(other, node')]).children place :=
    List.mem_filterMap.mpr ⟨_, List.mem_singleton_self _, isName'⟩
  rw [mem_children_iff, List.mem_singleton] at named named'
  exact apart ((Prod.mk.inj named).1.symm.trans (Prod.mk.inj named').1)

/-! ## Ways down -/

/-- Whether readable directories lead from a place down to something, by the names given. -/
structure LeadsDown (t : FileTree) (start : Place) (names : List Bytes) : Prop where
  listed : ∀ above name below, names = above ++ name :: below →
    t.node? (start ++ above) = some .directory
  there : t.node? (start ++ names) ≠ none

def IsFile (t : FileTree) (place : Place) : Prop :=
  ∃ content executable, t.node? place = some (.file content executable)

/-- How a search from a root shows what lies below it. -/
def shown (root : Path) (names : List Bytes) : Path :=
  names.foldl (fun path name => path.join ⟨name⟩) root

theorem leadsDown_nil : LeadsDown t start [] ↔ t.node? start ≠ none := by
  constructor
  · intro leads
    simpa using leads.there
  · intro there
    exact ⟨by simp, by simpa using there⟩

theorem leadsDown_cons {name : Bytes} : LeadsDown t start (name :: names) ↔
    t.node? start = some .directory ∧ LeadsDown t (start ++ [name]) names := by
  constructor
  · intro leads
    refine ⟨by simpa using leads.listed [] name names rfl, ⟨?_, by simpa using leads.there⟩⟩
    intro above next below split
    simpa using leads.listed (name :: above) next below (by rw [split]; rfl)
  · rintro ⟨isDirectory, leads⟩
    refine ⟨?_, by simpa using leads.there⟩
    intro above next below split
    cases above with
    | nil => simpa using isDirectory
    | cons first above =>
      obtain ⟨rfl, rest⟩ := List.cons.inj split
      simpa using leads.listed above next below rest

/-- Something stands at every step of a way down. -/
theorem LeadsDown.steps (leads : LeadsDown t start names) {n : Nat} (small : n ≤ names.length) :
    t.node? (start ++ names.take n) ≠ none := by
  rcases Nat.lt_or_eq_of_le small with before | rfl
  · have isDirectory := leads.listed (names.take n) names[n] (names.drop (n + 1)) (by simp)
    simp [isDirectory]
  · simpa using leads.there

/-- A way down is not longer than the tree is large. -/
theorem LeadsDown.length_le (leads : LeadsDown t start names) : names.length ≤ t.nodes.length := by
  let steps := (List.range names.length).map fun n => start ++ names.take (n + 1)
  have apart : steps.Nodup := by
    refine List.Nodup.map_on ?_ List.nodup_range
    intro n small m small' same
    have lengths := congrArg List.length same
    simp only [List.mem_range] at small small'
    simp only [List.length_append, List.length_take] at lengths
    omega
  have inside : steps ⊆ t.nodes.map Prod.fst := by
    intro q found
    obtain ⟨n, small, rfl⟩ := List.mem_map.mp found
    rw [List.mem_range] at small
    rcases Growth.mem_nodes (leads.steps small) with root | ⟨node, among⟩
    · have lengths := congrArg List.length root
      simp only [List.length_append, List.length_take, List.length_nil] at lengths
      omega
    · exact List.mem_map_of_mem among
  have bound := (List.subperm_of_subset apart inside).length_le
  simpa [steps] using bound

/-- The names of a way down are names. -/
theorem Sound.names_busy (sound : Sound t) (leads : LeadsDown t start names) :
    ∀ name ∈ names, Busy name := by
  rcases Growth.mem_nodes leads.there with root | ⟨node, among⟩
  · simp [(List.append_eq_nil_iff.mp root).2]
  · intro name found
    exact sound.busy _ among name (List.mem_append_right _ found)

theorem names_shown (busy : ∀ name ∈ names, Busy name) :
    AbsoluteForms.names (shown root names) = AbsoluteForms.names root ++ names := by
  induction names generalizing root with
  | nil => simp [shown]
  | cons name rest ih =>
    rw [List.forall_mem_cons] at busy
    have more := @ih (root.join ⟨name⟩) busy.2
    rw [names_join busy.1.relative, AbsoluteForms.names_busy busy.1] at more
    simpa [shown] using more

/-- What lies below one root is told apart by how it is shown. -/
theorem shown_inj {others : List Bytes} (busy : ∀ name ∈ names, Busy name)
    (busy' : ∀ name ∈ others, Busy name) (same : shown root names = shown root others) :
    names = others := by
  have both := congrArg AbsoluteForms.names same
  rw [names_shown busy, names_shown busy'] at both
  exact List.append_cancel_left both

/-! ## The search below a place -/

/-- What a search of depth `depth` from a place is to come upon: the files that ways down lead to. -/
def Below (t : FileTree) (place : Place) (path : Path) (depth : Nat) (p : Path) : Prop :=
  ∃ names, names.length ≤ depth ∧ LeadsDown t place names ∧ IsFile t (place ++ names) ∧
    p = shown path names

variable {node : Node} {depth : Nat} {p : Path}

/-- No way leads down from what is no readable directory. -/
theorem below_of_other (isNode : t.node? place = some node) (other : node ≠ .directory) :
    Below t place path depth p ↔ IsFile t place ∧ p = path := by
  constructor
  · rintro ⟨names, -, leads, isFile, rfl⟩
    cases names with
    | nil => exact ⟨by simpa using isFile, rfl⟩
    | cons name names =>
      have isDirectory := (leadsDown_cons.mp leads).1
      rw [isNode, Option.some.injEq] at isDirectory
      exact absurd isDirectory other
  · rintro ⟨isFile, rfl⟩
    exact ⟨[], Nat.zero_le _, leadsDown_nil.mpr (by simp [isNode]), by simpa using isFile, rfl⟩

/-- From a directory a way leads down over one of its entries. -/
theorem below_of_directory (isNode : t.node? place = some .directory) :
    Below t place path (depth + 1) p ↔
      ∃ name, t.node? (place ++ [name]) ≠ none ∧
        Below t (place ++ [name]) (path.join ⟨name⟩) depth p := by
  constructor
  · rintro ⟨names, short, leads, isFile, rfl⟩
    cases names with
    | nil =>
      obtain ⟨content, executable, found⟩ := isFile
      simp [isNode] at found
    | cons name names =>
      have down := (leadsDown_cons.mp leads).2
      refine ⟨name, by simpa using down.steps (Nat.zero_le _), names,
        Nat.le_of_succ_le_succ short, down, by simpa using isFile, rfl⟩
  · rintro ⟨name, -, names, short, down, isFile, rfl⟩
    exact ⟨name :: names, Nat.succ_le_succ short, leadsDown_cons.mpr ⟨isNode, down⟩,
      by simpa using isFile, rfl⟩

theorem not_below_directory (isNode : t.node? place = some .directory) :
    ¬ Below t place path 0 p := by
  rintro ⟨names, short, -, ⟨content, executable, found⟩, -⟩
  obtain rfl := List.eq_nil_of_length_eq_zero (Nat.le_zero.mp short)
  simp [isNode] at found

/-- What is no readable directory is found itself, if it is a file. -/
theorem mem_searchEntry_other (isNode : t.node? place = some node) (other : node ≠ .directory) :
    .file p ∈ t.searchEntry place path node depth ↔ IsFile t place ∧ p = path := by
  cases node <;> simp_all [FileTree.searchEntry, IsFile]

/-- A search finds just the files that ways down lead to. -/
theorem mem_searchEntry_iff (sound : Sound t) (isNode : t.node? place = some node) :
    .file p ∈ t.searchEntry place path node depth ↔ Below t place path depth p := by
  induction depth generalizing place path node with
  | zero =>
    by_cases other : node = .directory
    · subst other
      simp [FileTree.searchEntry, FileTree.searchDirectory, not_below_directory isNode]
    · rw [mem_searchEntry_other isNode other, below_of_other isNode other]
  | succ depth ih =>
    by_cases other : node = .directory
    · subst other
      rw [below_of_directory isNode, FileTree.searchEntry, FileTree.searchDirectory,
        List.mem_flatMap]
      constructor
      · rintro ⟨⟨name, child⟩, among, found⟩
        have isChild := sound.child_iff.mp among
        exact ⟨name, by simp [isChild], (ih isChild).mp found⟩
      · rintro ⟨name, there, below⟩
        obtain ⟨child, isChild⟩ := Option.ne_none_iff_exists'.mp there
        exact ⟨(name, child), sound.child_iff.mpr isChild, (ih isChild).mpr below⟩
    · rw [mem_searchEntry_other isNode other, below_of_other isNode other]

/-- Whether two things found are not one file. -/
def Apart (a b : Found) : Prop := ∀ p, a = .file p → b ≠ .file p

/-- A search comes upon no file twice. -/
theorem searchEntry_apart (sound : Sound t) (isNode : t.node? place = some node) :
    (t.searchEntry place path node depth).Pairwise Apart := by
  induction depth generalizing place path node with
  | zero => cases node <;> simp [FileTree.searchEntry, FileTree.searchDirectory]
  | succ depth ih =>
    cases node with
    | directory =>
      rw [FileTree.searchEntry, FileTree.searchDirectory, List.pairwise_flatMap]
      constructor
      · rintro ⟨name, child⟩ among
        exact ih (sound.child_iff.mp among)
      · refine List.Pairwise.imp_of_mem ?_ (sound.children_apart place)
        rintro ⟨name, child⟩ ⟨other, child'⟩ among among' apart found inFound found' inFound' p rfl rfl
        obtain ⟨names, -, leads, -, rfl⟩ :=
          (mem_searchEntry_iff sound (sound.child_iff.mp among)).mp inFound
        obtain ⟨others, -, leads', -, same⟩ :=
          (mem_searchEntry_iff sound (sound.child_iff.mp among')).mp inFound'
        -- Files below two entries are shown by paths that part with the names of the entries.
        have busy := List.forall_mem_cons.mpr ⟨sound.child_busy among, sound.names_busy leads⟩
        have busy' := List.forall_mem_cons.mpr ⟨sound.child_busy among', sound.names_busy leads'⟩
        exact apart (List.cons.inj (@shown_inj path _ _ busy busy' same)).1
    | _ => simp [FileTree.searchEntry]

/-! ## Roots -/

/-- Where a search begins: where its root leads to. Links on the way are followed; a root that is a
link itself is followed only to a directory. A path with a zero byte leads nowhere. -/
inductive Begins (t : FileTree) (here : Place) (root : Path) : Place → Prop
  | real {start : Place} {node : Node} (clean : Machine.hasNul root = false)
    (found : t.existing here root false = .ok (start, node)) (noLink : ∀ target, node ≠ .link target) :
    Begins t here root start
  | linked {place start : Place} {target : Path} {node : Node} (clean : Machine.hasNul root = false)
    (isLink : t.existing here root false = .ok (place, .link target))
    (found : t.existing here root true = .ok (start, node)) (isDirectory : node.isDirectory) :
    Begins t here root start

theorem Begins.unique {other : Place} (begins : Begins t here root start)
    (also : Begins t here root other) : start = other := by
  cases begins with
  | real clean found noLink =>
    cases also with
    | real clean found' noLink' =>
      rw [found] at found'
      exact (Prod.mk.inj (Except.ok.inj found')).1
    | linked clean isLink found' isDirectory =>
      rw [found] at isLink
      exact absurd (Prod.mk.inj (Except.ok.inj isLink)).2 (noLink _)
  | linked clean isLink found isDirectory =>
    cases also with
    | real clean found' noLink' =>
      rw [isLink] at found'
      exact absurd (Prod.mk.inj (Except.ok.inj found')).2.symm (noLink' _)
    | linked clean isLink' found' isDirectory' =>
      rw [found] at found'
      exact (Prod.mk.inj (Except.ok.inj found')).1

theorem existing_node {followLast : Bool} (found : t.existing here root followLast = .ok (place, node)) :
    t.node? place = some node := by
  unfold FileTree.existing at found
  cases sought : t.find here root followLast with
  | error e => simp [sought, bind, Except.bind] at found
  | ok target =>
    have isNode := Grounds.find_node sought
    simp only [sought, bind, Except.bind] at found
    split at found
    · rename_i there
      obtain ⟨rfl, rfl⟩ := Prod.mk.inj (Except.ok.inj found)
      rw [← isNode, there]
    · cases found

/-- What a host comes upon that searches its tree from a root. -/
def upon (t : FileTree) (here : Place) (root : Path) : List Found :=
  if Machine.hasNul root then [.unreadable root .invalid] else t.search here root

/-- A search comes upon what lies where it begins; one that begins nowhere comes upon nothing, but
may complain of its root. -/
theorem upon_cases (t : FileTree) (here : Place) (root : Path) :
    (∃ start node, Begins t here root start ∧ t.node? start = some node ∧
      upon t here root = t.searchEntry start root node (t.nodes.length + 1)) ∨
    (∀ start, ¬ Begins t here root start) ∧
      (upon t here root = [] ∨ ∃ errno, upon t here root = [.unreadable root errno]) := by
  unfold upon
  cases clean : Machine.hasNul root with
  | true =>
    refine .inr ⟨?_, .inr ⟨_, rfl⟩⟩
    intro start begins
    cases begins <;> simp_all
  | false =>
    rw [if_neg (by simp), FileTree.search]
    cases found : t.existing here root false with
    | error errno =>
      refine .inr ⟨?_, .inr ⟨_, rfl⟩⟩
      intro start begins
      cases begins <;> simp_all
    | ok entry =>
      obtain ⟨place, node⟩ := entry
      by_cases isLink : ∃ target, node = .link target
      · obtain ⟨target, rfl⟩ := isLink
        cases behind : t.existing here root true with
        | error errno =>
          refine .inr ⟨?_, .inr ⟨_, rfl⟩⟩
          intro start begins
          cases begins <;> simp_all
        | ok entry =>
          obtain ⟨start, node⟩ := entry
          by_cases isDirectory : node.isDirectory
          · refine .inl ⟨start, node, .linked clean found behind isDirectory, existing_node behind, ?_⟩
            simp [isDirectory]
          · refine .inr ⟨?_, .inl (by simp [isDirectory])⟩
            intro start begins
            cases begins <;> simp_all
      · have noLink (target : Path) : node ≠ .link target := fun same => isLink ⟨target, same⟩
        refine .inl ⟨place, node, .real clean found noLink, existing_node found, ?_⟩
        cases node with
        | link target => exact absurd rfl (noLink target)
        | _ => rfl

/-- Whether a search of a root is to come upon the file at a place, and the path that it is shown as:
readable directories lead down to it from where the search begins. -/
def Comes (t : FileTree) (here : Place) (root : Path) (place : Place) (p : Path) : Prop :=
  ∃ start names, Begins t here root start ∧ LeadsDown t start names ∧ place = start ++ names ∧
    IsFile t place ∧ p = shown root names

theorem mem_upon_iff (sound : Sound t) :
    .file p ∈ upon t here root ↔ ∃ place, Comes t here root place p := by
  rcases upon_cases t here root with ⟨start, node, begins, isNode, found⟩ | ⟨nowhere, found⟩
  · rw [found, mem_searchEntry_iff sound isNode]
    constructor
    · rintro ⟨names, -, leads, isFile, shows⟩
      exact ⟨_, start, names, begins, leads, rfl, isFile, shows⟩
    · rintro ⟨_, other, names, begins', leads, rfl, isFile, shows⟩
      obtain rfl := begins.unique begins'
      -- The depth of a search cuts no way short.
      exact ⟨names, Nat.le_succ_of_le leads.length_le, leads, isFile, shows⟩
  · constructor
    · intro among
      rcases found with found | ⟨errno, found⟩ <;> simp [found] at among
    · rintro ⟨_, start, names, begins, -⟩
      exact absurd begins (nowhere start)

/-- A machine with a tree that holds a cyclic link, a link to nothing and a directory that cannot be
listed. -/
def wood : Machine where
  tree := ⟨[([utf8 "w"], .directory), ([utf8 "w", utf8 "a.c"], .file [] false),
    ([utf8 "w", utf8 "loop"], .link "/w"), ([utf8 "w", utf8 "gone.c"], .link "none"),
    ([utf8 "w", utf8 "in"], .directory), ([utf8 "w", utf8 "in", utf8 "b.ll"], .file [] false),
    ([utf8 "w", utf8 "in", utf8 "b.txt"], .file [] false),
    ([utf8 "w", utf8 "shut"], .locked), ([utf8 "w", utf8 "shut", utf8 "c.c"], .file [] false)]⟩
  here := []
  temporary := "t"
  environment := []

example : upon wood.tree [] "w" =
    [.file "w/a.c", .file "w/in/b.ll", .file "w/in/b.txt", .unreadable "w/shut" .denied] := by
  cbv

theorem upon_apart (sound : Sound t) : (upon t here root).Pairwise Apart := by
  rcases upon_cases t here root with ⟨start, node, -, isNode, found⟩ | ⟨-, found | ⟨errno, found⟩⟩
  · rw [found]
    exact searchEntry_apart sound isNode
  · simp [found]
  · simp [found]

/-- The files of one search and the paths that they are shown as go together. -/
theorem Comes.place_eq_iff (sound : Sound t) {place' : Place} {p' : Path}
    (comes : Comes t here root place p) (comes' : Comes t here root place' p') :
    p = p' ↔ place = place' := by
  obtain ⟨start, names, begins, leads, rfl, isFile, rfl⟩ := comes
  obtain ⟨start', names', begins', leads', rfl, isFile', rfl⟩ := comes'
  obtain rfl := begins.unique begins'
  constructor
  · intro same
    rw [shown_inj (sound.names_busy leads) (sound.names_busy leads') same]
  · intro same
    rw [List.append_cancel_left same]

/-! ## Programs -/

/-- The suffixes of the names of programs. -/
def suffixes : List String := ["c", "cpp", "C", "ll", "bc"]

def HasSuffix (p : Path) : Prop := ∃ suffix ∈ suffixes, p.extension? = some (utf8 suffix)

theorem ofExtension_isSome_iff {text : String} :
    (Kind.ofExtension? text).isSome ↔ text ∈ suffixes := by
  have firsts : programKinds.map Prod.fst = suffixes := rfl
  rw [← firsts, Option.isSome_iff_exists]
  simp [ofExtension?_eq_some]

theorem ofPath_isSome_iff : (Kind.ofPath? p).isSome ↔ HasSuffix p := by
  have ascii : ∀ suffix ∈ suffixes, suffix.toList.all (·.toNat < 0x80) := by decide
  have isAscii (suffix : String) (among : suffix ∈ suffixes) :
      ∀ c ∈ suffix.toList, c.toNat < 0x80 := by
    simpa using List.all_eq_true.mp (ascii suffix among)
  unfold Kind.ofPath? HasSuffix
  constructor
  · intro known
    obtain ⟨kind, isKind⟩ := Option.isSome_iff_exists.mp known
    obtain ⟨extension, isExtension, rest⟩ := Option.bind_eq_some_iff.mp isKind
    obtain ⟨text, decoded, isKind⟩ := Option.bind_eq_some_iff.mp rest
    have among := ofExtension_isSome_iff.mp (Option.isSome_iff_exists.mpr ⟨kind, isKind⟩)
    exact ⟨text, among, by rw [isExtension, Texts.eq_utf8_of_decode (isAscii text among) decoded]⟩
  · rintro ⟨suffix, among, isExtension⟩
    simpa [isExtension, Texts.decode?_utf8] using ofExtension_isSome_iff.mpr among

theorem ofPath_eq_some_iff {a : Artifact} : Artifact.ofPath? p = some a ↔ p = a.path := by
  constructor
  · exact Tallying.path_of_ofPath?
  · rintro rfl
    exact Tallying.ofPath?_path a

theorem artifact_eq_some_iff {a : Artifact} {found : Found} :
    found.artifact? = some a ↔ found = .file a.path := by
  cases found <;> simp [Found.artifact?, ofPath_eq_some_iff]

/-! ## Directories that cannot be listed -/

/-- A tree in which a directory cannot be listed any more. -/
def lock (t : FileTree) (q : Place) : FileTree := t.set q .locked

/-- Whether the place of a directory is one below the root, which cannot be locked. -/
structure Lockable (t : FileTree) (q : Place) : Prop where
  named : q ≠ []
  isDirectory : t.node? q = some .directory

section Locking

variable {q : Place}

theorem Lockable.node? (lockable : Lockable t q) (place : Place) :
    (lock t q).node? place = if place = q then some .locked else t.node? place :=
  congrFun (node?_set lockable.named) place

theorem Lockable.isDirectoryAt (lockable : Lockable t q) (place : Place) :
    (lock t q).isDirectoryAt place = t.isDirectoryAt place := by
  unfold FileTree.isDirectoryAt
  rw [lockable.node?]
  split
  · rename_i same
    rw [same, lockable.isDirectory]
    rfl
  · rfl

/-- The way through a locked directory stays open. -/
theorem Lockable.walk (lockable : Lockable t q) (followLast : Bool) (links : Nat) (here : Place)
    (ps : List Bytes) : (lock t q).walk followLast links here ps =
      (t.walk followLast links here ps).map fun target =>
        ⟨target.place, (lock t q).node? target.place⟩ := by
  have directories := lockable.isDirectoryAt
  have others := lockable.node?
  have isDirectory := lockable.isDirectory
  fun_induction FileTree.walk t followLast links here ps <;> rw [FileTree.walk] <;>
    grind [Except.map]

theorem Lockable.find (lockable : Lockable t q) (p : Path) (followLast : Bool) :
    (lock t q).find here p followLast = (t.find here p followLast).map fun target =>
      ⟨target.place, (lock t q).node? target.place⟩ := by
  unfold FileTree.find
  split
  · rfl
  · split
    · rfl
    · exact lockable.walk followLast _ _ _

/-- A path leads where it led, to a link if it led to one and to a directory if it led to one. -/
theorem Lockable.existing_iff (lockable : Lockable t q) {p : Path} {followLast : Bool} {node : Node} :
    (lock t q).existing here p followLast = .ok (place, node) ↔
      ∃ before, t.existing here p followLast = .ok (place, before) ∧
        node = if place = q then .locked else before := by
  unfold FileTree.existing
  rw [lockable.find]
  cases found : t.find here p followLast with
  | error errno => simp [bind, Except.bind, Except.map]
  | ok target =>
    have isNode := Grounds.find_node found
    have isDirectory := lockable.isDirectory
    simp only [bind, Except.bind, Except.map, lockable.node?, isNode]
    cases there : t.node? target.place with
    | none => grind
    | some before => grind

theorem Lockable.alike (lockable : Lockable t q) {p : Path} {followLast : Bool} {before : Node}
    (found : t.existing here p followLast = .ok (place, before)) :
    (∀ target, (if place = q then .locked else before) = .link target ↔ before = .link target) ∧
      (if place = q then .locked else before).isDirectory = before.isDirectory := by
  have isNode := existing_node found
  split
  · rename_i same
    rw [same, lockable.isDirectory, Option.some.injEq] at isNode
    simp [← isNode, Node.isDirectory]
  · simp

/-- A search begins where it began. -/
theorem Lockable.begins_iff (lockable : Lockable t q) :
    Begins (lock t q) here root start ↔ Begins t here root start := by
  constructor
  · intro begins
    cases begins with
    | real clean found noLink =>
      obtain ⟨before, led, rfl⟩ := lockable.existing_iff.mp found
      have alike := lockable.alike led
      exact .real clean led fun target isLink => noLink target ((alike.1 target).mpr isLink)
    | linked clean isLink found isDirectory =>
      obtain ⟨before, led, same⟩ := lockable.existing_iff.mp isLink
      obtain ⟨behind, ledOn, rfl⟩ := lockable.existing_iff.mp found
      obtain rfl := ((lockable.alike led).1 _).mp same.symm
      exact .linked clean led ledOn ((lockable.alike ledOn).2 ▸ isDirectory)
  · intro begins
    cases begins with
    | real clean found noLink =>
      have alike := lockable.alike found
      exact .real clean (lockable.existing_iff.mpr ⟨_, found, rfl⟩) fun target isLink =>
        noLink target ((alike.1 target).mp isLink)
    | linked clean isLink found isDirectory =>
      have same := ((lockable.alike isLink).1 _).mpr rfl
      exact .linked clean (lockable.existing_iff.mpr ⟨_, isLink, same.symm⟩)
        (lockable.existing_iff.mpr ⟨_, found, rfl⟩) ((lockable.alike found).2.symm ▸ isDirectory)

theorem Lockable.isFile_iff (lockable : Lockable t q) : IsFile (lock t q) place ↔ IsFile t place := by
  unfold IsFile
  rw [lockable.node?]
  split
  · rename_i same
    simp [same, lockable.isDirectory]
  · rfl

/-- The ways down that stay open are those that do not pass the locked directory. -/
theorem Lockable.leadsDown_iff (lockable : Lockable t q) :
    LeadsDown (lock t q) start names ↔
      LeadsDown t start names ∧ ∀ above name below, names = above ++ name :: below →
        start ++ above ≠ q := by
  have listed (place : Place) : (lock t q).node? place = some .directory ↔
      t.node? place = some .directory ∧ place ≠ q := by
    rw [lockable.node?]
    split <;> simp_all
  have there (place : Place) : (lock t q).node? place ≠ none ↔ t.node? place ≠ none := by
    rw [lockable.node?]
    split
    · rename_i same
      simp [same, lockable.isDirectory]
    · rfl
  constructor
  · intro leads
    refine ⟨⟨?_, (there _).mp leads.there⟩, ?_⟩
    · intro above name below split
      exact ((listed _).mp (leads.listed above name below split)).1
    · intro above name below split
      exact ((listed _).mp (leads.listed above name below split)).2
  · rintro ⟨leads, passes⟩
    refine ⟨?_, (there _).mpr leads.there⟩
    intro above name below split
    exact (listed _).mpr ⟨leads.listed above name below split, passes above name below split⟩

/-- Whether the way of a search down to a place passes a directory. -/
def Passes (t : FileTree) (here : Place) (root : Path) (place q : Place) : Prop :=
  ∃ start, Begins t here root start ∧ start <+: q ∧ q <+: place

/-- Of what a search was to come upon, only what lies beneath the locked directory is lost. -/
theorem Lockable.comes_iff (lockable : Lockable t q) :
    Comes (lock t q) here root place p ↔
      Comes t here root place p ∧ ¬ Passes t here root place q := by
  constructor
  · rintro ⟨start, names, begins, leads, rfl, isFile, rfl⟩
    rw [lockable.begins_iff] at begins
    rw [lockable.isFile_iff] at isFile
    obtain ⟨leads, free⟩ := lockable.leadsDown_iff.mp leads
    refine ⟨⟨start, names, begins, leads, rfl, isFile, rfl⟩, ?_⟩
    rintro ⟨other, begins', ⟨above, rfl⟩, ⟨below, same⟩⟩
    obtain rfl := begins.unique begins'
    rw [List.append_assoc, List.append_cancel_left_eq] at same
    cases below with
    | nil =>
      obtain ⟨content, executable, isFile⟩ := isFile
      rw [← same, List.append_nil, lockable.isDirectory] at isFile
      cases isFile
    | cons name below => exact free above name below same.symm rfl
  · rintro ⟨⟨start, names, begins, leads, rfl, isFile, rfl⟩, free⟩
    refine ⟨start, names, lockable.begins_iff.mpr begins, lockable.leadsDown_iff.mpr ⟨leads, ?_⟩, rfl,
      lockable.isFile_iff.mpr isFile, rfl⟩
    rintro above name below rfl rfl
    exact free ⟨start, begins, List.prefix_append _ _, name :: below, by simp⟩

theorem Lockable.sound (lockable : Lockable t q) (sound : Sound t) : Sound (lock t q) := by
  have there : (t.nodes.lookup q).isSome := by
    have isDirectory := lockable.isDirectory
    rw [FileTree.node?, if_neg lockable.named] at isDirectory
    simp [isDirectory]
  have places : (lock t q).nodes.map Prod.fst = t.nodes.map Prod.fst := by
    rw [lock, FileTree.set, if_pos there, List.map_map]
    refine List.map_congr_left fun entry _ => ?_
    by_cases same : entry.1 = q <;> simp [same]
  constructor
  case single => rw [places]; exact sound.single
  case busy =>
    intro entry among
    have inside := List.mem_map_of_mem (f := Prod.fst) among
    rw [places] at inside
    obtain ⟨other, among', same⟩ := List.mem_map.mp inside
    rw [← same]
    exact sound.busy other among'

end Locking

/-! ## Runs -/

/-- Whether a machine on which no process runs has a tree and stands at a place in it. -/
structure Shows (t : FileTree) (here : Place) (m : Machine) : Prop where
  tree : m.tree = t
  here : m.here = here
  idle : m.processes = []

variable {m : Machine}

theorem Shows.search (shows : Shows t here m) (root : Path) :
    ∃ m', Machine.host (.search root) m = (upon t here root, m') ∧ Shows t here m' := by
  obtain ⟨rfl, rfl, idle⟩ := shows
  refine ⟨m.spend 10, ?_, ?_⟩
  · change ((if Machine.hasNul root then _ else _ : List Found), m.spend 10) = _
    rw [FailedStores.spend_idle idle]
    rfl
  · rw [FailedStores.spend_idle idle]
    exact ⟨rfl, rfl, idle⟩

theorem Shows.complain (shows : Shows t here m) (found : List Found) :
    Shows t here ((Pool.complain found).run Machine.host m).2 := by
  refine (FanOut.asks_complain found).run (fun r m warning shows => ?_) shows
  cases r with
  | log line => exact ⟨shows.tree, shows.here, shows.idle⟩
  | _ => exact warning.elim

/-- The programs below a root. -/
def programs (t : FileTree) (here : Place) (root : Path) : List Artifact :=
  (upon t here root).filterMap Found.artifact?

theorem mem_programs_iff (sound : Sound t) {a : Artifact} :
    a ∈ programs t here root ↔ ∃ place, Comes t here root place a.path := by
  simp only [programs, List.mem_filterMap, artifact_eq_some_iff, exists_eq_right, mem_upon_iff sound]

/-- The programs below a root are the files with the right suffixes that a search comes upon. -/
theorem programs_iff (sound : Sound t) : (∃ a ∈ programs t here root, a.path = p) ↔
    HasSuffix p ∧ ∃ place, Comes t here root place p := by
  constructor
  · rintro ⟨a, among, rfl⟩
    exact ⟨ofPath_isSome_iff.mp (by simp [a.kind_of_path]), (mem_programs_iff sound).mp among⟩
  · rintro ⟨suffixed, comes⟩
    obtain ⟨kind, isKind⟩ := Option.isSome_iff_exists.mp (ofPath_isSome_iff.mpr suffixed)
    exact ⟨⟨p, kind, isKind⟩, (mem_programs_iff sound).mpr comes, rfl⟩

theorem programs_nodup (sound : Sound t) : ((programs t here root).map Artifact.path).Nodup := by
  rw [List.Nodup, List.pairwise_map, programs, List.pairwise_filterMap]
  refine (upon_apart sound).imp ?_
  intro found found' apart a isProgram a' isProgram' same
  rw [artifact_eq_some_iff] at isProgram isProgram'
  exact apart a.path isProgram (same ▸ isProgram')

theorem discover_run (shows : Shows t here m) (roots : List Path) :
    (m.run (Scan.discover roots)).1 = roots.flatMap (programs t here) := by
  unfold Machine.run
  induction roots generalizing m with
  | nil => rfl
  | cons root rest ih =>
    obtain ⟨m', searched, shows⟩ := shows.search root
    have answer : (Program.search root).run Machine.host m = (upon t here root, m') := searched
    rw [List.flatMap_cons, ← ih (shows.complain (upon t here root)), Scan.discover, Runs.run_bind,
      answer, Runs.run_bind, Runs.run_bind]
    rfl

theorem Lockable.mem_programs_iff {q : Place} (lockable : Lockable t q) (sound : Sound t)
    {a : Artifact} : a ∈ programs (lock t q) here root ↔
      a ∈ programs t here root ∧
        ∀ place, Comes t here root place a.path → ¬ Passes t here root place q := by
  rw [Discovery.mem_programs_iff sound, Discovery.mem_programs_iff (lockable.sound sound)]
  simp only [lockable.comes_iff]
  constructor
  · rintro ⟨place, comes, free⟩
    refine ⟨⟨place, comes⟩, ?_⟩
    intro other comes'
    rwa [← (comes.place_eq_iff sound comes').mp rfl]
  · rintro ⟨⟨place, comes⟩, free⟩
    exact ⟨place, comes, free place comes⟩

/-- The programs below roots are discovered root by root, each once for every root that it lies below,
and nothing else. A directory that cannot be listed any more hides what lies beneath it and nothing
else. -/
theorem discovered (sound : Sound m.tree) (idle : m.processes = []) :
    ∃ part : Path → List Artifact,
      (∀ roots, (m.run (Scan.discover roots)).1 = roots.flatMap part) ∧
      (∀ root, ((part root).map Artifact.path).Nodup) ∧
      (∀ root p, (∃ a ∈ part root, a.path = p) ↔
        HasSuffix p ∧ ∃ place, Comes m.tree m.here root place p) ∧
      (∀ root place p place' p', Comes m.tree m.here root place p →
        Comes m.tree m.here root place' p' → (p = p' ↔ place = place')) ∧
      ∀ q, Lockable m.tree q → ∃ left : Path → List Artifact,
        (∀ roots, (Machine.run { m with tree := lock m.tree q } (Scan.discover roots)).1 =
          roots.flatMap left) ∧
        ∀ root a, a ∈ left root ↔ a ∈ part root ∧
          ∀ place, Comes m.tree m.here root place a.path → ¬ Passes m.tree m.here root place q := by
  refine ⟨programs m.tree m.here, discover_run ⟨rfl, rfl, idle⟩, fun root => programs_nodup sound,
    fun root p => programs_iff sound, fun root place p place' p' comes => comes.place_eq_iff sound, ?_⟩
  intro q lockable
  exact ⟨programs (lock m.tree q) m.here, discover_run ⟨rfl, rfl, idle⟩,
    fun root a => lockable.mem_programs_iff sound⟩

/-- In the wood the program in the inner directory is discovered, until that directory cannot be
listed; the program beside it is discovered even then. -/
theorem discovered_in_wood : ∃ part left : Path → List Artifact,
    (∀ roots, (wood.run (Scan.discover roots)).1 = roots.flatMap part) ∧
    (∀ roots, (Machine.run { wood with tree := lock wood.tree [utf8 "w", utf8 "in"] }
      (Scan.discover roots)).1 = roots.flatMap left) ∧
    (∃ a ∈ part "w", a.path = "w/in/b.ll") ∧ (∀ a ∈ left "w", a.path ≠ "w/in/b.ll") ∧
    ∃ a ∈ left "w", a.path = "w/a.c" := by
  have sound : Sound wood.tree := by
    have busy : ∀ entry ∈ wood.tree.nodes, ∀ name ∈ entry.1,
        Path.isIdle name = false ∧ Path.slash ∉ name := by decide
    exact ⟨by decide, fun entry among name inside =>
      ⟨(busy entry among name inside).1, (busy entry among name inside).2⟩⟩
  have lockable : Lockable wood.tree [utf8 "w", utf8 "in"] := ⟨by decide, by decide⟩
  have found : wood.tree.existing [] "w" false = .ok ([utf8 "w"], .directory) := by cbv
  have begins : Begins wood.tree [] "w" [utf8 "w"] := .real (by decide) found (by simp)
  have inner : Comes wood.tree [] "w" [utf8 "w", utf8 "in", utf8 "b.ll"] "w/in/b.ll" := by
    refine ⟨_, [utf8 "in", utf8 "b.ll"], begins, ?_, rfl, ⟨[], false, by decide⟩, by decide⟩
    simp only [leadsDown_cons, leadsDown_nil]
    decide
  have outer : Comes wood.tree [] "w" [utf8 "w", utf8 "a.c"] "w/a.c" := by
    refine ⟨_, [utf8 "a.c"], begins, ?_, rfl, ⟨[], false, by decide⟩, by decide⟩
    simp only [leadsDown_cons, leadsDown_nil]
    decide
  obtain ⟨part, ran, -, isPart, same, locked⟩ := discovered sound rfl
  obtain ⟨left, ranThen, isLeft⟩ := locked _ lockable
  refine ⟨part, left, ran, ranThen, ?_, ?_, ?_⟩
  · exact (isPart "w" _).mpr ⟨⟨"ll", by decide, by decide⟩, _, inner⟩
  · intro a among named
    have free := ((isLeft "w" a).mp among).2 _ (named ▸ inner)
    exact free ⟨_, begins, ⟨[utf8 "in"], rfl⟩, ⟨[utf8 "b.ll"], rfl⟩⟩
  · obtain ⟨a, among, named⟩ := (isPart "w" _).mpr ⟨⟨"c", by decide, by decide⟩, _, outer⟩
    refine ⟨a, (isLeft "w" a).mpr ⟨among, ?_⟩, named⟩
    intro place comes
    obtain rfl := (same "w" _ _ _ _ outer (named ▸ comes)).mp rfl
    rintro ⟨start, -, -, beneath⟩
    exact absurd beneath (by decide)

end BugHunt.Proofs.Discovery
