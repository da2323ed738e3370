import BugHunt.Proofs.Homing
import BugHunt.Proofs.Outcomes
import BugHunt.Proofs.StageOrder
/-!
A workshop: a host that keeps its files in a tree, with tools that write nothing but what they were
given. What its answers do to a workspace in the tree, and to all that is around the workspace.
-/

namespace BugHunt.Proofs.Housing
open Bench FileTree Growth Homing Names Outcomes Places StageOrder Texts Trees Ways

variable {t u v : FileTree} {here P q : Place} {p : Path}

/-! ## Operations on what a path leads to -/

theorem createDirectory_eq_ok (made : t.createDirectory here p = .ok u) :
    ∃ q, t.find here p false = .ok ⟨q, none⟩ ∧ u = t.set q .directory := by
  unfold FileTree.createDirectory at made
  cases found : t.find here p false with
  | error e => simp [found, bind, Except.bind] at made
  | ok target =>
    obtain ⟨q, node⟩ := target
    cases node with
    | none => exact ⟨q, rfl, by simpa [found, bind, Except.bind] using made.symm⟩
    | some node => simp [found, bind, Except.bind] at made

theorem write_eq_ok {content : Bytes} (written : t.write here p content = .ok u) :
    ∃ q node, t.find here p true = .ok ⟨q, node⟩ ∧ node.any Node.isDirectory = false ∧
      u = t.set q (rewritten content node) := by
  unfold FileTree.write FileTree.writable at written
  cases found : t.find here p true with
  | error e => simp [found, bind, Except.bind] at written
  | ok target =>
    obtain ⟨q, node⟩ := target
    simp only [found, bind, Except.bind] at written
    split at written
    · cases written
    · rename_i writable
      split at writable
      · cases writable
      · split at writable
        · cases writable
        · rename_i noDirectory
          obtain rfl := Except.ok.inj writable
          exact ⟨q, node, rfl, by simpa using noDirectory, (Except.ok.inj written).symm⟩

theorem removeTree_of_found (found : t.find here p false = .ok ⟨q, some .directory⟩) :
    t.removeTree here p = .ok (t.prune q) := by
  unfold FileTree.removeTree existing
  simp [found, bind, Except.bind, Node.isDirectory]

/-- Nothing is made where something stands. -/
theorem createDirectories_of_found {node : Node} (found : t.find here p false = .ok ⟨q, some node⟩) :
    (t.createDirectories here p).1 = t := by
  have taken : t.createDirectory here p = .error .alreadyThere := by
    unfold FileTree.createDirectory
    simp [found, bind, Except.bind]
  unfold FileTree.createDirectories createWithParents
  rw [taken]
  dsimp only
  split
  · rfl
  · split <;> rfl

theorem rewritten_inert (content : Bytes) (node : Option Node) : Inert (some (rewritten content node)) := by
  unfold rewritten
  split
  · exact inert_file _ _
  · exact ⟨rfl, nofun⟩
  · exact inert_file _ _

/-! ## Hosts with tools -/

/-- Whether nothing has changed but at given places. What stands anywhere still stands in a
directory. -/
structure Scribbled (given : Place → Prop) (t u : FileTree) : Prop where
  kept : ∀ q, ¬ given q → u.node? q = t.node? q
  grown : Grown t.node? → Grown u.node?

/-- The places that a call of a tool is given to write to: its output, or all that is below the
directory for its output. Of other calls than those of the oracle nothing is known. -/
def Given (t : FileTree) (command : Command) (q : Place) : Prop :=
  match Call.ofArguments? command.arguments with
  | some (.convert _ output) =>
    ∃ base target, t.find base output true = .ok target ∧ q = target.place
  | some (.facts _ directory _) | some (.analyse _ _ directory) =>
    ∃ base target, t.find base directory true = .ok target ∧ target.place <+: q ∧ q ≠ target.place
  | _ => True

/-- The places that a tool is given with an answer. -/
def Grants (t : FileTree) : (r : Request) → r.Answer → Place → Prop
  | .spawn command _, .ok _, q => Given t command q
  | _, _, _ => False

/-- Whether a tree is what an answer leaves of another one. A write that fails may have stored part
of its content, and a removal that fails may have removed some of what it was to remove. Nothing
is said of operations that the oracle does not ask for. -/
def Leaves (here : Place) (t : FileTree) : (r : Request) → r.Answer → FileTree → Prop
  | .temporaryDirectory .., .ok path, u => ∃ P, Lodging t here path P ∧ u = t.set P .directory
  | .file (.createDirectory path), .ok _, u => t.createDirectory here path = .ok u
  | .file (.createDirectories path), _, u => u = t ∨ u = (t.createDirectories here path).1
  | .file (.write path content), .ok _, u => t.write here path content = .ok u
  | .file (.write path _), .error _, u => u = t ∨ ∃ part, t.write here path part = .ok u
  | .file (.removeTree path), .ok _, u => t.removeTree here path = .ok u
  | .file (.removeTree path), .error _, u =>
    Scribbled (fun q => ∃ target, t.find here path false = .ok target ∧ target.place <+: q) t u
  | .file (.makeExecutable _), _, _ | .file (.touch _), _, _ | .file (.copy ..), _, _
  | .file (.rename ..), _, _ | .file (.remove _), _, _ | .temporaryFile .., _, _ => True
  | _, _, u => u = t

/-- A host that keeps its files in a tree. While it comes to an answer, its tools write at places
that they were given, and nowhere else. -/
structure Workshop (host : Host σ) (tree : σ → FileTree) (here : Place) (given : σ → Place → Prop) :
    Prop where
  step : ∀ r s, ∃ t, Scribbled (given s) (tree s) t ∧ Leaves here t r (host r s).1 (tree (host r s).2)
  grants : ∀ r s q, given (host r s).2 q → given s q ∨ Grants (tree (host r s).2) r (host r s).1 q

/-! ## A workspace and what is around it -/

/-- The names of the directories in a workspace. -/
def rooms : List String := ["facts", "results"]

/-- Whether a place is below a workspace and is none of its rooms. -/
structure Spare (P q : Place) : Prop where
  below : P <+: q
  other : q ≠ P
  noRoom : ∀ room ∈ rooms, q ≠ P ++ [utf8 room]

/-- Whether nothing has changed around a place but, at marked places, files. -/
def Around (P : Place) (marks : Place → Prop) (t u : FileTree) : Prop :=
  ∀ q, ¬ P <+: q → u.node? q = t.node? q ∨ marks q ∧ Inert (t.node? q) ∧ Inert (u.node? q)

theorem Around.trans {marks : Place → Prop} (around : Around P marks t u)
    (same : ∀ q, ¬ P <+: q → v.node? q = u.node? q) : Around P marks t v := by
  intro q outside
  rw [same q outside]
  exact around q outside

theorem Around.mono {marks marks' : Place → Prop} (around : Around P marks t u)
    (more : ∀ q, marks q → marks' q) : Around P marks' t u := by
  intro q outside
  rcases around q outside with equal | ⟨mark, inert⟩
  · exact .inl equal
  · exact .inr ⟨more q mark, inert⟩

/-- Whether a directory was made at a place of one tree in another one. Nothing else has changed around
it but marked files, and no tool was given it or one of its rooms to write over. -/
structure Housed (t : FileTree) (P : Place) (marks : Place → Prop) (u : FileTree)
    (given : Place → Prop) : Prop where
  grown : Grown u.node?
  made : u.node? P = some .directory
  around : Around P marks t u
  unlinked : ∀ room ∈ rooms, ∀ path, u.node? (P ++ [utf8 room]) ≠ some (.link path)
  spare : ∀ q, given q → Spare P q

section Housed

variable {marks given : Place → Prop} {root : Path} {name : String}

theorem Housed.sameOutside (housed : Housed t P marks u given) : SameOutside P t u := by
  intro q outside
  rcases housed.around q outside with equal | ⟨-, inert⟩
  · exact .inl equal
  · exact .inr inert

theorem Housed.scribbled (housed : Housed t P marks u given) (scribbled : Scribbled given u v) :
    Housed t P marks v given := by
  have kept {q : Place} (other : ¬ given q) : v.node? q = u.node? q := scribbled.kept q other
  refine ⟨scribbled.grown housed.grown, ?_, ?_, ?_, housed.spare⟩
  · rw [kept fun isGiven => (housed.spare P isGiven).other rfl]
    exact housed.made
  · exact housed.around.trans fun q outside => kept fun isGiven => outside (housed.spare q isGiven).below
  · intro room among
    rw [kept fun isGiven => (housed.spare _ isGiven).noRoom room among rfl]
    exact housed.unlinked room among

theorem Housed.give {given' : Place → Prop} (housed : Housed t P marks u given)
    (spare : ∀ q, given' q → Spare P q) : Housed t P marks u given' :=
  { housed with spare }

theorem Housed.fewer {given' : Place → Prop} (housed : Housed t P marks u given)
    (fewer : ∀ q, given' q → given q) : Housed t P marks u given' :=
  housed.give fun q isGiven => housed.spare q (fewer q isGiven)

theorem Housed.more {marks' : Place → Prop} (housed : Housed t P marks u given)
    (more : ∀ q, marks q → marks' q) : Housed t P marks' u given :=
  { housed with around := housed.around.mono more }

/-- A node that is no link comes to stand below the directory. -/
theorem Housed.put {node : Node} (housed : Housed t P marks u given) (below : P <+: q) (other : q ≠ P)
    (is : v.node? = View.put u.node? q (some node)) (grown : Grown v.node?)
    (noLink : ∀ path, node ≠ .link path) : Housed t P marks v given := by
  refine ⟨grown, ?_, ?_, ?_, housed.spare⟩
  · rw [is, View.put_other other.symm]
    exact housed.made
  · refine housed.around.trans fun q' outside => ?_
    have elsewhere : q' ≠ q := by
      rintro rfl
      exact outside below
    rw [is, View.put_other elsewhere]
  · intro room among path isLink
    rw [is] at isLink
    by_cases same : P ++ [utf8 room] = q
    · rw [same, View.put_self] at isLink
      exact noLink path (Option.some.inj isLink)
    · rw [View.put_other same] at isLink
      exact housed.unlinked room among path isLink

/-- A directory is made below the workspace. -/
theorem Housed.createDirectory (housed : Housed t P marks u given) (lodging : Lodging t here root P)
    (grown : Grown t.node?) (proper : Proper (utf8 name))
    (made : u.createDirectory here (root / name) = .ok v) :
    Housed t P marks v given ∧ v.node? = View.put u.node? (P ++ [utf8 name]) (some .directory) := by
  obtain ⟨q, found, rfl⟩ := createDirectory_eq_ok made
  obtain ⟨rfl, free⟩ := Target.mk.inj
    (lodging.find_entry grown housed.sameOutside housed.made proper found (by simp))
  have is : (u.set (P ++ [utf8 name]) .directory).node? =
      View.put u.node? (P ++ [utf8 name]) (some .directory) := node?_set (by simp)
  have parent : View.directory u.node? P := by
    rw [View.directory, housed.made]
    rfl
  exact ⟨housed.put (List.prefix_append ..) (by simp) is
    (housed.grown.set (View.writable_entry free.symm parent)) (by simp), is⟩

/-- What is written through a path is written below the workspace, or leaves a mark around it. -/
theorem Housed.write {content : Bytes} (housed : Housed t P marks u given)
    (written : u.write here p content = .ok v) : ∃ q node, u.find here p true = .ok ⟨q, node⟩ ∧
      Housed t P (fun q' => marks q' ∨ q' = q) v given := by
  obtain ⟨q, node, found, noDirectory, rfl⟩ := write_eq_ok written
  obtain ⟨isNode, parent, noLink⟩ := find_sound housed.grown found
  obtain rfl : node = u.node? q := isNode
  have free : View.writable u.node? q := by
    rw [View.writable, View.directory, noDirectory]
    exact parent
  have is : (u.set q (rewritten content (u.node? q))).node? =
      View.put u.node? q (some (rewritten content (u.node? q))) := node?_set (ne_root_of_writable free)
  have grown : Grown (u.set q (rewritten content (u.node? q))).node? := housed.grown.set free
  have inert := rewritten_inert content (u.node? q)
  refine ⟨q, u.node? q, found, ?_⟩
  by_cases below : P <+: q
  · refine (housed.put below ?_ is grown fun path same => inert.noLink path (congrArg some same)).more
      fun _ => .inl
    rintro rfl
    rw [housed.made] at noDirectory
    cases noDirectory
  · have other (q' : Place) (within : P <+: q') : q' ≠ q := fun same => below (same ▸ within)
    refine ⟨grown, ?_, ?_, ?_, housed.spare⟩
    · rw [is, View.put_other (other P (List.prefix_refl P))]
      exact housed.made
    · intro q' outside
      rw [is]
      by_cases same : q' = q
      · subst same
        rw [View.put_self]
        refine .inr ⟨.inr rfl, ?_, inert⟩
        rcases housed.around q' outside with equal | ⟨-, inert, -⟩
        · rw [← equal]
          exact ⟨noDirectory, noLink rfl⟩
        · exact inert
      · rw [View.put_other same]
        rcases housed.around q' outside with equal | ⟨mark, inert⟩
        · exact .inl equal
        · exact .inr ⟨.inl mark, inert⟩
    · intro room among
      rw [is, View.put_other (other _ (List.prefix_append ..))]
      exact housed.unlinked room among

/-- What is left of a workspace when its removal was answered: nothing after a success. -/
structure Left (t : FileTree) (P : Place) (marks : Place → Prop) (answer : Except Failure Unit)
    (u : FileTree) (given : Place → Prop) : Prop where
  grown : Grown u.node?
  gone : answer = .ok () → u.node? P = none
  around : Around P marks t u
  spare : ∀ q, given q → Spare P q

theorem Left.scribbled {answer : Except Failure Unit} (left : Left t P marks answer u given)
    (scribbled : Scribbled given u v) : Left t P marks answer v given := by
  refine ⟨scribbled.grown left.grown, ?_, ?_, left.spare⟩
  · intro done
    rw [scribbled.kept P fun isGiven => (left.spare P isGiven).other rfl]
    exact left.gone done
  · exact left.around.trans fun q outside =>
      scribbled.kept q fun isGiven => outside (left.spare q isGiven).below

theorem Left.fewer {given' : Place → Prop} {answer : Except Failure Unit}
    (left : Left t P marks answer u given) (fewer : ∀ q, given' q → given q) :
    Left t P marks answer u given' :=
  { left with spare := fun q isGiven => left.spare q (fewer q isGiven) }

/-- The removal of a workspace takes nothing away that is around it. -/
theorem Housed.removed_elsewhere (housed : Housed t P marks u given) (lodging : Lodging t here root P)
    (grown : Grown t.node?) {answer : Except Failure Unit}
    (leaves : Leaves here u (.file (.removeTree root)) answer v) (outside : ¬ P <+: q) :
    v.node? q = u.node? q := by
  have home := lodging.home grown housed.sameOutside housed.made
  cases answer with
  | ok value =>
    have removed : u.removeTree here root = .ok v := leaves
    rw [removeTree_of_found home] at removed
    obtain rfl := Except.ok.inj removed
    rw [node?_prune (lodging.named grown), if_neg outside]
  | error cause =>
    have scribbled : Scribbled _ u v := leaves
    refine scribbled.kept q ?_
    rintro ⟨target, found, below⟩
    obtain rfl := Except.ok.inj (home.symm.trans found)
    exact outside below

/-- It leaves nothing of the workspace if it is carried out. -/
theorem Housed.removeTree (housed : Housed t P marks u given) (lodging : Lodging t here root P)
    (grown : Grown t.node?) {answer : Except Failure Unit}
    (leaves : Leaves here u (.file (.removeTree root)) answer v) :
    Left t P marks answer v given := by
  have around := housed.around.trans fun q => housed.removed_elsewhere lodging grown leaves
  cases answer with
  | ok value =>
    have removed : u.removeTree here root = .ok v := leaves
    rw [removeTree_of_found (lodging.home grown housed.sameOutside housed.made)] at removed
    obtain rfl := Except.ok.inj removed
    refine ⟨?_, fun _ => ?_, around, housed.spare⟩
    · have pruned : Trees.removeTree u P = .ok (u.prune P) := by
        rw [Trees.removeTree, housed.made]
        rfl
      exact removeTree_grown housed.grown pruned
    · rw [node?_prune (lodging.named grown), if_pos (List.prefix_refl P)]
  | error cause =>
    have scribbled : Scribbled _ u v := leaves
    exact ⟨scribbled.grown housed.grown, nofun, around, housed.spare⟩

/-! ## What the tools of the oracle are given -/

variable {c : Config} {w : Workspace} {irPath bitcode : Path}

theorem room_proper {room : String} (among : room ∈ rooms) : Proper (utf8 room) := by
  simp only [rooms, List.mem_cons, List.not_mem_nil, or_false] at among
  rcases among with rfl | rfl
  · exact proper_of_length (by decide) (by decide)
  · exact proper_of_length (by decide) (by decide)

/-- What is below a room of the workspace. -/
theorem spare_of_room {room : String} (below : P ++ [utf8 room] <+: q) (other : q ≠ P ++ [utf8 room]) :
    Spare P q := by
  have longer : (P ++ [utf8 room]).length < q.length :=
    Nat.lt_of_le_of_ne below.length_le fun same => other (below.eq_of_length same).symm
  rw [List.length_append, List.length_singleton] at longer
  refine ⟨(List.prefix_append ..).trans below, ?_, ?_⟩
  · rintro rfl
    omega
  · rintro room' - rfl
    simp at longer

section Given

variable (housed : Housed t P marks u given) (lodging : Lodging t here w.root P) (grown : Grown t.node?)
include housed lodging grown

theorem given_room {room : String} (among : room ∈ rooms) {base : Place} {target : Target}
    (found : u.find base (w.root / room) true = .ok target) (below : target.place <+: q)
    (other : q ≠ target.place) : Spare P q := by
  obtain rfl := lodging.find_entry grown housed.sameOutside housed.made (room_proper among) found
    fun _ => housed.unlinked room among
  exact spare_of_room below other

theorem given_facts (isGiven : Given u (Oracle.factCommand c w bitcode) q) : Spare P q := by
  unfold Given at isGiven
  rw [facts_call] at isGiven
  obtain ⟨base, target, found, below, other⟩ := isGiven
  exact given_room housed lodging grown (show "facts" ∈ rooms by simp [rooms]) found below other

theorem given_results (isGiven : Given u (Oracle.analysisCommand c w) q) : Spare P q := by
  unfold Given at isGiven
  rw [(analysis_call c w).1] at isGiven
  obtain ⟨base, target, found, below, other⟩ := isGiven
  exact given_room housed lodging grown (show "results" ∈ rooms by simp [rooms]) found below other

/-- The name of assembled bitcode is no room's name. -/
theorem given_output (unlinked : ∀ name path, u.node? (P ++ [name]) ≠ some (.link path))
    (isGiven : Given u (assembling c irPath w) q) : Spare P q := by
  unfold Given at isGiven
  rw [assembling, convert_call] at isGiven
  obtain ⟨base, target, found, rfl⟩ := isGiven
  have last : (utf8 (Plan.stemOf irPath ++ ".bc")).getLast? = (utf8 ".bc").getLast? := by
    rw [utf8_append, List.getLast?_append]
    rfl
  have proper : Proper (utf8 (Plan.stemOf irPath ++ ".bc")) := by
    refine proper_of_length ?_ ?_
    · have clean := slash_notMem_stemOf irPath
      simp [clean]
    · have three : (utf8 ".bc").length = 3 := by decide
      rw [utf8_append, List.length_append, three]
      omega
  obtain rfl := lodging.find_entry grown housed.sameOutside housed.made proper found
    fun _ => unlinked _
  refine ⟨List.prefix_append .., by simp, ?_⟩
  intro room among same
  have names := List.singleton_inj.mp (List.append_cancel_left same)
  rw [names] at last
  simp only [rooms, List.mem_cons, List.not_mem_nil, or_false] at among
  rcases among with rfl | rfl
  · exact absurd last (by decide)
  · exact absurd last (by decide)

end Given

end Housed

end BugHunt.Proofs.Housing
