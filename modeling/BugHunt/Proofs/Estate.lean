import BugHunt.Proofs.Cleanup
import BugHunt.Proofs.Grounds
import BugHunt.Proofs.Reducing
/-!
Hosts that keep their files in a tree, with tools that write to their named outputs and to
nothing else. What is done there to a tree, as seen from some places that are to be spared.
-/

namespace BugHunt.Proofs.Estate
open Asking Bench FileTree Grounds Growth Homing Housing Names Places Runs Trees Walking Ways

/-! ## What tools and answers do -/

variable {t u v : FileTree} {here P Q : Place} {p : Path}

/-- Where the relative paths of a command start from. -/
def Base (t : FileTree) (here : Place) (command : Command) (base : Place) : Prop :=
  match command.directory with
  | none => base = here
  | some directory => ∃ node, t.find here directory true = .ok ⟨base, some node⟩

/-- The places that a command names for its outputs: a file, or all that is below a directory. Of
commands that are no call of a tool nothing is known. -/
def Outputs (t : FileTree) (here : Place) (command : Command) (q : Place) : Prop :=
  match Call.ofArguments? command.arguments with
  | some (.compile _ _ output) | some (.convert _ output) | some (.minimizeIr output _)
  | some (.minimizeSource output) =>
    ∃ base target, Base t here command base ∧ t.find base output true = .ok target ∧ q = target.place
  | some (.facts _ directory _) | some (.analyse _ _ directory) =>
    ∃ base target, Base t here command base ∧ t.find base directory true = .ok target ∧
      target.place <+: q ∧ q ≠ target.place
  | none => True

/-- The places that an answer gives a child to write to. -/
def Hands (t : FileTree) (here : Place) : (r : Request) → r.Answer → Child → Place → Prop
  | .spawn command _, .ok child, child', q => child' = child ∧ Outputs t here command q
  | _, _, _, _ => False

/-- What an answer tells of a tree, and what it says was done. A copy that fails may have stored some
content, and a removal that fails takes away nothing but nodes. -/
def Tells (here : Place) (t : FileTree) : (r : Request) → r.Answer → FileTree → Prop
  | .file (.exists path), found, _ => found = t.exists here path
  | .file (.createDirectories path), .ok _, u => t.createDirectories here path = (u, .ok ())
  | .file (.copy source path), .ok _, u => t.copy here source path = .ok u
  | .file (.copy _ path), .error _, u => u = t ∨ ∃ target content executable,
    t.writable here path = .ok target ∧ u = t.set target.place (.file content executable)
  | .file (.makeExecutable path), .ok _, u => t.setExecutable here path true = .ok u
  | .file (.touch path), .ok _, u => t.touch here path = .ok u
  | .file (.remove path), .ok _, u => t.remove here path = .ok u
  | .file (.makeExecutable _), .error _, u | .file (.touch _), .error _, u
  | .file (.remove _), .error _, u => u = t
  | .file (.removeTree _), .error _, u => ∀ q, u.node? q = t.node? q ∨ u.node? q = none
  | _, _, _ => True

/-- A host that keeps its files in a tree. While it comes to an answer the tools at work may write to
their outputs; they leave directories and links as they are, and make no links. A tool that has ended
writes no more. -/
structure Premises (host : Host σ) (tree : σ → FileTree) (here : Place) (given : σ → Child → Place → Prop) :
    Prop where
  step : ∀ r s, ∃ t, Scribbled (fun q => ∃ child, given s child q) (tree s) t ∧ Upkeep (tree s) t ∧
    Leaves here t r (host r s).1 (tree (host r s).2) ∧ Tells here t r (host r s).1 (tree (host r s).2)
  hands : ∀ r s child q, given (host r s).2 child q →
    given s child q ∨ Hands (tree (host r s).2) here r (host r s).1 child q
  exits : ∀ child stop s status, (host (.await child stop) s).1 = Except.ok (.exited status) →
    ∀ q, ¬ given (host (.await child stop) s).2 child q
  ends : ∀ child s q, ¬ given (host (.terminate child) s).2 child q

/-- A host that does what it is asked to do. Its tools end at once, with one status, and write nothing. -/
def obliging (status : Status) : Host FileTree
  | .file (.copy p q), t => match t.copy [] p q with
    | .ok u => (.ok (), u)
    | .error cause => (.error cause, t)
  | .await .., t => (.ok (.exited status), t)
  | r, t => Cleanup.failing true r t

theorem obliging_tells (status : Status) (r : Request) (t : FileTree) :
    Tells [] t r (obliging status r t).1 (obliging status r t).2 := by
  cases r with
  | file request =>
    cases request with
    | createDirectories p =>
      show Tells [] t (.file (.createDirectories p)) (Cleanup.told (t.createDirectories [] p).2)
        (t.createDirectories [] p).1
      cases made : t.createDirectories [] p with
      | mk u result =>
        cases result with
        | ok value => exact made
        | error errno => exact trivial
    | copy p q =>
      show Tells [] t (.file (.copy p q)) (match t.copy [] p q with
        | .ok u => (.ok (), u)
        | .error cause => (.error cause, t) : Except Failure Unit × FileTree).1
        (match t.copy [] p q with
        | .ok u => (.ok (), u)
        | .error cause => (.error cause, t) : Except Failure Unit × FileTree).2
      cases copied : t.copy [] p q with
      | ok u => exact copied
      | error cause => exact .inl rfl
    | makeExecutable p =>
      exact Cleanup.carried_cases (Tells [] t (.file (.makeExecutable p))) _ (fun _ => id) fun _ => rfl
    | touch p => exact Cleanup.carried_cases (Tells [] t (.file (.touch p))) _ (fun _ => id) fun _ => rfl
    | remove p => exact Cleanup.carried_cases (Tells [] t (.file (.remove p))) _ (fun _ => id) fun _ => rfl
    | removeTree p =>
      exact Cleanup.carried_cases (Tells [] t (.file (.removeTree p))) _ (fun _ _ => trivial) fun _ _ =>
        .inl rfl
    | «exists» => exact rfl
    | read | isFile | createDirectory | write | rename => exact trivial
  | _ => exact trivial

theorem obliging_premises (status : Status) : Premises (obliging status) id [] fun _ _ _ => False where
  step r t := by
    refine ⟨t, ⟨fun _ _ => rfl, id⟩, .refl t, ?_, ?_⟩
    · cases r with
      | file request =>
        cases request with
        | copy => exact trivial
        | _ => exact Cleanup.failing_leaves true _ t
      | await => exact rfl
      | _ => exact Cleanup.failing_leaves true _ t
    · exact obliging_tells status r t
  hands _ _ _ _ := False.elim
  exits _ _ _ _ _ _ := id
  ends _ _ _ := id

/-! ## Spared places -/

variable {W Z : Place → Prop}

/-- Whether a tree is kept up from another one, with the same nodes at the places to be spared. -/
structure Spares (t : FileTree) (W : Place → Prop) (u : FileTree) : Prop where
  grown : Grown u.node?
  upkeep : Upkeep t u
  spared : ∀ q, W q → u.node? q = t.node? q

/-- Whether a path leads to none of some places, for as long as those that are to be spared are. -/
def Clear (t : FileTree) (here : Place) (W Z : Place → Prop) (p : Path) : Prop :=
  ∀ u, Spares t W u → ∀ followLast target, u.find here p followLast = .ok target → ¬ Z target.place

theorem Clear.fewer {Z' : Place → Prop} (clear : Clear t here W Z p) (within : ∀ q, Z' q → Z q) :
    Clear t here W Z' p :=
  fun u spares followLast target found among => clear u spares followLast target found (within _ among)

/-- The requests that leave the spared places alone, and the tools that keep off some places. -/
def Harmless (t : FileTree) (here : Place) (W Z : Place → Prop) : Request → Prop
  | .file (.write path _) | .file (.copy _ path) | .file (.makeExecutable path) => Clear t here W W path
  | .file (.remove path) => Clear t here W W path ∧ ∀ u, Spares t W u → Unlinked u here path
  | .file (.rename ..) | .file (.removeTree _) | .temporaryFile .. => False
  | .spawn command _ => ∀ u, Spares t W u → ∀ q, Outputs u here command q → ¬ Z q
  | _ => True

/-- A removal takes away the node that a path leads to, which is no directory. -/
theorem remove_eq_ok (removed : u.remove here p = .ok v) : ∃ q node, u.find here p false = .ok ⟨q, some node⟩ ∧
    node.isDirectory = false ∧ v.node? = View.put u.node? q none := by
  unfold FileTree.remove existing at removed
  cases found : u.find here p false with
  | error e => simp [found, bind, Except.bind] at removed
  | ok target =>
    obtain ⟨q, node⟩ := target
    cases node with
    | none => simp [found, bind, Except.bind] at removed
    | some node =>
      simp only [found, bind, Except.bind] at removed
      split at removed
      · cases removed
      · rename_i isFile
        obtain rfl := Except.ok.inj removed
        have isFile : node.isDirectory = false := by simpa using isFile
        have named : q ≠ [] := by
          rintro rfl
          obtain rfl := Option.some.inj ((find_node found).trans (node?_root u))
          cases isFile
        exact ⟨q, node, rfl, isFile, node?_erase named⟩

section Spares

variable (spares : Spares t W u)
include spares

theorem Spares.trans (further : Spares u W v) : Spares t W v :=
  ⟨further.grown, spares.upkeep.trans further.upkeep, fun q watched =>
    (further.spared q watched).trans (spares.spared q watched)⟩

theorem Clear.kept {Z : Place → Prop} (clear : Clear t here W Z p) : Clear u here W Z p :=
  fun v more => clear v (spares.trans more)

theorem Spares.same (same : v.node? = u.node?) : Spares t W v :=
  ⟨same ▸ spares.grown, spares.upkeep.trans (upkeep_of_view same),
    fun q watched => same ▸ spares.spared q watched⟩

theorem Spares.scribbled {given : Place → Prop} (scribbled : Scribbled given u v) (upkeep : Upkeep u v)
    (off : ∀ q, given q → ¬ W q) : Spares t W v := by
  refine ⟨scribbled.grown spares.grown, spares.upkeep.trans upkeep, fun q watched => ?_⟩
  rw [scribbled.kept q fun isGiven => off q isGiven watched]
  exact spares.spared q watched

theorem Spares.added (watched : ∀ q, W q → t.node? q ≠ none) (added : Added u v) (grown : Grown v.node?) :
    Spares t W v := by
  refine ⟨grown, spares.upkeep.trans added.upkeep, fun q among => ?_⟩
  have same := spares.spared q among
  rw [added.stays (same ▸ watched q among), same]

/-- A node that is no link is stored where a path leads, where no directory is. -/
theorem Spares.stored {node : Option Node} {new : Node} (found : u.find here p true = .ok ⟨Q, node⟩)
    (noDirectory : node.any Node.isDirectory = false) (noLink : ∀ path, new ≠ .link path)
    (clear : ¬ W Q) : Spares t W (u.set Q new) := by
  obtain ⟨isNode, parent, notLink⟩ := find_sound spares.grown found
  obtain rfl : node = u.node? Q := isNode
  have free : View.writable u.node? Q := by
    rw [View.writable, View.directory, noDirectory]
    exact parent
  have view : (u.set Q new).node? = View.put u.node? Q (some new) :=
    node?_set (ne_root_of_writable free)
  have upkeep : Upkeep u (u.set Q new) :=
    .put ⟨noDirectory, notLink rfl⟩ view fun path same => noLink path (Option.some.inj same)
  refine ⟨spares.grown.set free, spares.upkeep.trans upkeep, fun q watched => ?_⟩
  have other : q ≠ Q := by
    rintro rfl
    exact clear watched
  rw [view, View.put_other other]
  exact spares.spared q watched

theorem Spares.written {content : Bytes} (clear : Clear t here W W p) (written : u.write here p content = .ok v) :
    Spares t W v := by
  obtain ⟨q, node, found, noDirectory, rfl⟩ := write_eq_ok written
  refine spares.stored found noDirectory (fun path same => ?_) (clear u spares true _ found)
  exact (rewritten_inert content node).noLink path (congrArg some same)

theorem Spares.torn (clear : Clear t here W W p) {target : Target} {content : Bytes} {executable : Bool}
    (writable : u.writable here p = .ok target) :
    Spares t W (u.set target.place (.file content executable)) := by
  unfold FileTree.writable at writable
  cases found : u.find here p true with
  | error e => simp [found, bind, Except.bind] at writable
  | ok target' =>
    simp only [found, bind, Except.bind] at writable
    split at writable
    · cases writable
    · split at writable
      · cases writable
      · rename_i noDirectory
        obtain rfl := Except.ok.inj writable
        exact spares.stored found (by simpa using noDirectory) nofun (clear u spares true _ found)

theorem Spares.copied {source : Path} (clear : Clear t here W W p) (copied : u.copy here source p = .ok v) :
    Spares t W v := by
  unfold FileTree.copy at copied
  split at copied
  · cases copied
  · split at copied
    · cases copied
    · rename_i target writable
      split at copied
      · obtain rfl := Except.ok.inj copied
        exact spares
      · obtain rfl := Except.ok.inj copied
        exact spares.torn clear writable
  · cases copied

theorem Spares.touched (watched : ∀ q, W q → t.node? q ≠ none) (touched : u.touch here p = .ok v) :
    Spares t W v := by
  unfold FileTree.touch FileTree.writable at touched
  cases found : u.find here p true with
  | error e => simp [found, bind, Except.bind] at touched
  | ok target =>
    simp only [found, bind, Except.bind] at touched
    split at touched
    · cases touched
    · rename_i writable
      split at writable
      · cases writable
      · split at writable
        · cases writable
        · obtain rfl := Except.ok.inj writable
          obtain rfl := Except.ok.inj touched
          split
          · exact spares
          · rename_i free
            have free : target.node = none := by simpa using free
            refine spares.stored found (by simp [free]) nofun fun among => watched _ among ?_
            rw [← spares.spared _ among, ← (find_sound spares.grown found).node, free]

theorem Spares.madeExecutable (clear : Clear t here W W p) (made : u.setExecutable here p true = .ok v) :
    Spares t W v := by
  unfold setExecutable existing at made
  cases found : u.find here p true with
  | error e => simp [found, bind, Except.bind] at made
  | ok target =>
    obtain ⟨q, node⟩ := target
    simp only [found, bind, Except.bind] at made
    split at made
    · cases made
    · rename_i there
      split at made
      · rename_i q' content executable
        cases node with
        | none => cases there
        | some node =>
          obtain ⟨rfl, rfl⟩ := Prod.mk.inj (Except.ok.inj there)
          obtain rfl := Except.ok.inj made
          exact spares.stored found rfl nofun (clear u spares true _ found)
      · obtain rfl := Except.ok.inj made
        exact spares

theorem Spares.removed (clear : Clear t here W W p) (unlinked : Unlinked u here p)
    (removed : u.remove here p = .ok v) : Spares t W v := by
  obtain ⟨q, node, found, isFile, view⟩ := remove_eq_ok removed
  have isNode : some node = u.node? q := find_node found
  have noDirectory : (u.node? q).any Node.isDirectory = false := by
    rw [← isNode]
    exact isFile
  have noLink (path : Path) : u.node? q ≠ some (.link path) := by
    rw [← isNode]
    rintro same
    obtain rfl := Option.some.inj same
    exact unlinked q path found
  refine ⟨?_, spares.upkeep.trans (.put ⟨noDirectory, noLink⟩ view nofun), fun q' watched => ?_⟩
  · rw [view]
    exact spares.grown.put noDirectory fun absurd => (absurd rfl).elim
  · have other : q' ≠ q := by
      rintro rfl
      exact clear u spares false _ found watched
    rw [view, View.put_other other]
    exact spares.spared q' watched

theorem Spares.lodged {root : Path} (watched : ∀ q, W q → t.node? q ≠ none)
    (lodging : Lodging u here root P) : Spares t W (u.set P .directory) := by
  obtain ⟨isNode, parent, -⟩ := find_sound spares.grown lodging.leads
  obtain ⟨-, added, grown⟩ := added_set isNode.symm parent spares.grown
  exact spares.added watched added grown

/-- What a harmless request leaves of a tree. -/
theorem Spares.answered (watched : ∀ q, W q → t.node? q ≠ none) {r : Request} {answer : r.Answer}
    (harmless : Harmless t here W Z r) (leaves : Leaves here u r answer v)
    (tells : Tells here u r answer v) : Spares t W v := by
  cases r with
  | file request =>
    cases request with
    | read | «exists» | isFile => exact spares.same (congrArg node? leaves)
    | createDirectories path =>
      have made : Made u here path _ := createDirectories_made spares.grown path
      rcases leaves with same | same
      · exact spares.same (congrArg node? same)
      · exact same ▸ spares.added watched made.added made.grown
    | createDirectory path =>
      cases answer with
      | ok value =>
        have made := createDirectory_made spares.grown leaves
        exact spares.added watched made.added made.grown
      | error cause => exact spares.same (congrArg node? leaves)
    | write path content =>
      cases answer with
      | ok value => exact spares.written harmless leaves
      | error cause =>
        rcases leaves with same | ⟨part, written⟩
        · exact spares.same (congrArg node? same)
        · exact spares.written harmless written
    | makeExecutable path =>
      cases answer with
      | ok value => exact spares.madeExecutable harmless tells
      | error cause => exact spares.same (congrArg node? tells)
    | touch path =>
      cases answer with
      | ok value => exact spares.touched watched tells
      | error cause => exact spares.same (congrArg node? tells)
    | copy source path =>
      cases answer with
      | ok value => exact spares.copied harmless tells
      | error cause =>
        rcases tells with same | ⟨target, content, executable, writable, same⟩
        · exact spares.same (congrArg node? same)
        · exact same ▸ spares.torn harmless writable
    | remove path =>
      cases answer with
      | ok value => exact spares.removed harmless.1 (harmless.2 u spares) tells
      | error cause => exact spares.same (congrArg node? tells)
    | rename | removeTree => exact harmless.elim
  | temporaryDirectory before after =>
    cases answer with
    | ok path =>
      obtain ⟨P, lodging, same⟩ : ∃ P, Lodging u here path P ∧ v = u.set P .directory := leaves
      exact same ▸ spares.lodged watched lodging
    | error cause => exact spares.same (congrArg node? leaves)
  | temporaryFile => exact harmless.elim
  | spawn command memory =>
    cases answer <;> exact spares.same (congrArg node? leaves)
  | search | isCancelled | choose | log | await | terminate | collect =>
    exact spares.same (congrArg node? leaves)

end Spares

/-! ## Runs -/

/-- Whether the places to be spared are as they were, and no tool at work may write to any of the
places that tools are to keep off. -/
structure Stands (tree : σ → FileTree) (given : σ → Child → Place → Prop) (t : FileTree)
    (W Z : Place → Prop) (s : σ) : Prop where
  spares : Spares t W (tree s)
  off : ∀ child q, given s child q → ¬ Z q

/-- Whether something stands at each of the places to be spared, and tools are to keep off them. -/
structure Watch (t : FileTree) (W Z : Place → Prop) : Prop where
  there : ∀ q, W q → t.node? q ≠ none
  within : ∀ q, W q → Z q

theorem Watch.own (watch : Watch t W Z) : Watch t W W := ⟨watch.there, fun _ => id⟩

/-- How things stand at the end of an action: after an error a tool may still be at work, but off the
places to be spared. -/
def Lasts (tree : σ → FileTree) (given : σ → Child → Place → Prop) (t : FileTree) (W Z : Place → Prop) :
    Except ε α → σ → Prop
  | .ok _, s => Stands tree given t W Z s
  | .error _, s => Stands tree given t W W s

section Runs

variable {host : Host σ} {tree : σ → FileTree} {given : σ → Child → Place → Prop} {s : σ}

theorem Stands.own (stands : Stands tree given t W Z s) (watch : Watch t W Z) :
    Stands tree given t W W s :=
  ⟨stands.spares, fun child q isGiven among => stands.off child q isGiven (watch.within q among)⟩

/-- What stands as in a tree in which the places were spared stands as before. -/
theorem Stands.since (stands : Stands tree given u W Z s) (spares : Spares t W u) :
    Stands tree given t W Z s :=
  ⟨spares.trans stands.spares, stands.off⟩

theorem Lasts.since {result : Except ε α} (lasts : Lasts tree given u W Z result s) (spares : Spares t W u) :
    Lasts tree given t W Z result s := by
  cases result <;> exact Stands.since lasts spares

/-- The tree of the moment may stand in for the earlier one. -/
theorem Stands.now (stands : Stands tree given t W Z s) : Stands tree given (tree s) W Z s :=
  ⟨⟨stands.spares.grown, .refl _, fun _ _ => rfl⟩, stands.off⟩

theorem Watch.kept (watch : Watch t W Z) (spares : Spares t W u) : Watch u W Z :=
  ⟨fun q watched => spares.spared q watched ▸ watch.there q watched, watch.within⟩

theorem Stands.lasts (stands : Stands tree given t W Z s) (watch : Watch t W Z) (result : Except ε α) :
    Lasts tree given t W Z result s := by
  cases result with
  | ok value => exact stands
  | error e => exact stands.own watch

theorem Lasts.own {result : Except ε α} (lasts : Lasts tree given t W Z result s) (watch : Watch t W Z) :
    Stands tree given t W W s := by
  cases result with
  | ok value => exact Stands.own lasts watch
  | error e => exact lasts

/-- While a tool is at work, the other tools keep off. -/
def Engaged (tree : σ → FileTree) (given : σ → Child → Place → Prop) (t : FileTree) (W Z : Place → Prop)
    (child : Child) (s : σ) : Prop :=
  Stands tree given t W W s ∧ ∀ child' q, child' ≠ child → given s child' q → ¬ Z q

/-- How things stand when a tool was to be started. -/
def Started (tree : σ → FileTree) (given : σ → Child → Place → Prop) (t : FileTree) (W Z : Place → Prop) :
    Except Failure Child → σ → Prop
  | .ok child, s => Engaged tree given t W Z child s
  | .error _, s => Stands tree given t W W s

/-- How things stand when a tool was waited for. -/
def Waited (tree : σ → FileTree) (given : σ → Child → Place → Prop) (t : FileTree) (W Z : Place → Prop)
    (child : Child) : Except Failure Ending → σ → Prop
  | .ok (.exited _), s => Stands tree given t W Z s
  | _, s => Engaged tree given t W Z child s

variable (premises : Premises host tree here given) (watch : Watch t W Z)
include premises watch

/-- What a harmless request leaves, tools at work included. -/
theorem Stands.step {r : Request} (stands : Stands tree given t W Z s)
    (harmless : Harmless t here W Z r) : Stands tree given t W Z (host r s).2 := by
  obtain ⟨u, scribbled, upkeep, leaves, tells⟩ := premises.step r s
  have spares := (stands.spares.scribbled scribbled upkeep fun q ⟨child, isGiven⟩ among =>
    stands.off child q isGiven (watch.within q among)).answered watch.there harmless leaves tells
  refine ⟨spares, fun child q isGiven => ?_⟩
  rcases premises.hands r s child q isGiven with before | handed
  · exact stands.off child q before
  · cases r with
    | spawn command memory =>
      cases started : (host (.spawn command memory) s).1 with
      | ok child' =>
        rw [started] at handed
        exact harmless _ spares q handed.2
      | error cause =>
        rw [started] at handed
        exact handed.elim
    | _ => exact handed.elim

theorem Stands.run {p : Program α} (stands : Stands tree given t W Z s)
    (asks : Asks (Harmless t here W Z) p) : Stands tree given t W Z (p.run host s).2 :=
  asks.run (fun _ _ harmless stands => stands.step premises watch harmless) stands

theorem lasts_of_within {a : Action ε α} (asks : Within (Harmless t here W Z) a) :
    Ends host (Stands tree given t W Z) a (Lasts tree given t W Z) :=
  fun _ stands => (stands.run premises watch asks).lasts watch _

/-- A tool that has ended by itself, or was ended, keeps off again what it was given. -/
theorem command_lasts (command : Command) (memory limit : Option Nat)
    (clear : ∀ u, Spares t W u → ∀ q, Outputs u here command q → ¬ W q) :
    Ends host (Stands tree given t W Z) (command.run memory limit) (Lasts tree given t W Z) := by
  have busy {child : Child} {r : Request} {s : σ} (harmless : Harmless t here W W r)
      (alone : ∀ child' q, child' ≠ child → ¬ Hands (tree (host r s).2) here r (host r s).1 child' q)
      (working : Engaged tree given t W Z child s) : Engaged tree given t W Z child (host r s).2 :=
    ⟨working.1.step premises watch.own harmless, fun child' q other isGiven =>
      (premises.hands r s child' q isGiven).elim (working.2 child' q other)
        fun handed => absurd handed (alone child' q other)⟩
  have ended {child : Child} {s : σ} (working : Engaged tree given t W Z child s)
      (idle : ∀ q, ¬ given s child q) : Stands tree given t W Z s := by
    refine ⟨working.1.spares, fun child' q isGiven => ?_⟩
    by_cases other : child' = child
    · exact absurd (other ▸ isGiven) (idle q)
    · exact working.2 child' q other isGiven
  have calm {r : Request} (harmless : Harmless t here W Z r) {s : σ} (stands : Stands tree given t W Z s) :
      Stands tree given t W Z (host r s).2 := stands.step premises watch harmless
  unfold Command.run
  refine .asks (fun _ => Stands tree given t W Z) (fun s => calm (r := .isCancelled) trivial) fun cancelled => ?_
  cases cancelled with
  | true => exact .throw_bind fun s stands => stands.own watch
  | false =>
    refine .tries (Started tree given t W Z) ?_
      (fun _ _ => id) fun child => ?_
    · intro s stands
      have next := (stands.own watch).step premises watch.own (r := .spawn command memory) clear
      have hands := premises.hands (.spawn command memory) s
      have ran : (Program.spawn command memory).run host s = host (.spawn command memory) s := rfl
      rw [ran]
      cases started : (host (.spawn command memory) s).1 with
      | error cause => exact next
      | ok child =>
        rw [started] at hands
        exact ⟨next, fun child' q other isGiven =>
          (hands child' q isGiven).elim (stands.off child' q) fun handed => absurd handed.1 other⟩
    · have collected {s : σ} (working : Engaged tree given t W Z child s) :
          Engaged tree given t W Z child (host (.collect child) s).2 :=
        busy trivial (fun _ _ _ => id) working
      have terminated {s : σ} (working : Engaged tree given t W Z child s) :
          Stands tree given t W Z (host (.terminate child) s).2 :=
        ended (busy trivial (fun _ _ _ => id) working) (premises.ends child s)
      refine .asks (Waited tree given t W Z child) ?_ fun ending => ?_
      · intro s working
        have next := busy (r := .await child (Observation.ending? (limit.map (1000 * ·)))) trivial
          (fun _ _ _ => id) working
        cases answered : (host (.await child (Observation.ending? (limit.map (1000 * ·)))) s).1 with
        | error cause => exact next
        | ok ending =>
          cases ending with
          | exited status => exact ended next (premises.exits child _ s status answered)
          | cancelled => exact next
          | timedOut => exact next
      · rcases ending with cause | status | _ | _
        · exact .asks (fun _ => Engaged tree given t W Z child) (fun _ => collected) fun _ _ working => working.1
        · exact .asks (fun _ => Stands tree given t W Z) (fun _ => calm (r := .collect child) trivial)
            fun _ _ => id
        · exact .asks (fun _ => Stands tree given t W Z) (fun _ => terminated) fun _ =>
            .asks (fun _ => Stands tree given t W Z) (fun _ => calm (r := .collect child) trivial)
              fun _ _ stands => stands.own watch
        · exact .asks (fun _ => Engaged tree given t W Z child) (fun _ => busy trivial fun _ _ _ => id) fun _ =>
            .asks (fun _ => Stands tree given t W Z) (fun _ => terminated) fun _ =>
              .asks (fun _ => Stands tree given t W Z) (fun _ => calm (r := .collect child) trivial)
                fun _ _ => id

end Runs

/-! ## Scratch directories -/

/-- Whether a directory of its own has been made in a tree for a path that led to a free place. The
places to be spared are not below it. -/
structure Scratch (t : FileTree) (here : Place) (W : Place → Prop) (path : Path) (P : Place)
    (t' : FileTree) : Prop where
  spares : Spares t W t'
  free : ∀ q, P <+: q → Inert (t.node? q)
  outside : ∀ q, W q → ¬ P <+: q
  found : t'.find here path false = .ok ⟨P, some .directory⟩
  absolute : path.isAbsolute
  leads : Leads t' here path P
  empty : ∀ q, P <+: q → q ≠ P → t'.node? q = none

section Scratch

variable {t' : FileTree} {path : Path}

theorem Spares.drawn (spares : Spares t W u) (watched : ∀ q, W q → t.node? q ≠ none)
    (lodging : Lodging u here path P) : Scratch t here W path P (u.set P .directory) := by
  have free : ∀ q, P <+: q → u.node? q = none := lodging.free spares.grown
  obtain ⟨isNode, parent, -⟩ := find_sound spares.grown lodging.leads
  obtain ⟨view, -, -⟩ := added_set isNode.symm parent spares.grown
  have made : (u.set P .directory).node? P = some .directory := by rw [view, View.put_self]
  have same : SameOutside P u (u.set P .directory) := by
    intro q outside
    rw [view]
    exact .inl (View.put_other fun same => outside (same ▸ List.prefix_refl q))
  obtain ⟨home, left, goesOn⟩ := lodging.walk spares.grown same made
  have followed : (u.set P .directory).find here path true = .ok ⟨P, some .directory⟩ := by
    obtain ⟨filled, short, -⟩ := find_eq_ok.mp home
    have onward := goesOn true []
    rw [List.append_nil, walk, made] at onward
    exact find_eq_ok.mpr ⟨filled, short, by rw [if_pos lodging.absolute, onward]⟩
  refine ⟨spares.lodged watched lodging, fun q below => ?_, fun q among below => ?_, home, lodging.absolute,
    ⟨?_, ?_⟩,
    fun q below other => ?_⟩
  · rcases spares.upkeep q with same | ⟨inert, -⟩
    · rw [← same, free q below]
      exact inert_none
    · exact inert
  · exact watched q among (spares.spared q among ▸ free q below)
  · rw [FileTree.isDirectoryAt, made]
    rfl
  · exact .inr ⟨.directory, followed⟩
  · rw [view, View.put_other other, free q below]

/-- What is found by a name in a scratch directory is an entry of it, wherever it is looked for. -/
theorem Scratch.entry (scratch : Scratch t here W path P t') {name : String} (proper : Proper (utf8 name))
    (upkeep : Upkeep t' u) {base : Place} {followLast : Bool} {target : Target}
    (found : u.find base (path / name) followLast = .ok target) : target.place = P ++ [utf8 name] := by
  have free : t'.node? (P ++ [utf8 name]) = none := scratch.empty _ (List.prefix_append ..) (by simp)
  have leads := (scratch.leads.elsewhere scratch.absolute base).kept upkeep
  exact congrArg Target.place (leads.entry proper found fun _ =>
    upkeep.noLink fun path => by simp [free])

theorem Scratch.clear (scratch : Scratch t here W path P t') {name : String} (proper : Proper (utf8 name)) :
    Clear t' here W W (path / name) := by
  intro u spares followLast target found among
  rw [scratch.entry proper spares.upkeep found] at among
  exact scratch.outside _ among (List.prefix_append ..)

variable {host : Host σ} {tree : σ → FileTree} {given : σ → Child → Place → Prop} {s : σ}

/-- How things stand when a scratch directory was asked for. -/
def Drawn (tree : σ → FileTree) (given : σ → Child → Place → Prop) (t : FileTree) (here : Place)
    (W Z : Place → Prop) : Except Failure Path → σ → Prop
  | .ok path, s => ∃ P t', Scratch t here W path P t' ∧ Stands tree given t' W Z s
  | .error _, s => Stands tree given t W W s

variable (premises : Premises host tree here given) (watch : Watch t W Z)
include premises watch

theorem Stands.draws (stands : Stands tree given t W Z s) {first last : String}
    (drawn : (host (.temporaryDirectory first last) s).1 = Except.ok path) :
    ∃ P t', Scratch t here W path P t' ∧
      Stands tree given t' W Z (host (.temporaryDirectory first last) s).2 := by
  have next := stands.step premises watch (r := .temporaryDirectory first last) trivial
  obtain ⟨u, scribbled, upkeep, leaves, -⟩ := premises.step (.temporaryDirectory first last) s
  have spares := stands.spares.scribbled scribbled upkeep fun q ⟨child, isGiven⟩ among =>
    stands.off child q isGiven (watch.within q among)
  rw [drawn] at leaves
  obtain ⟨P, lodging, made⟩ : ∃ P, Lodging u here path P ∧
      tree (host (.temporaryDirectory first last) s).2 = u.set P .directory := leaves
  have scratch := made ▸ spares.drawn watch.there lodging
  exact ⟨P, _, scratch, ⟨scratch.spares.grown, .refl _, fun _ _ => rfl⟩, next.off⟩

theorem Stands.drawn (stands : Stands tree given t W Z s) (first last : String) :
    Drawn tree given t here W Z ((Program.temporaryDirectory first last).run host s).1
      ((Program.temporaryDirectory first last).run host s).2 := by
  have ran : (Program.temporaryDirectory first last).run host s =
      host (.temporaryDirectory first last) s := rfl
  rw [ran]
  cases drawn : (host (.temporaryDirectory first last) s).1 with
  | ok directory => exact stands.draws premises watch drawn
  | error cause => exact (stands.own watch).step premises watch.own (r := .temporaryDirectory ..) trivial

/-- A scratch directory is removed, or what is left of it is where nothing was. -/
theorem Scratch.removes (scratch : Scratch t here W path P t') (stands : Stands tree given t' W Z s) :
    Stands tree given t W Z (host (.file (.removeTree path)) s).2 := by
  obtain ⟨u, scribbled, upkeep, leaves, tells⟩ := premises.step (.file (.removeTree path)) s
  have spares := stands.spares.scribbled scribbled upkeep fun q ⟨child, isGiven⟩ among =>
    stands.off child q isGiven (watch.within q among)
  have named : P ≠ [] := by
    rintro rfl
    have inert := (scratch.free [] (List.prefix_refl _)).noDirectory
    rw [node?_root] at inert
    cases inert
  have made : u.node? P = some .directory := by
    have there : t'.node? P = some .directory := (find_sound scratch.spares.grown scratch.found).node.symm
    rcases spares.upkeep P with same | ⟨inert, -⟩
    · rw [same, there]
    · rw [there] at inert
      cases inert.noDirectory
  have home : u.find here path false = .ok ⟨P, some .directory⟩ :=
    made ▸ find_kept spares.upkeep scratch.found
  have gone : Grown (tree (host (.file (.removeTree path)) s).2).node? ∧
      (∀ q, ¬ P <+: q → (tree (host (.file (.removeTree path)) s).2).node? q = u.node? q) ∧
      ∀ q, (tree (host (.file (.removeTree path)) s).2).node? q = u.node? q ∨
        (tree (host (.file (.removeTree path)) s).2).node? q = none := by
    generalize tree (host (.file (.removeTree path)) s).2 = v at leaves tells
    cases answer : (host (.file (.removeTree path)) s).1 with
    | ok value =>
      rw [answer] at leaves
      have removed : u.removeTree here path = .ok v := leaves
      rw [removeTree_of_found home] at removed
      obtain rfl := Except.ok.inj removed
      have pruned : Trees.removeTree u P = .ok (u.prune P) := by
        rw [Trees.removeTree, made]
        rfl
      refine ⟨removeTree_grown spares.grown pruned, fun q outside => ?_, fun q => ?_⟩
      · rw [node?_prune named, if_neg outside]
      · rw [node?_prune named]
        split
        · exact .inr rfl
        · exact .inl rfl
    | error cause =>
      rw [answer] at leaves tells
      have scribbled : Scribbled _ u v := leaves
      refine ⟨scribbled.grown spares.grown, fun q outside => scribbled.kept q ?_, tells⟩
      rintro ⟨target, found, below⟩
      obtain rfl := Except.ok.inj (home.symm.trans found)
      exact outside below
  obtain ⟨grown, around, fewer⟩ := gone
  have before := scratch.spares.upkeep.trans spares.upkeep
  refine ⟨⟨grown, fun q => ?_, fun q among => ?_⟩, fun child q isGiven => ?_⟩
  · by_cases below : P <+: q
    · refine .inr ⟨scratch.free q below, ?_⟩
      rcases fewer q with same | none
      · rw [same]
        exact before.noLink (scratch.free q below).noLink
      · simp [none]
    · rw [around q below]
      exact before q
  · rw [around q (scratch.outside q among), spares.spared q among, scratch.spares.spared q among]
  · exact stands.off child q ((premises.hands _ s child q isGiven).resolve_right id)

end Scratch

end BugHunt.Proofs.Estate
