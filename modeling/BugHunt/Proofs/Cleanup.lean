import Mathlib
import BugHunt.Proofs.Housing
import BugHunt.Proofs.VariantKeys
/-!
What a call of the oracle leaves behind. Its workspace is gone at the end, unless debugging keeps it,
and around the workspace nothing has changed but what the sentinel of a crash was written to.
-/

namespace BugHunt.Proofs.Cleanup
open Courses Custody FileTree Growth Homing Housing Names Places Runs StageOrder Trees Ways

/-! ## Runs under a discipline -/

/-- What each answer keeps of a run that abides by a discipline, the whole run keeps. -/
theorem run_keeps {H : Type} {d : Discipline H} {h : H} {host : Host σ} {I : List Exchange → σ → Prop}
    (step : ∀ xs s r, I xs s → d.may (hold d h xs) r → I (xs ++ [⟨r, (host r s).1⟩]) (host r s).2)
    {Q : α → H → Prop} {p : Program α} (xs : List Exchange) {s : σ}
    (abides : Abides d Q (hold d h xs) p) (start : I xs s) :
    I (xs ++ record host s p) (p.run host s).2 := by
  induction p generalizing xs s with
  | done value =>
    rw [record, List.append_nil]
    exact start
  | ask r next ih =>
    have further := ih (host r s).1 (xs ++ [⟨r, (host r s).1⟩])
      (by rw [hold, List.foldl_append]; exact abides.2 _) (step xs s r start abides.1)
    rwa [List.append_assoc] at further

/-! ## Where the tree stands -/

variable {t u v : FileTree} {here P S : Place} {c : Config} {irPath : Path} {xs : List Exchange}
  {given : Place → Prop} {phase : Phase} {w : Workspace}

/-- Whether a stage had crashed when its sentinel was asked to be written, and to which place its path
led in the tree of that time. -/
structure Mark (t : FileTree) (here : Place) (irPath : Path) (P : Place) (xs : List Exchange)
    (stage : Stage) (v : FileTree) (S : Place) : Prop where
  asked : ∃ before x after w content, xs = before ++ x :: after ∧ standing before = .crashed w stage ∧
    x.request = .file (.write (sentinelPath irPath stage) content)
  around : ∀ q, ¬ P <+: q → v.node? q = t.node? q
  leads : ∃ node, v.find here (sentinelPath irPath stage) true = .ok ⟨S, node⟩

/-- The marks around a workspace: none, or one of a sentinel. -/
inductive Marks (t : FileTree) (here : Place) (irPath : Path) (P : Place) (xs : List Exchange) :
    (Place → Prop) → Prop
  | none : Marks t here irPath P xs fun _ => False
  | sentinel {stage : Stage} {v : FileTree} {S : Place} (mark : Mark t here irPath P xs stage v S) :
    Marks t here irPath P xs (· = S)

/-- Whether the workspace was made at a place that was free. -/
structure Lodged (t : FileTree) (here : Place) (irPath : Path) (xs : List Exchange) (w : Workspace)
    (P : Place) : Prop where
  lodging : Lodging t here w.root P
  drawn : ⟨.temporaryDirectory irPath.name ".scratch", .ok w.root⟩ ∈ xs

/-- The workspace, where it was made and its removal was not answered. -/
def open? : Phase → Option Workspace
  | .fresh | .cleared .. => none
  | .laid w | .assembling w _ | .assembled w | .prepared w _ | .generating w _ | .generated w
  | .analysing w _ | .analysed w | .crashed w _ | .closing w => some w

/-- How a tree that was `t` at the start of a call stands by where the call stands. -/
inductive Stands (t : FileTree) (here : Place) (irPath : Path) (xs : List Exchange) (u : FileTree)
    (given : Place → Prop) : Phase → Prop
  | fresh (same : u.node? = t.node?) (nothing : ∀ q, ¬ given q) : Stands t here irPath xs u given .fresh
  | laid {w : Workspace} {P : Place} (lodged : Lodged t here irPath xs w P)
    (housed : Housed t P (fun _ => False) u given) (nothing : ∀ q, ¬ given q)
    (unlinked : ∀ name path, u.node? (P ++ [name]) ≠ some (.link path)) :
    Stands t here irPath xs u given (.laid w)
  | housed {phase : Phase} {w : Workspace} {P : Place} (isOpen : open? phase = some w)
    (started : ∀ w, phase ≠ .laid w) (lodged : Lodged t here irPath xs w P)
    (housed : Housed t P (fun _ => False) u given) : Stands t here irPath xs u given phase
  | marked {w : Workspace} {P : Place} {stage : Stage} {v : FileTree} {S : Place}
    (lodged : Lodged t here irPath xs w P) (mark : Mark t here irPath P xs stage v S)
    (housed : Housed t P (· = S) u given) : Stands t here irPath xs u given (.closing w)
  | cleared {w : Workspace} {P : Place} {answer : Except Failure Unit} {marks : Place → Prop}
    (lodged : Lodged t here irPath xs w P) (isMarks : Marks t here irPath P xs marks)
    (asked : ⟨.file (.removeTree w.root), answer⟩ ∈ xs) (left : Left t P marks answer u given) :
    Stands t here irPath xs u given (.cleared w answer)

theorem Lodged.more (lodged : Lodged t here irPath xs w P) (x : Exchange) :
    Lodged t here irPath (xs ++ [x]) w P :=
  ⟨lodged.lodging, List.mem_append_left _ lodged.drawn⟩

theorem Mark.more {stage : Stage} (mark : Mark t here irPath P xs stage v S) (x : Exchange) :
    Mark t here irPath P (xs ++ [x]) stage v S := by
  obtain ⟨before, y, after, w, content, rfl, crashed, request⟩ := mark.asked
  exact { mark with asked := ⟨before, y, after ++ [x], w, content, by simp, crashed, request⟩ }

theorem Marks.more {marks : Place → Prop} (isMarks : Marks t here irPath P xs marks) (x : Exchange) :
    Marks t here irPath P (xs ++ [x]) marks := by
  cases isMarks with
  | none => exact .none
  | sentinel mark => exact .sentinel (mark.more x)

theorem Stands.more (stands : Stands t here irPath xs u given phase) (x : Exchange) :
    Stands t here irPath (xs ++ [x]) u given phase := by
  cases stands with
  | fresh same nothing => exact .fresh same nothing
  | laid lodged housed nothing unlinked => exact .laid (lodged.more x) housed nothing unlinked
  | housed isOpen started lodged housed => exact .housed isOpen started (lodged.more x) housed
  | marked lodged mark housed => exact .marked (lodged.more x) (mark.more x) housed
  | cleared lodged isMarks asked left =>
    exact .cleared (lodged.more x) (isMarks.more x) (List.mem_append_left _ asked) left

theorem scribbled_nothing (scribbled : Scribbled given u v) (nothing : ∀ q, ¬ given q) :
    v.node? = u.node? :=
  funext fun q => scribbled.kept q (nothing q)

/-- Tools that write where they may change nothing about how the tree stands. -/
theorem Stands.scribbled (stands : Stands t here irPath xs u given phase)
    (scribbled : Scribbled given u v) : Stands t here irPath xs v given phase := by
  cases stands with
  | fresh same nothing => exact .fresh ((scribbled_nothing scribbled nothing).trans same) nothing
  | laid lodged housed nothing unlinked =>
    refine .laid lodged (housed.scribbled scribbled) nothing ?_
    rwa [scribbled_nothing scribbled nothing]
  | housed isOpen started lodged housed => exact .housed isOpen started lodged (housed.scribbled scribbled)
  | marked lodged mark housed => exact .marked lodged mark (housed.scribbled scribbled)
  | cleared lodged isMarks asked left => exact .cleared lodged isMarks asked (left.scribbled scribbled)

theorem Stands.fewer {given' : Place → Prop} (stands : Stands t here irPath xs u given phase)
    (fewer : ∀ q, given' q → given q) : Stands t here irPath xs u given' phase := by
  cases stands with
  | fresh same nothing => exact .fresh same fun q isGiven => nothing q (fewer q isGiven)
  | laid lodged housed nothing unlinked =>
    exact .laid lodged (housed.fewer fewer) (fun q isGiven => nothing q (fewer q isGiven)) unlinked
  | housed isOpen started lodged housed =>
    exact .housed isOpen started lodged (housed.fewer fewer)
  | marked lodged mark housed => exact .marked lodged mark (housed.fewer fewer)
  | cleared lodged isMarks asked left => exact .cleared lodged isMarks asked (left.fewer fewer)

/-- Before a sentinel is written there are no marks around an open workspace. -/
theorem Stands.unmarked (stands : Stands t here irPath xs u given phase) (isOpen : open? phase = some w)
    (early : ∀ w, phase ≠ .closing w) :
    ∃ P, Lodged t here irPath xs w P ∧ Housed t P (fun _ => False) u given := by
  cases stands with
  | fresh => cases isOpen
  | laid lodged housed =>
    obtain rfl := Option.some.inj isOpen
    exact ⟨_, lodged, housed⟩
  | housed isOpen' _ lodged housed =>
    obtain rfl := Option.some.inj (isOpen.symm.trans isOpen')
    exact ⟨_, lodged, housed⟩
  | marked => exact absurd rfl (early _)
  | cleared => cases isOpen

theorem Stands.settled (stands : Stands t here irPath xs u given phase)
    (settled : phase.settled? = some w) : ∃ P marks, Lodged t here irPath xs w P ∧
      Marks t here irPath P xs marks ∧ Housed t P marks u given := by
  have isOpen : open? phase = some w := by
    cases phase <;> first | exact settled | cases settled
  cases stands with
  | fresh => cases settled
  | laid lodged housed =>
    obtain rfl := Option.some.inj settled
    exact ⟨_, _, lodged, .none, housed⟩
  | housed isOpen' _ lodged housed =>
    obtain rfl := Option.some.inj (isOpen.symm.trans isOpen')
    exact ⟨_, _, lodged, .none, housed⟩
  | marked lodged mark housed =>
    obtain rfl := Option.some.inj settled
    exact ⟨_, _, lodged, .sentinel mark, housed⟩
  | cleared => cases settled

/-! ## Steps -/

section Steps

variable {given' : Place → Prop}

/-- An answer that leaves the tree as it was and gives no tool anything to write to. -/
theorem Stands.stays {r : Request} {answer : r.Answer} (stands : Stands t here irPath xs u given phase)
    (same : v = u) (fewer : ∀ q, given' q → given q) (stays : phase.after r answer = phase) :
    Stands t here irPath (xs ++ [⟨r, answer⟩]) v given' (phase.after r answer) := by
  subst same
  rw [stays]
  exact (stands.fewer fewer).more _

/-- An answer that leaves the tree as it was and takes the call further, within its workspace. -/
theorem Stands.goes {r : Request} {answer : r.Answer} (stands : Stands t here irPath xs u given phase)
    (isOpen : open? phase = some w) (early : ∀ w, phase ≠ .closing w) (same : v = u)
    (gives : ∀ P, Lodging t here w.root P → Housed t P (fun _ => False) u given →
      ∀ q, given' q → Spare P q)
    (goes : open? (phase.after r answer) = some w) (started : ∀ w, phase.after r answer ≠ .laid w) :
    Stands t here irPath (xs ++ [⟨r, answer⟩]) v given' (phase.after r answer) := by
  subst same
  obtain ⟨P, lodged, housed⟩ := stands.unmarked isOpen early
  exact .housed goes started (lodged.more _) (housed.give (gives P lodged.lodging housed))

/-- Making the workspace, where nothing was made before. -/
theorem Stands.makes (grown : Grown t.node?) {answer : Except Failure Path}
    (stands : Stands t here irPath xs u given .fresh)
    (leaves : Leaves here u (.temporaryDirectory irPath.name ".scratch") answer v)
    (fewer : ∀ q, given' q → given q) :
    Stands t here irPath (xs ++ [⟨.temporaryDirectory irPath.name ".scratch", answer⟩]) v given'
      (Phase.fresh.after (.temporaryDirectory irPath.name ".scratch") answer) := by
  cases answer with
  | error cause => exact stands.stays leaves fewer rfl
  | ok root =>
    cases stands with
    | housed isOpen => cases isOpen
    | fresh same nothing =>
      obtain ⟨P, lodging, rfl⟩ : ∃ P, Lodging u here root P ∧ v = u.set P .directory := leaves
      obtain ⟨is, parent, -⟩ := find_sound (same ▸ grown) lodging.leads
      have lodging : Lodging t here root P :=
        { lodging with leads := by rw [← find_congr same]; exact lodging.leads }
      have free : ∀ q, P <+: q → u.node? q = none := by
        rw [same]
        exact lodging.free grown
      have writable : View.writable u.node? P := by
        rw [View.writable, View.directory, free P (List.prefix_refl P)]
        exact parent
      have view : (u.set P .directory).node? = View.put u.node? P (some .directory) :=
        node?_set (ne_root_of_writable writable)
      have entry (name : Bytes) (path : Path) : (u.set P .directory).node? (P ++ [name]) ≠
          some (.link path) := by
        rw [view, View.put_other (by simp), free _ (List.prefix_append ..)]
        simp
      refine .laid (w := ⟨root⟩) ⟨lodging, by simp⟩ ⟨?_, ?_, ?_, ?_, ?_⟩ ?_ entry
      · exact Grown.set (same ▸ grown) writable
      · rw [view, View.put_self]
      · intro q outside
        left
        rw [view, View.put_other (by rintro rfl; exact outside (List.prefix_refl q)), same]
      · exact fun room _ => entry (utf8 room)
      · exact fun q isGiven => absurd (fewer q isGiven) (nothing q)
      · exact fun q isGiven => nothing q (fewer q isGiven)

/-- Making a room of the workspace. -/
theorem Stands.furnishes (grown : Grown t.node?) {room : String} (among : room ∈ rooms)
    {answer : Except Failure Unit} (stands : Stands t here irPath xs u given (.laid w))
    (leaves : Leaves here u (.file (.createDirectory (w.root / room))) answer v)
    (fewer : ∀ q, given' q → given q) :
    Stands t here irPath (xs ++ [⟨.file (.createDirectory (w.root / room)), answer⟩]) v given'
      (.laid w) := by
  cases answer with
  | error cause => exact stands.stays leaves fewer rfl
  | ok value =>
    cases stands with
    | housed _ started => exact absurd rfl (started w)
    | @laid _ P lodged housed nothing unlinked =>
      obtain ⟨housed, view⟩ :=
        housed.createDirectory lodged.lodging grown (room_proper among) leaves
      refine .laid (lodged.more _) (housed.fewer fewer)
        (fun q isGiven => nothing q (fewer q isGiven)) ?_
      intro name path isLink
      rw [view] at isLink
      by_cases same : P ++ [name] = P ++ [utf8 room]
      · rw [same, View.put_self] at isLink
        cases isLink
      · rw [View.put_other same] at isLink
        exact unlinked name path isLink

/-- Starting a tool that is given nothing but what is spare in the workspace. -/
theorem Stands.starts {command : Command} {memory : Option Nat} {answer : Except Failure Child}
    (stands : Stands t here irPath xs u given phase) (isOpen : open? phase = some w)
    (early : ∀ w, phase ≠ .closing w)
    (gives : ∀ P, Lodging t here w.root P → Housed t P (fun _ => False) u given →
      ∀ q, Given u command q → Spare P q)
    (leaves : Leaves here u (.spawn command memory) answer v)
    (grants : ∀ q, given' q → given q ∨ Grants v (.spawn command memory) answer q)
    (declined : ∀ cause, phase.after (.spawn command memory) (.error cause) = phase)
    (goes : ∀ child, open? (phase.after (.spawn command memory) (.ok child)) = some w ∧
      ∀ w, phase.after (.spawn command memory) (.ok child) ≠ .laid w) :
    Stands t here irPath (xs ++ [⟨.spawn command memory, answer⟩]) v given'
      (phase.after (.spawn command memory) answer) := by
  have same : v = u := by cases answer <;> exact leaves
  subst same
  cases answer with
  | error cause =>
    exact stands.stays rfl (fun q isGiven => (grants q isGiven).resolve_right id) (declined cause)
  | ok child =>
    refine stands.goes isOpen early rfl (fun P lodging housed q isGiven => ?_) (goes child).1 (goes child).2
    rcases grants q isGiven with before | granted
    · exact housed.spare q before
    · exact gives P lodging housed q granted

theorem after_await (isOpen : open? phase = some w) (started : ∀ w, phase ≠ .laid w) (child : Child)
    (stop : Observation → Option Ending) (answer : Except Failure Ending) :
    open? (phase.after (.await child stop) answer) = some w ∧
      ∀ w, phase.after (.await child stop) answer ≠ .laid w := by
  have chosen {b : Bool} {first second : Phase} (one : open? first = some w ∧ ∀ w, first ≠ .laid w)
      (other : open? second = some w ∧ ∀ w, second ≠ .laid w) :
      open? (if b then first else second) = some w ∧ ∀ w, (if b then first else second) ≠ .laid w := by
    cases b
    · exact other
    · exact one
  cases phase <;> rcases answer with cause | status | _ | _ <;>
    first
    | exact ⟨isOpen, started⟩
    | exact ⟨isOpen, nofun⟩
    | exact chosen ⟨isOpen, nofun⟩ ⟨isOpen, nofun⟩

theorem Stands.awaits {child : Child} {stop : Observation → Option Ending}
    {answer : Except Failure Ending} (stands : Stands t here irPath xs u given phase)
    (isOpen : open? phase = some w) (working : (∀ w, phase ≠ .closing w) ∧ ∀ w, phase ≠ .laid w)
    (leaves : Leaves here u (.await child stop) answer v) (fewer : ∀ q, given' q → given q) :
    Stands t here irPath (xs ++ [⟨.await child stop, answer⟩]) v given'
      (phase.after (.await child stop) answer) := by
  obtain ⟨stillOpen, started⟩ := after_await isOpen working.2 child stop answer
  exact stands.goes isOpen working.1 leaves
    (fun _ _ housed q isGiven => housed.spare q (fewer q isGiven)) stillOpen started

theorem Stands.readsBitcode {path : Path} {content : Except Failure Bytes}
    (stands : Stands t here irPath xs u given phase) (unread : phase.unread? = some w)
    (leaves : Leaves here u (.file (.read path)) content v) (fewer : ∀ q, given' q → given q) :
    Stands t here irPath (xs ++ [⟨.file (.read path), content⟩]) v given'
      (phase.after (.file (.read path)) content) := by
  have stood := after_read unread path content
  have isOpen : open? phase = some w := by cases phase <;> first | exact unread | cases unread
  have early (w' : Workspace) : phase ≠ .closing w' := by
    rintro rfl
    cases unread
  cases isBitcode : content.toOption.any isBitcode with
  | true =>
    rw [isBitcode, if_pos rfl] at stood
    exact stands.goes isOpen early leaves (fun _ _ housed q isGiven => housed.spare q (fewer q isGiven))
      (by rw [stood]; rfl) (by rw [stood]; exact nofun)
  | false =>
    rw [isBitcode, if_neg (by simp)] at stood
    exact stands.stays leaves fewer stood

/-- Writing a sentinel where a stage has crashed. -/
theorem Stands.writes {stage : Stage} {content : Bytes} {answer : Except Failure Unit}
    (stands : Stands t here irPath xs u given (.crashed w stage))
    (stood : standing xs = .crashed w stage)
    (leaves : Leaves here u (.file (.write (sentinelPath irPath stage) content)) answer v)
    (fewer : ∀ q, given' q → given q) :
    Stands t here irPath (xs ++ [⟨.file (.write (sentinelPath irPath stage) content), answer⟩]) v
      given' (.closing w) := by
  obtain ⟨P, lodged, housed⟩ := stands.unmarked rfl nofun
  have stored {part : Bytes} (written : u.write here (sentinelPath irPath stage) part = .ok v) :
      Stands t here irPath (xs ++ [⟨.file (.write (sentinelPath irPath stage) content), answer⟩]) v
        given' (.closing w) := by
    obtain ⟨S, node, found, marked⟩ := housed.write written
    refine .marked (lodged.more _) ⟨⟨xs, _, [], w, content, rfl, stood, rfl⟩, ?_, node, found⟩
      ((marked.more fun q mark => mark.resolve_left id).fewer fewer)
    intro q outside
    exact (housed.around q outside).resolve_right fun mark => mark.1
  cases answer with
  | ok value => exact stored leaves
  | error cause =>
    rcases leaves with same | ⟨part, written⟩
    · subst same
      exact .housed rfl nofun (lodged.more _) (housed.fewer fewer)
    · exact stored written

/-- How the tree stands after a request that the oracle may make. -/
theorem Stands.step (grown : Grown t.node?) {r : Request} {answer : r.Answer}
    (stands : Stands t here irPath xs u given (standing xs)) (may : May c irPath (standing xs) r)
    (leaves : Leaves here u r answer v) (grants : ∀ q, given' q → given q ∨ Grants v r answer q) :
    Stands t here irPath (xs ++ [⟨r, answer⟩]) v given' ((standing xs).after r answer) := by
  generalize stood : standing xs = phase at stands may ⊢
  have kept (none : ∀ q, ¬ Grants v r answer q) (q : Place) (isGiven : given' q) : given q :=
    (grants q isGiven).resolve_right (none q)
  cases may with
  | aside aside =>
    have same : v = u := by cases aside <;> exact leaves
    exact stands.stays same (kept (by cases aside <;> exact fun _ => id)) (after_aside phase aside answer)
  | makesWorkspace => exact stands.makes grown leaves (kept fun _ => id)
  | makesFacts w =>
    exact stands.furnishes grown (show "facts" ∈ rooms by simp [rooms]) leaves (kept fun _ => id)
  | makesResults w =>
    exact stands.furnishes grown (show "results" ∈ rooms by simp [rooms]) leaves (kept fun _ => id)
  | makesRoot w =>
    have same : v = u := by
      rcases leaves with same | same
      · exact same
      · obtain ⟨P, lodged, housed⟩ := stands.unmarked rfl (by simp)
        rw [same, createDirectories_of_found (lodged.lodging.home grown housed.sameOutside housed.made)]
    exact stands.stays same (kept fun _ => id) rfl
  | assembles w memory =>
    cases answer with
    | error cause => exact stands.stays leaves (kept fun _ => id) rfl
    | ok child =>
      cases stands with
      | housed _ started => exact absurd rfl (started w)
      | laid lodged housed nothing unlinked =>
        have same : v = u := leaves
        subst same
        refine .housed rfl (by simp [Phase.after]) (lodged.more _) (housed.give fun q isGiven => ?_)
        rcases grants q isGiven with before | granted
        · exact absurd before (nothing q)
        · exact given_output (c := c) housed lodged.lodging grown unlinked granted
  | awaitsAssembler w child stop =>
    exact stands.awaits (w := w) rfl ⟨by simp, by simp⟩ leaves (kept fun _ => id)
  | readsBitcode unread path => exact stands.readsBitcode unread leaves (kept fun _ => id)
  | generates w bitcode memory =>
    exact stands.starts (w := w) rfl (by simp) (fun _ lodging housed _ => given_facts housed lodging grown)
      leaves grants (fun _ => rfl) fun _ => ⟨rfl, by simp [Phase.after]⟩
  | awaitsFacts w child stop =>
    exact stands.awaits (w := w) rfl ⟨by simp, by simp⟩ leaves (kept fun _ => id)
  | analyses w memory =>
    exact stands.starts (w := w) rfl (by simp) (fun _ lodging housed _ => given_results housed lodging grown)
      leaves grants (fun _ => rfl) fun _ => ⟨rfl, by simp [Phase.after]⟩
  | awaitsAnalysis w child stop =>
    exact stands.awaits (w := w) rfl ⟨by simp, by simp⟩ leaves (kept fun _ => id)
  | looks w among => exact stands.stays leaves (kept fun _ => id) rfl
  | reads w among => exact stands.stays leaves (kept fun _ => id) rfl
  | writes w stage content => exact stands.writes stood leaves (kept fun _ => id)
  | removes settled =>
    obtain ⟨P, marks, lodged, isMarks, housed⟩ := stands.settled settled
    have left := housed.removeTree lodged.lodging grown leaves
    have cleared : phase.after (.file (.removeTree _)) answer = .cleared _ answer :=
      after_removeTree settled _ answer
    rw [cleared]
    exact .cleared (lodged.more _) (isMarks.more _) (by simp) (left.fewer (kept fun _ => id))

end Steps

/-! ## Whole calls -/

variable {host : Host σ} {tree : σ → FileTree} {give : σ → Place → Prop}

/-- What a request of the oracle leaves in a workshop, tools at work included. -/
theorem stands_step (shop : Workshop host tree here give) (grown : Grown t.node?) {s : σ} {r : Request}
    (stands : Stands t here irPath xs (tree s) (give s) (standing xs)) (may : May c irPath (standing xs) r) :
    Stands t here irPath (xs ++ [⟨r, (host r s).1⟩]) (tree (host r s).2) (give (host r s).2)
      (standing (xs ++ [⟨r, (host r s).1⟩])) := by
  obtain ⟨u, scribbled, leaves⟩ := shop.step r s
  have further := (stands.scribbled scribbled).step grown may leaves (shop.grants r s)
  rwa [standing, List.foldl_append]

/-- Where a call of the oracle leaves off, and how the tree stands then. -/
theorem classify_stands (shop : Workshop host tree here give) {s : σ} (grown : Grown (tree s).node?)
    (nothing : ∀ q, ¬ give s q) (c : Config) (irPath : Path) :
    Stands (tree s) here irPath (record host s (Oracle.classify c irPath).run)
      (tree (exec host s (Oracle.classify c irPath)).2) (give (exec host s (Oracle.classify c irPath)).2)
      (standing (record host s (Oracle.classify c irPath).run)) :=
  run_keeps (d := discipline c irPath) (h := .fresh)
    (I := fun xs s' => Stands (tree s) here irPath xs (tree s') (give s') (standing xs))
    (fun _ _ _ stands may => stands_step shop grown stands may) [] classify_heeds (.fresh rfl nothing)

/-- Whether a place is the entry of a program's sentinel beside the program: if no link stands there, it
is in the directory that has the entries of all paths that differ from the program's in their last
name only, and it is not what the name of the program's bitcode leads to. -/
def Beside (v : FileTree) (here : Place) (irPath : Path) (stage : Stage) (S : Place) : Prop :=
  ∀ pre stem old, irPath.pieces = pre ++ [stem ++ Path.dot :: old] → Stem stem → Path.dot ∉ old →
    Unlinked v here (sentinelPath irPath stage) →
      ∃ d, S = d ++ [stem ++ Path.dot :: utf8 stage.sentinelExtension] ∧
        (∀ p name, Ends p pre name → v.find here p false = entry v d p name) ∧
        ∀ target, v.find here (irPath.withExtension "bc") false = .ok target → target.place ≠ S

/-- Another extension makes another last name. -/
theorem withExtension_ends (new : String) {pre : List Bytes} {stem old : Bytes}
    (pieces : irPath.pieces = pre ++ [stem ++ Path.dot :: old]) (isStem : Stem stem)
    (plain : Path.dot ∉ old) (clean : Path.slash ∉ utf8 new) :
    Ends (irPath.withExtension new) pre (stem ++ Path.dot :: utf8 new) := by
  obtain ⟨lead, isLead, bytes⟩ := lead_of_pieces pieces
  have cleanOld : Path.slash ∉ old := by
    have cleanName : Path.slash ∉ stem ++ Path.dot :: old := by
      apply separator_notMem_piece
      rw [show Bytes.splitOn Path.slash irPath.bytes = pre ++ [stem ++ Path.dot :: old] from pieces]
      simp
    exact fun found => cleanName (by simp [found])
  have proper := isStem.proper clean
  rw [show irPath = ⟨lead ++ (stem ++ Path.dot :: old)⟩ from congrArg Path.mk bytes,
    withExtension_of_lead isLead isStem cleanOld plain clean]
  exact ⟨(isLead _ proper.clean).1, proper⟩

theorem beside_of_leads {stage : Stage} {node : Option Node}
    (leads : v.find here (sentinelPath irPath stage) true = .ok ⟨S, node⟩) :
    Beside v here irPath stage S := by
  intro pre stem old pieces isStem plain unlinked
  have ends := withExtension_ends stage.sentinelExtension pieces isStem plain
    (by cases stage <;> decide)
  have endsBitcode := withExtension_ends "bc" pieces isStem plain (by decide)
  obtain ⟨d, entries⟩ := entries_of_found (.refl v) ends leads
  have found := ((entries _ _ true ends).1 (.inr unlinked)).symm.trans leads
  obtain ⟨rfl, -⟩ := Target.mk.inj (entry_eq_ok found).1
  refine ⟨d, rfl, fun p name ends => (entries p name false ends).1 (.inl rfl), ?_⟩
  intro target foundBitcode same
  have isEntry := ((entries _ _ false endsBitcode).1 (.inl rfl)).symm.trans foundBitcode
  rw [(entry_eq_ok isEntry).1] at same
  have names := List.singleton_inj.mp (List.append_cancel_left same)
  have extensions := (List.cons.inj (List.append_cancel_left names)).2
  cases stage
  · exact absurd extensions (by decide)
  · exact absurd extensions (by decide)

/-- How a tree `u` that a call of the oracle left differs from the tree `t` at its start. -/
structure Tidied (c : Config) (irPath : Path) (here : Place) (t u : FileTree)
    (result : Except OracleError Classification) (xs : List Exchange) (w : Workspace) (P : Place) : Prop where
  lodged : Lodged t here irPath xs w P
  free : ∀ q, P <+: q → t.node? q = none
  gone : c.debug = false ∨ Unmade result → (∀ q, P <+: q → u.node? q = none) ∨
    ∃ cause, ⟨.file (.removeTree w.root), .error cause⟩ ∈ xs
  kept : c.debug → ¬ Unmade result → u.node? P = some .directory
  around : (∀ q, ¬ P <+: q → u.node? q = t.node? q) ∨
    ∃ stage v S, Mark t here irPath P xs stage v S ∧ Beside v here irPath stage S ∧
      ∀ q, ¬ P <+: q → q ≠ S → u.node? q = t.node? q

theorem around_of_marks {marks : Place → Prop} (isMarks : Marks t here irPath P xs marks)
    (around : Around P marks t u) : (∀ q, ¬ P <+: q → u.node? q = t.node? q) ∨
      ∃ stage v S, Mark t here irPath P xs stage v S ∧ Beside v here irPath stage S ∧
        ∀ q, ¬ P <+: q → q ≠ S → u.node? q = t.node? q := by
  cases isMarks with
  | none => exact .inl fun q outside => (around q outside).resolve_right And.left
  | sentinel mark =>
    obtain ⟨node, leads⟩ := mark.leads
    exact .inr ⟨_, _, _, mark, beside_of_leads leads, fun q outside other =>
      (around q outside).resolve_right fun marked => other marked.1⟩

/-- A call of the oracle in a workshop where no tool is at work. If no workspace could be drawn it
changes nothing. Otherwise nothing is left of the workspace, unless its removal was refused or all of
it was made and debugging keeps it. Around it everything is as before, but for one place at most: where
the path of the sentinel led when it was written after a crash. That is beside the program, unless a
link stands there. -/
theorem classify_tidied (shop : Workshop host tree here give) (s : σ) (grown : Grown (tree s).node?)
    (nothing : ∀ q, ¬ give s q) (c : Config) (irPath : Path) :
    let result := (exec host s (Oracle.classify c irPath)).1
    let u := tree (exec host s (Oracle.classify c irPath)).2
    let xs := record host s (Oracle.classify c irPath).run
    (Unmade result ∧ u.node? = (tree s).node?) ∨
      ∃ w P, Tidied c irPath here (tree s) u result xs w P := by
  intro result u xs
  have stands : Stands (tree s) here irPath xs u _ (standing xs) :=
    classify_stands shop grown nothing c irPath
  have ended : Ended c result (standing xs) :=
    (abides_course classify_heeds (course_run host s (Oracle.classify c irPath).run)).1
  generalize standing xs = phase at stands ended
  cases ended with
  | fresh unmade =>
    cases stands with
    | housed isOpen => cases isOpen
    | fresh same => exact .inl ⟨unmade, same⟩
  | cleared w answer debugging =>
    cases stands with
    | housed isOpen => cases isOpen
    | @cleared _ P _ marks lodged isMarks asked left =>
      refine .inr ⟨w, P, lodged, lodged.lodging.free grown, fun _ => ?_, ?_,
        around_of_marks isMarks left.around⟩
      · cases answer with
        | ok value => exact .inl fun _ => free_below left.grown (left.gone rfl)
        | error cause => exact .inr ⟨cause, asked⟩
      · exact fun isDebug made => absurd (debugging isDebug) made
  | kept settled debugging made =>
    obtain ⟨P, marks, lodged, isMarks, housed⟩ := stands.settled settled
    refine .inr ⟨_, P, lodged, lodged.lodging.free grown, ?_, fun _ _ => housed.made,
      around_of_marks isMarks housed.around⟩
    rintro (plain | unmade)
    · rw [debugging] at plain
      cases plain
    · exact absurd unmade made

/-! ## A fact generator that fails -/

section Failing

variable {host : Host σ} {s s₁ s₂ s₃ s₄ s₅ : σ}

theorem exec_told {k : Sentinel} {crash timeout : String} {marked : Bytes → σ}
    (silent : ∀ line, (Program.warn line).run host s = ((), s))
    (written : ∀ content, (Program.write k.path content).run host s = (.ok (), marked content)) :
    exec host s (Oracle.reportTrouble k.artifact k.tool k.stage crash timeout (.crashed k.output)) =
      (.ok (), marked (utf8 k.toJson.pretty)) := by
  have logged (line : String) : exec host s (monadLift (Program.warn line) : Judging Unit) = (.ok (), s) := by
    rw [exec_monadLift, silent]
  have stored : exec host s (Action.orFail (Program.write k.path (utf8 k.toJson.pretty))
      (OracleError.sentinel k.path)) = (.ok (), marked (utf8 k.toJson.pretty)) := by
    rw [exec_orFail, written, mapError_ok]
  have noted : exec host s (Sentinel.write k) = (.ok k.path, marked (utf8 k.toJson.pretty)) :=
    exec_bind_ok stored
  rw [Oracle.reportTrouble, exec_bind_ok (logged _), exec_bind_ok (logged _)]
  exact exec_bind_ok noted

theorem exec_of_failing {bitcode : Path} {output : Output}
    (made : exec host s (Workspace.create irPath.name) = (.ok w, s₁))
    (assembled : exec host s₁ (Compile.assemble c irPath w.root) = (.ok bitcode, s₂))
    (fails : exec host s₂ (Oracle.runStage c (Oracle.factCommand c w bitcode)) = (.ok (.crashed output), s₃))
    (noted : exec host s₃ (Oracle.reportTrouble irPath c.tools.factgen .factGeneration
      "Fact generator crash!" "Fact generator timeout!" (.crashed output)) = (.ok (), s₄))
    (discarded : (w.discard c.debug).run host s₄ = ((), s₅)) :
    exec host s (Oracle.classify c irPath) = (.ok .uninteresting, s₅) := by
  have judged : exec host s₁ (Oracle.classifyIn c w irPath) = (.ok .uninteresting, s₄) := by
    rw [Oracle.classifyIn, exec_bind_ok (exec_adapt_ok assembled), exec_bind_ok fails]
    exact exec_bind_ok noted
  rw [Oracle.classify, exec_bind_ok (exec_adapt_ok made), exec_cleaningUp, judged, discarded]

end Failing

/-! ## A tool that fails -/

/-- What is told of an operation that has been carried out, or could not be. -/
def told : Except Errno α → Except Failure α := Except.mapError .system

def carried (t : FileTree) : Except Errno FileTree → Except Failure Unit × FileTree
  | .ok u => (.ok (), u)
  | .error errno => (.error (.system errno), t)

theorem carried_cases {t : FileTree} (P : Except Failure Unit → FileTree → Prop)
    (result : Except Errno FileTree) (done : ∀ u, result = .ok u → P (.ok ()) u)
    (failed : ∀ cause, P (.error cause) t) : P (carried t result).1 (carried t result).2 := by
  cases result with
  | ok u => exact done u rfl
  | error errno => exact failed _

/-- A host with nothing but files, which may refuse to remove a tree, and with tools that write
nothing and fail. -/
def failing (removes : Bool) : Host FileTree
  | .file (.read p), t => (told (t.read [] p), t)
  | .file (.exists p), t => (t.exists [] p, t)
  | .file (.isFile p), t => (t.isFile [] p, t)
  | .file (.createDirectories p), t => (told (t.createDirectories [] p).2, (t.createDirectories [] p).1)
  | .file (.createDirectory p), t => carried t (t.createDirectory [] p)
  | .file (.write p content), t => carried t (t.write [] p content)
  | .file (.makeExecutable p), t => carried t (t.setExecutable [] p true)
  | .file (.touch p), t => carried t (t.touch [] p)
  | .file (.rename p q), t => carried t (t.rename [] p q)
  | .file (.remove p), t => carried t (t.remove [] p)
  | .file (.removeTree p), t => carried t (if removes then t.removeTree [] p else .error .denied)
  | .temporaryDirectory _ _, t => match t.createDirectory [] "/tmp/m.scratch" with
    | .ok u => (.ok "/tmp/m.scratch", u)
    | .error errno => (.error (.system errno), t)
  | .file (.copy ..), t | .temporaryFile .., t => (.error (.system .denied), t)
  | .search _, t => ([], t)
  | .isCancelled, t => (false, t)
  | .choose _, t => (Nat.zero, t)
  | .log _, t | .terminate _, t => ((), t)
  | .spawn .., t => (.ok ⟨0⟩, t)
  | .await .., t => (.ok (.exited (.exited 1)), t)
  | .collect _, t => (([], []), t)

theorem failing_leaves (removes : Bool) (r : Request) (t : FileTree) :
    Leaves [] t r (failing removes r t).1 (failing removes r t).2 := by
  cases r with
  | file request =>
    cases request with
    | createDirectories p => exact .inr rfl
    | createDirectory p =>
      exact carried_cases (Leaves [] t (.file (.createDirectory p))) _ (fun _ => id) fun _ => rfl
    | write p content =>
      exact carried_cases (Leaves [] t (.file (.write p content))) _ (fun _ => id) fun _ => .inl rfl
    | removeTree p =>
      refine carried_cases (Leaves [] t (.file (.removeTree p))) _ (fun u removed => ?_) fun _ =>
        ⟨fun _ _ => rfl, id⟩
      cases removes with
      | false => cases removed
      | true => exact removed
    | read | «exists» | isFile => exact rfl
    | makeExecutable | touch | copy | rename | remove => exact trivial
  | temporaryDirectory before after =>
    show Leaves [] t (.temporaryDirectory before after) (match t.createDirectory [] "/tmp/m.scratch" with
        | .ok u => (.ok "/tmp/m.scratch", u)
        | .error errno => (.error (.system errno), t) : Except Failure Path × FileTree).1
      (match t.createDirectory [] "/tmp/m.scratch" with
        | .ok u => (.ok "/tmp/m.scratch", u)
        | .error errno => (.error (.system errno), t) : Except Failure Path × FileTree).2
    cases made : t.createDirectory [] "/tmp/m.scratch" with
    | ok u =>
      obtain ⟨P, found, is⟩ := createDirectory_eq_ok made
      exact ⟨P, ⟨found, by decide, by decide⟩, is⟩
    | error errno => exact rfl
  | temporaryFile => exact trivial
  | search | isCancelled | choose | log | spawn | await | terminate | collect => exact rfl

theorem failing_workshop (removes : Bool) : Workshop (failing removes) id [] fun _ _ => False where
  step r t := ⟨t, ⟨fun _ _ => rfl, id⟩, failing_leaves removes r t⟩
  grants _ _ _ := False.elim

/-- A program with bitcode in it, and a file that is not to be written to. -/
def desk (sentinel : Node) : FileTree := ⟨[([utf8 "d"], .directory), ([utf8 "tmp"], .directory),
  ([utf8 "d", utf8 "m.bc"], .file [0x42, 0x43, 0xC0, 0xDE] false), ([utf8 "d", utf8 "keep"], .file [] false),
  ([utf8 "d", utf8 "m.factgen-crash"], sentinel)]⟩

def laid (sentinel : Node) : FileTree := ⟨(desk sentinel).nodes ++
  [([utf8 "tmp", utf8 "m.scratch"], .directory),
  ([utf8 "tmp", utf8 "m.scratch", utf8 "facts"], .directory),
  ([utf8 "tmp", utf8 "m.scratch", utf8 "results"], .directory)]⟩

theorem make_on_desk (removes : Bool) (sentinel : Node) :
    exec (failing removes) (desk sentinel) (Workspace.create "m.bc") =
      (.ok ⟨"/tmp/m.scratch"⟩, laid sentinel) := by
  cbv

theorem assemble_on_desk (removes : Bool) (sentinel : Node) :
    exec (failing removes) (laid sentinel)
      (Compile.assemble VariantKeys.plain "/d/m.bc" "/tmp/m.scratch") =
        (.ok "/d/m.bc", laid sentinel) := by
  cbv

theorem stage_on_desk (removes : Bool) (t : FileTree) (command : Command) :
    exec (failing removes) t (Oracle.runStage VariantKeys.plain command) =
      (.ok (.crashed ⟨[], [], some 1, none⟩), t) := rfl

/-- An object is written from its brace on. -/
theorem pretty_head (entry : String × Json) (entries : List (String × Json)) :
    (utf8 (Json.object (entry :: entries)).pretty).head? = some 0x7B := by
  have brace : utf8 "\x7b" = [0x7B] := by decide
  have signs (rest : List Char) : String.ofList ('\x7b' :: rest) = "\x7b" ++ String.ofList rest := by
    apply String.toList_injective
    simp
  rw [Json.pretty, Json.print, List.cons_append, List.cons_append, List.cons_append, signs, Texts.utf8_append,
    brace]
  rfl

/-- The sentinel of a fact generator that fails on a desk without a word. -/
def deskCrash : Sentinel :=
  ⟨.factGeneration, VariantKeys.plain.tools.factgen, "/d/m.bc", ⟨[], [], some 1, none⟩⟩

section Crash

variable (removes : Bool) {start laid : FileTree} {marked : Bytes → FileTree}
  (made : exec (failing removes) start (Workspace.create "m.bc") = (.ok ⟨"/tmp/m.scratch"⟩, laid))
  (assembled : exec (failing removes) laid
    (Compile.assemble VariantKeys.plain "/d/m.bc" "/tmp/m.scratch") = (.ok "/d/m.bc", laid))
  (written : ∀ content, laid.write [] "/d/m.factgen-crash" content = .ok (marked content))

include made assembled written in
/-- The sentinel of the crash, and the removal of the workspace. -/
theorem crash_classified : exec (failing removes) start (Oracle.classify VariantKeys.plain "/d/m.bc") =
    (.ok .uninteresting, (carried (marked (utf8 deskCrash.toJson.pretty)) (if removes
      then (marked (utf8 deskCrash.toJson.pretty)).removeTree [] "/tmp/m.scratch" else .error .denied)).2) := by
  rw [← show Path.name "/d/m.bc" = "m.bc" by decide +kernel] at made
  have stored (content : Bytes) : (Program.write deskCrash.path content).run (failing removes) laid =
      (.ok (), marked content) := by
    rw [show deskCrash.path = "/d/m.factgen-crash" by decide +kernel]
    show carried laid _ = _
    rw [written]
    rfl
  exact exec_of_failing made assembled (stage_on_desk ..)
    (exec_told (k := deskCrash) (fun _ => rfl) stored) rfl

end Crash

theorem crash_on_desk (removes : Bool) {sentinel : Node} {marked : Bytes → FileTree}
    (written : ∀ content, (laid sentinel).write [] "/d/m.factgen-crash" content = .ok (marked content)) :
    ∃ content, content ≠ [] ∧
      exec (failing removes) (desk sentinel) (Oracle.classify VariantKeys.plain "/d/m.bc") =
        (.ok .uninteresting, (carried (marked content) (if removes
          then (marked content).removeTree [] "/tmp/m.scratch" else .error .denied)).2) := by
  refine ⟨utf8 deskCrash.toJson.pretty, fun none => ?_, crash_classified removes (make_on_desk removes sentinel)
    (assemble_on_desk removes sentinel) written⟩
  have head : (utf8 deskCrash.toJson.pretty).head? = some 0x7B := pretty_head _ _
  rw [none] at head
  cases head

/-- A link at the name of the sentinel: the file that it leads to is written over, and the link stays.
And a workspace that the host does not remove stays, too. -/
theorem crash_over_link_or_refused :
    (∀ removes, Workshop (failing removes) id [] fun _ _ => False) ∧ VariantKeys.plain.debug = false ∧
    (∃ u content, exec (failing true) (desk (.link "keep")) (Oracle.classify VariantKeys.plain "/d/m.bc") =
        (.ok .uninteresting, u) ∧ content ≠ [] ∧
      (desk (.link "keep")).node? [utf8 "d", utf8 "keep"] = some (.file [] false) ∧
      u.node? [utf8 "d", utf8 "keep"] = some (.file content false) ∧
      u.node? [utf8 "d", utf8 "m.factgen-crash"] = some (.link "keep")) ∧
    ∃ u, exec (failing false) (desk (.link "keep")) (Oracle.classify VariantKeys.plain "/d/m.bc") =
        (.ok .uninteresting, u) ∧
      u.node? [utf8 "tmp", utf8 "m.scratch"] = some .directory := by
  have written (content : Bytes) : (laid (.link "keep")).write [] "/d/m.factgen-crash" content =
      .ok ((laid (.link "keep")).set [utf8 "d", utf8 "keep"] (.file content false)) := by
    cbv
  have removed (content : Bytes) : ((laid (.link "keep")).set [utf8 "d", utf8 "keep"]
      (.file content false)).removeTree [] "/tmp/m.scratch" =
        .ok ((desk (.link "keep")).set [utf8 "d", utf8 "keep"] (.file content false)) := by
    cbv
  refine ⟨failing_workshop, rfl, ?_, ?_⟩
  · obtain ⟨content, some, ran⟩ := crash_on_desk true written
    rw [if_pos rfl, removed] at ran
    exact ⟨_, content, ran, some, rfl, rfl, rfl⟩
  · obtain ⟨content, -, ran⟩ := crash_on_desk false written
    exact ⟨_, ran, rfl⟩

theorem desk_grown : Grown (desk (.file [] false)).node? := by
  refine grown_of_nodes fun entry found => ?_
  simp only [desk, List.mem_cons, List.not_mem_nil, or_false] at found
  rcases found with rfl | rfl | rfl | rfl | rfl <;> rfl

/-- The crash on a desk without links, and all that it leaves. -/
theorem crash_on_desk_tidied :
    Workshop (failing true) id [] (fun _ _ => False) ∧ Grown (desk (.file [] false)).node? ∧
    ∃ u w P, exec (failing true) (desk (.file [] false)) (Oracle.classify VariantKeys.plain "/d/m.bc") =
        (.ok .uninteresting, u) ∧
      Tidied VariantKeys.plain "/d/m.bc" [] (desk (.file [] false)) u (.ok .uninteresting)
        (record (failing true) (desk (.file [] false))
          (Oracle.classify VariantKeys.plain "/d/m.bc").run) w P := by
  refine ⟨failing_workshop true, desk_grown, ?_⟩
  have tidied := classify_tidied (failing_workshop true) (desk (.file [] false)) desk_grown (fun _ => id)
    VariantKeys.plain "/d/m.bc"
  have written (content : Bytes) : (laid (.file [] false)).write [] "/d/m.factgen-crash" content =
      .ok (laid (.file content false)) := by
    cbv
  obtain ⟨content, -, ran⟩ := crash_on_desk true written
  rw [ran] at tidied
  rcases tidied with ⟨⟨cause, failed⟩, -⟩ | ⟨w, P, tidied⟩
  · cases failed
  · exact ⟨_, w, P, ran, tidied⟩

end BugHunt.Proofs.Cleanup
