import BugHunt.Proofs.Grounds
import BugHunt.Proofs.Prefixes
import BugHunt.Proofs.Repositories
/-!
What fetching establishes where nothing ceases to exist. When it ends well every root that a repository
provides is there, git has been run once for each of the directories that are listed, and nothing was
there that these directories would hold; when it is run again it has nothing to do. What a directory
would hold includes the directory itself, so none is listed twice.
-/

namespace BugHunt.Proofs.Fetched
open Courses Fetching FileTree Grounds Prefixes Repositories Runs

/-- What fetching may ask. -/
inductive Errand : Request → Prop
  | look (p : Path) : Errand (.file (.exists p))
  | stop : Errand .isCancelled
  | start (command : Command) (memory : Option Nat) : Errand (.spawn command memory)
  | tend {r : Request} (tending : Tending r) : Errand r

/-- Whether what exists in a tree exists in another one: directories as directories, and other things
as other things. -/
def Lasts (here : Place) (t u : FileTree) : Prop :=
  ∀ p, t.exists here p → u.exists here p ∧ u.isDirectory here p = t.isDirectory here p

/-- A host that keeps its files in a tree and tells what exists, and under which nothing ceases to exist
while it fetches. -/
structure Lasting (host : Host σ) (tree : σ → FileTree) (here : Place) : Prop where
  tells : ∀ p s, (host (.file (.exists p)) s).1 = (tree (host (.file (.exists p)) s).2).exists here p
  lasts : ∀ r s, Errand r → Lasts here (tree s) (tree (host r s).2)

variable {host : Host σ} {tree : σ → FileTree} {here : Place} {s : σ} {t u v : FileTree} {c : Config}
  {memory : Option Nat} {root : Path} {xs : List Exchange}

theorem Lasts.refl (t : FileTree) : Lasts here t t := fun _ there => ⟨there, rfl⟩

theorem Lasts.trans (first : Lasts here t u) (second : Lasts here u v) : Lasts here t v := by
  intro p there
  obtain ⟨there, same⟩ := first p there
  obtain ⟨there, same'⟩ := second p there
  exact ⟨there, same'.trans same⟩

theorem Lasts.missing (lasts : Lasts here t u) {p : Path} (missing : u.exists here p = false) :
    t.exists here p = false := by
  by_contra there
  rw [(lasts p (by simpa using there)).1] at missing
  cases missing

/-! ## What is asked -/

/-- The tool that a request starts. -/
def tool? : Request → Option Command
  | .spawn command _ => some command
  | _ => none

/-- The tools that were started, in their order. -/
def started (xs : List Exchange) : List Command := xs.filterMap fun x => tool? x.request

theorem started_append (xs ys : List Exchange) : started (xs ++ ys) = started xs ++ started ys :=
  List.filterMap_append

theorem started_of_tending (tending : ∀ x ∈ xs, Tending x.request) : started xs = [] := by
  have untold {r : Request} (tending : Tending r) : tool? r = none := by cases tending <;> rfl
  exact List.filterMap_eq_nil_iff.mpr fun x among => untold (tending x among)

theorem errands_of_ran {command : Command} {limit : Option Nat} {outcome : Except RunError Outcome}
    (ran : Ran command memory limit xs outcome) : ∀ x ∈ xs, Errand x.request := by
  have begun {answer : Except Failure Child} {tail : List Exchange}
      (tending : ∀ x ∈ tail, Tending x.request) :
      ∀ x ∈ ⟨.isCancelled, false⟩ :: ⟨.spawn command memory, answer⟩ :: tail, Errand x.request := by
    simp only [List.forall_mem_cons]
    exact ⟨.stop, .start .., fun x among => .tend (tending x among)⟩
  cases ran with
  | stopped e => simpa using Errand.stop
  | failed e tending => exact begun tending
  | timedOut tending => exact begun tending
  | exited child status streams => exact begun (by simp [Tending.await, Tending.collect])

theorem started_of_ran {command : Command} {limit : Option Nat} {outcome : Outcome}
    (ran : Ran command memory limit xs (.ok outcome)) : started xs = [command] := by
  have begun {answer : Except Failure Child} {tail : List Exchange}
      (tending : ∀ x ∈ tail, Tending x.request) :
      started (⟨.isCancelled, false⟩ :: ⟨.spawn command memory, answer⟩ :: tail) = [command] :=
    congrArg (command :: ·) (started_of_tending tending)
  cases ran with
  | timedOut tending => exact begun tending
  | exited child status streams => exact begun (by simp [Tending.await, Tending.collect])

theorem errands_of_way {result : Except SetupError (List Path)} (way : Way c memory root xs result) :
    ∀ x ∈ xs, Errand x.request := by
  have looks (p : Path) (found : Bool) : Errand (looked p found).request := .look p
  have notes (line : LogLine) : Errand (.log line) := .tend (.note line)
  have clones (r : String × String) : Errand (cloning r).request := notes _
  cases way with
  | there => simp [looks]
  | unknown => simp [looks, notes]
  | present => simp [looks]
  | cloned provides ran found =>
    simp only [List.forall_mem_cons, List.forall_mem_append]
    exact ⟨looks .., looks .., clones _, errands_of_ran ran, by simp [looks]⟩
  | failed provides ran other =>
    simp only [List.forall_mem_cons]
    exact ⟨looks .., looks .., clones _, errands_of_ran ran⟩

theorem errands_of_tour {roots : List Path} {result : Except SetupError (List Path)}
    (tour : Tour c memory roots xs result) : ∀ x ∈ xs, Errand x.request := by
  induction tour with
  | done => simp
  | stop way => exact errands_of_way way
  | next way tour ih => exact List.forall_mem_append.mpr ⟨errands_of_way way, ih⟩

/-! ## Times -/

section Times

variable (lasting : Lasting host tree here)
include lasting

theorem lasts_run {p : Program α} (errands : ∀ x ∈ record host s p, Errand x.request) :
    Lasts here (tree s) (tree (p.run host s).2) := by
  induction p generalizing s with
  | done value => exact .refl _
  | ask r next ih =>
    obtain ⟨first, later⟩ := List.forall_mem_cons.mp errands
    exact (lasting.lasts r s first).trans (ih _ later)

theorem lasts_exec {a : Action ε α} {result : Except ε α} {s' : σ}
    (errands : ∀ x ∈ record host s a.run, Errand x.request) (ended : exec host s a = (result, s')) :
    Lasts here (tree s) (tree s') := by
  have isEnd : (a.run.run host s).2 = s' := congrArg Prod.snd ended
  exact isEnd ▸ lasts_run lasting errands

/-- What was told of a path held at a time between the start of a run and its end. -/
theorem told_between {p : Program α} (errands : ∀ x ∈ record host s p, Errand x.request) {q : Path}
    {found : Bool} (told : looked q found ∈ record host s p) :
    ∃ t, Lasts here (tree s) t ∧ Lasts here t (tree (p.run host s).2) ∧ t.exists here q = found := by
  induction p generalizing s with
  | done value => cases told
  | ask r next ih =>
    obtain ⟨first, later⟩ := List.forall_mem_cons.mp errands
    have begun := lasting.lasts r s first
    rcases List.mem_cons.mp told with now | after
    · obtain ⟨rfl, same⟩ := Exchange.mk.inj now
      obtain rfl := eq_of_heq same
      exact ⟨_, begun, lasts_run lasting later, (lasting.tells q s).symm⟩
    · obtain ⟨t, from', until', is⟩ := ih _ later after
      exact ⟨t, begun.trans from', until', is⟩

theorem missing_before {p : Program α} (errands : ∀ x ∈ record host s p, Errand x.request) {q : Path}
    (told : looked q false ∈ record host s p) : (tree s).exists here q = false := by
  obtain ⟨t, from', -, missing⟩ := told_between lasting errands told
  exact from'.missing missing

theorem exists_after {p : Program α} (errands : ∀ x ∈ record host s p, Errand x.request) {q : Path}
    (told : looked q true ∈ record host s p) : (tree (p.run host s).2).exists here q := by
  obtain ⟨t, -, until', there⟩ := told_between lasting errands told
  exact (until' q there).1

end Times

/-! ## Roots -/

/-- What fetching establishes between two trees where it has cloned some repositories: the roots that are
provided are there, each of the repositories provides a root, their directories differ, and nothing was
there that they would hold. -/
structure Established (c : Config) (here : Place) (t u : FileTree) (roots : List Path)
    (rs : List (String × String)) : Prop where
  provided : ∀ root ∈ roots, (∃ r ∈ c.repositories, Holds r root) → u.exists here root
  wanted : ∀ r ∈ rs, ∃ root ∈ roots, Fetch.repositoryFor c root = some r
  free : ∀ r ∈ rs, ∀ p, t.exists here p → ¬ Holds r p
  apart : rs.Pairwise (parts · ≠ parts ·)

section Established

variable {roots rest : List Path} {rs rs' : List (String × String)} {r : String × String}

theorem configured_of_provides (provides : Fetch.repositoryFor c root = some r) :
    r ∈ c.repositories ∧ Holds r root := by
  have holds := List.find?_some provides
  exact ⟨List.mem_of_find?_eq_some provides, startsWith_iff.mp holds⟩

theorem Established.missing (established : Established c here t u roots rs) (among : r ∈ rs) :
    t.exists here r.1 = false := by
  by_contra there
  exact established.free r among r.1 (by simpa using there) List.prefix_rfl

/-- The directory of a repository that was cloned holds a root that is there in the end. -/
theorem Established.holds (established : Established c here t u roots rs) (among : r ∈ rs) :
    ∃ root, Holds r root ∧ u.exists here root := by
  obtain ⟨root, isRoot, provides⟩ := established.wanted r among
  obtain ⟨configured, holds⟩ := configured_of_provides provides
  exact ⟨root, holds, established.provided root isRoot ⟨r, configured, holds⟩⟩

theorem Established.nil (t : FileTree) : Established c here t t [] [] := ⟨by simp, by simp, by simp, .nil⟩

/-- A root that is there, or that no repository holds, needs no clone. -/
theorem Established.uncloned (there : (∃ r ∈ c.repositories, Holds r root) → u.exists here root) :
    Established c here t u [root] [] where
  provided root' among held := by
    obtain rfl := List.mem_singleton.mp among
    exact there held
  wanted := by simp
  free := by simp
  apart := .nil

theorem Established.cloned (provides : Fetch.repositoryFor c root = some r)
    (free : ∀ p, t.exists here p → ¬ Holds r p) (there : u.exists here root) :
    Established c here t u [root] [r] where
  provided root' among _ := by rwa [List.mem_singleton.mp among]
  wanted := by simpa using provides
  free := List.forall_mem_singleton.mpr free
  apart := List.pairwise_singleton ..

theorem Established.append (first : Established c here t u roots rs) (lasts : Lasts here t u)
    (second : Established c here u v rest rs') (lasts' : Lasts here u v) :
    Established c here t v (roots ++ rest) (rs ++ rs') where
  provided := List.forall_mem_append.mpr
    ⟨fun root among held => (lasts' root (first.provided root among held)).1, second.provided⟩
  wanted := by
    refine List.forall_mem_append.mpr ⟨fun r among => ?_, fun r among => ?_⟩
    · obtain ⟨root, isRoot, provides⟩ := first.wanted r among
      exact ⟨root, List.mem_append_left rest isRoot, provides⟩
    · obtain ⟨root, isRoot, provides⟩ := second.wanted r among
      exact ⟨root, List.mem_append_right roots isRoot, provides⟩
  free := List.forall_mem_append.mpr
    ⟨first.free, fun r among p there => second.free r among p (lasts p there).1⟩
  apart := by
    refine List.pairwise_append.mpr ⟨first.apart, second.apart, fun r among r' among' same => ?_⟩
    -- The root that the earlier clone was for is there, so a later one does not hold it.
    obtain ⟨root, holds, there⟩ := first.holds among
    exact second.free r' among' root there (by rwa [Holds, ← same])

/-- A directory that is missing though a root in it comes to be there holds nothing that was there. What
it held could only be itself without what its spelling asks for, and then it would be the root, which was
missing too. -/
theorem free_of_missing {d p : Path} (some : d.bytes ≠ []) (short : d.bytes.length ≤ longestPath)
    (begins : Begins d root) (untilRoot : Lasts here t u) (rootMissing : u.exists here root = false)
    (untilDirectory : Lasts here t v) (missing : v.exists here d = false) {w : FileTree}
    (untilEnd : Lasts here t w) (rootThere : w.exists here root) (there : t.exists here p) :
    ¬ Begins d p := by
  intro among
  obtain ⟨thereStill, sameKind⟩ := untilDirectory p there
  rcases exists_of_begins among some short thereStill with found | ⟨same, noDirectory⟩
  · rw [missing] at found
    cases found
  · have noDirectory : t.isDirectory here p = false := sameKind.symm.trans noDirectory
    obtain ⟨thereAtEnd, sameAtEnd⟩ := untilEnd p there
    obtain ⟨sameNames, last⟩ :=
      names_of_begins begins some among same rootThere thereAtEnd (sameAtEnd.trans noDirectory)
    obtain ⟨node, finds⟩ := exists_iff.mp (untilRoot p there).1
    obtain ⟨P, trail⟩ := finds.trail_names
    obtain ⟨node', finds'⟩ := exists_iff.mp rootThere
    obtain ⟨someRoot, shortRoot, -⟩ := finds_iff.mp finds'
    rw [← among.start some, begins.start some, ← sameNames] at trail
    rw [exists_iff.mpr ⟨node, finds_of_names someRoot shortRoot (.inr last) trail⟩] at rootMissing
    cases rootMissing

section Runs

variable (lasting : Lasting host tree here)
include lasting

variable (usable : ∀ r ∈ c.repositories, r.1 ≠ "" ∧ (utf8 r.1).length ≤ longestPath)
include usable

theorem established_root {cloned : List Path} {s' : σ}
    (fetched : exec host s (Fetch.root c memory root) = (.ok cloned, s')) :
    ∃ rs, cloned = rs.map (Path.ofString ·.1) ∧
      started (record host s (Fetch.root c memory root).run) = rs.map (gitClone c) ∧
      Established c here (tree s) (tree s') [root] rs := by
  have way := way_of_course (course_run host s (Fetch.root c memory root).run)
  have errands := errands_of_way way
  have isResult : ((Fetch.root c memory root).run.run host s).1 = .ok cloned := congrArg Prod.fst fetched
  have isEnd : ((Fetch.root c memory root).run.run host s).2 = s' := congrArg Prod.snd fetched
  have untold {q : Path} (told : looked q false ∈ record host s (Fetch.root c memory root).run) :=
    told_between lasting errands told
  have after {q : Path} := exists_after lasting errands (q := q)
  rw [isResult] at way
  rw [isEnd] at after
  generalize record host s (Fetch.root c memory root).run = xs at way untold after
  generalize isFine : (Except.ok cloned : Except SetupError (List Path)) = result at way
  cases way with
  | there =>
    cases isFine
    exact ⟨[], rfl, rfl, .uncloned fun _ => after (by simp)⟩
  | unknown unknown line =>
    cases isFine
    refine ⟨[], rfl, rfl, .uncloned ?_⟩
    rintro ⟨r, configured, holds⟩
    exact absurd holds (provided_iff_none.mp unknown r configured)
  | @present r provides found =>
    cases found with
    | false => cases isFine
    | true =>
      cases isFine
      exact ⟨[], rfl, rfl, .uncloned fun _ => after (by simp)⟩
  | @cloned r provides ys streams ran found =>
    cases found with
    | false => cases isFine
    | true =>
      cases isFine
      obtain ⟨configured, holds⟩ := configured_of_provides provides
      obtain ⟨some, short⟩ := usable r configured
      obtain ⟨u, untilRoot, -, rootMissing⟩ := untold (q := root) (by simp)
      obtain ⟨v, untilDirectory, -, missing⟩ := untold (q := r.1) (by simp)
      have there : (tree s').exists here root := after (by simp)
      have lasts := lasts_exec lasting errands fetched
      refine ⟨[r], rfl, ?_, .cloned provides (fun p found => ?_) there⟩
      · rw [List.map_singleton, ← started_of_ran ran]
        exact (started_append ys _).trans (List.append_nil _)
      · exact free_of_missing (Texts.ofString_ne_nil some) short holds untilRoot rootMissing untilDirectory missing
          lasts there found
  | failed provides ran other => cases isFine

/-- A clone for one root is there for the next one. -/
theorem established_roots {cloned : List Path} {s' : σ}
    (fetched : exec host s (Fetch.roots c memory roots) = (.ok cloned, s')) :
    ∃ rs, cloned = rs.map (Path.ofString ·.1) ∧
      started (record host s (Fetch.roots c memory roots).run) = rs.map (gitClone c) ∧
      Established c here (tree s) (tree s') roots rs := by
  induction roots generalizing s cloned with
  | nil =>
    cases fetched
    exact ⟨[], rfl, rfl, .nil _⟩
  | cons root rest ih =>
    rw [Fetch.roots] at fetched ⊢
    obtain ⟨own, t, first, onward⟩ := exec_onward fetched
    obtain ⟨others, u, second, ended⟩ := exec_onward onward
    cases ended
    rw [record_bind_ok first, record_bind_ok second]
    obtain ⟨rs, rfl, isOwn, established⟩ := established_root lasting usable first
    obtain ⟨rs', rfl, areOthers, established'⟩ := ih second
    have way := way_of_course (course_run host s (Fetch.root c memory root).run)
    have tour := tour_of_course (course_run host t (Fetch.roots c memory rest).run)
    have lasts := lasts_exec lasting (errands_of_way way) first
    have lasts' := lasts_exec lasting (errands_of_tour tour) second
    refine ⟨rs ++ rs', List.map_append.symm, ?_, established.append lasts established' lasts'⟩
    rw [started_append, isOwn, List.map_append, ← areOthers]
    exact congrArg (rs.map (gitClone c) ++ started ·) (List.append_nil _)

end Runs

end Established

/-! ## Once more -/

theorem idle_of_way {result : Except SetupError (List Path)} (way : Way c memory root xs result)
    (known : looked root false ∈ xs → Fetch.repositoryFor c root = none) :
    result = .ok [] ∧ started xs = [] := by
  have unprovided {r : String × String} (provides : Fetch.repositoryFor c root = some r)
      (told : looked root false ∈ xs) : False := by
    rw [known told] at provides
    cases provides
  cases way with
  | there => exact ⟨rfl, rfl⟩
  | unknown unknown line => exact ⟨rfl, rfl⟩
  | present provides found => exact (unprovided provides (by simp)).elim
  | cloned provides ran found => exact (unprovided provides (by simp)).elim
  | failed provides ran other => exact (unprovided provides (by simp)).elim

/-- Where all roots are there that are provided there is nothing to do. -/
theorem idle_of_tour {roots : List Path} {result : Except SetupError (List Path)}
    (tour : Tour c memory roots xs result)
    (known : ∀ root ∈ roots, looked root false ∈ xs → Fetch.repositoryFor c root = none) :
    result = .ok [] ∧ started xs = [] := by
  induction tour with
  | done => exact ⟨rfl, rfl⟩
  | stop way =>
    obtain ⟨none, -⟩ := idle_of_way way (known _ (by simp))
    cases none
  | next way tour ih =>
    obtain ⟨own, idle⟩ := idle_of_way way fun told => known _ (by simp) (by simp [told])
    obtain ⟨rfl, idle'⟩ := ih fun root among told => known root (by simp [among]) (by simp [told])
    obtain rfl := Except.ok.inj own
    exact ⟨rfl, by rw [started_append, idle, idle']; rfl⟩

/-- Git is run for a root only where the root was not there when fetching began, and right behind the
looks that found neither it nor the directory of the repository that provides it. When fetching ends
well, every root that a repository holds is there; git has been run for the directories that are
listed, once for each, and none of them was there when it began; and when fetching is asked again it
runs nothing and lists nothing. -/
theorem fetching_establishes (lasting : Lasting host tree here)
    (usable : ∀ r ∈ c.repositories, r.1 ≠ "" ∧ (utf8 r.1).length ≤ longestPath) (s : σ)
    (memory : Option Nat) :
    (∀ before called memory' answer after, record host s (Fetch.missingRoots c memory).run =
        before ++ ⟨.spawn called memory', answer⟩ :: after →
      ∃ root ∈ c.searchRoots, ∃ r earlier, Fetch.repositoryFor c root = some r ∧ called = gitClone c r ∧
        before = earlier ++ unmet root r ∧ (tree s).exists here root = false) ∧
    ∀ cloned s', exec host s (Fetch.missingRoots c memory) = (.ok cloned, s') →
      (∀ root ∈ c.searchRoots, (∃ r ∈ c.repositories, Holds r root) → (tree s').exists here root) ∧
      (∃ rs : List (String × String), cloned = rs.map (Path.ofString ·.1) ∧
        started (record host s (Fetch.missingRoots c memory).run) = rs.map (gitClone c) ∧
        ∀ r ∈ rs, ∃ root ∈ c.searchRoots, Fetch.repositoryFor c root = some r) ∧
      (cloned.map Path.components).Nodup ∧
      (∀ directory ∈ cloned, (tree s).exists here directory = false) ∧
      (exec host s' (Fetch.missingRoots c memory)).1 = .ok [] ∧
      started (record host s' (Fetch.missingRoots c memory).run) = [] := by
  have tour := tour_of_run host s c memory
  refine ⟨fun before called memory' answer after split => ?_, fun cloned s' fetched => ?_⟩
  · obtain ⟨root, among, r, earlier, provides, isClone, rfl⟩ := tour.guarded split
    have told : looked root false ∈ record host s (Fetch.missingRoots c memory).run := by
      simp [split, unmet]
    exact ⟨root, among, r, earlier, provides, isClone, rfl,
      missing_before lasting (errands_of_tour tour) told⟩
  · obtain ⟨rs, rfl, areStarted, established⟩ := established_roots lasting usable fetched
    have again := tour_of_run host s' c memory
    have idle := idle_of_tour again fun root among told => by
      refine provided_iff_none.mpr fun r configured holds => ?_
      have there := established.provided root among ⟨r, configured, holds⟩
      rw [missing_before lasting (errands_of_tour again) told] at there
      cases there
    refine ⟨established.provided, ⟨rs, rfl, areStarted, established.wanted⟩, ?_, ?_, idle⟩
    · rw [List.map_map]
      exact List.pairwise_map.mpr established.apart
    · exact List.forall_mem_map.mpr fun r among => established.missing among

/-! ## A git at work -/

/-- What is added where nothing was removes nothing. -/
theorem lasts_of_added (added : ∀ q, t.node? q ≠ none → u.node? q = t.node? q) : Lasts here t u := by
  intro p there
  obtain ⟨node, finds⟩ := exists_iff.mp there
  obtain ⟨some, short, P, trail⟩ := finds_iff.mp finds
  have found := trail.walk
  have firm : Firm t u := fun q busy => added q fun none => busy (none ▸ Ways.inert_none)
  have isNode : node = t.node? P := walk_node found
  have same : u.node? P = .some node := (added P (by simp [← isNode])).trans isNode.symm
  have unlinked (inert : Ways.Inert (t.node? P)) (path : Path) : u.node? P ≠ .some (.link path) := by
    rw [same, isNode]
    exact inert.noLink path
  have led := walk_kept firm found unlinked
  rw [same] at led
  have finds' : Finds u here p node := finds_iff.mpr ⟨some, short, P, Walking.trail_of_walk led⟩
  exact ⟨exists_iff.mpr ⟨node, finds'⟩, finds'.isDirectory.trans finds.isDirectory.symm⟩

/-- A host whose tools end well and leave some nodes that were not there, each time they are run others. -/
def making (makes : Nat → List (Place × Node)) : Host (FileTree × Nat)
  | .await .., (t, n) => (.ok (.exited (.exited 0)), ⟨t.nodes ++ makes n⟩, n + 1)
  | r, (t, n) => ((Cleanup.failing true r t).1, (Cleanup.failing true r t).2, n)

theorem lasts_append (t : FileTree) (nodes : List (Place × Node)) : Lasts here t ⟨t.nodes ++ nodes⟩ := by
  refine lasts_of_added fun q there => ?_
  unfold FileTree.node? at there ⊢
  split
  · rfl
  · rename_i below
    rw [if_neg below] at there
    rw [List.lookup_append, Option.or_of_isSome (Option.isSome_iff_ne_none.mpr there)]

theorem making_lasting (makes : Nat → List (Place × Node)) : Lasting (making makes) Prod.fst [] where
  tells p s := rfl
  lasts r s errand := by
    cases errand with
    | look | stop | start => exact .refl _
    | tend tending =>
      cases tending with
      | await => exact lasts_append s.1 (makes s.2)
      | note | terminate | collect => exact .refl _

section Making

variable {makes : Nat → List (Place × Node)} {n : Nat} {r : String × String}

theorem exec_clone (url : String) (target : Path) :
    exec (making makes) (t, n) (Fetch.clone c memory url target) =
      (.ok (), ⟨t.nodes ++ makes n⟩, n + 1) := rfl

theorem exec_looks (p : Path) : exec (making makes) (t, n) (Program.exists p : Action SetupError Bool) =
    (.ok (t.exists [] p), t, n) := rfl

theorem exec_root_there (there : t.exists [] root) :
    exec (making makes) (t, n) (Fetch.root c memory root) = (.ok [], t, n) := by
  unfold Fetch.root
  rw [exec_bind_ok (exec_looks root), there]
  rfl

theorem exec_root_cloned (provides : Fetch.repositoryFor c root = some r)
    (rootMissing : t.exists [] root = false) (missing : t.exists [] r.1 = false)
    (made : FileTree.exists ⟨t.nodes ++ makes n⟩ [] root) :
    exec (making makes) (t, n) (Fetch.root c memory root) =
      (.ok [(r.1 : Path)], ⟨t.nodes ++ makes n⟩, n + 1) := by
  unfold Fetch.root
  rw [exec_bind_ok (exec_looks root), rootMissing, provides, if_neg Bool.false_ne_true]
  dsimp only
  rw [exec_bind_ok (exec_looks _), missing, Bool.not_false, if_pos rfl,
    exec_bind_ok (exec_clone _ _), exec_bind_ok (exec_looks root), made]
  rfl

theorem exec_roots_cons {host : Host σ} {s s' s'' : σ} {own others : List Path} {rest : List Path}
    (first : exec host s (Fetch.root c memory root) = (.ok own, s'))
    (second : exec host s' (Fetch.roots c memory rest) = (.ok others, s'')) :
    exec host s (Fetch.roots c memory (root :: rest)) = (.ok (own ++ others), s'') := by
  rw [Fetch.roots, exec_bind_ok first, exec_bind_ok second]
  rfl

end Making

/-- Roots in the directory of one repository, of which one is asked for twice. -/
def overlapping : Config := { VariantKeys.plain with
  repositories := [("bench", "u")]
  searchRoots := ["bench/a", "bench/b", "bench/a"] }

def madeAtOnce (_ : Nat) : List (Place × Node) := [([utf8 "bench"], .directory),
  ([utf8 "bench", utf8 "a"], .directory), ([utf8 "bench", utf8 "b"], .directory)]

/-- One clone is there for all of them. -/
theorem overlapping_roots_fetched :
    Lasting (making madeAtOnce) Prod.fst [] ∧
    (∀ r ∈ overlapping.repositories, r.1 ≠ "" ∧ (utf8 r.1).length ≤ longestPath) ∧
    ∃ s', exec (making madeAtOnce) (⟨[]⟩, 0) (Fetch.missingRoots overlapping none) = (.ok ["bench"], s') ∧
      (∀ root ∈ overlapping.searchRoots, s'.1.exists [] root) ∧ FileTree.exists ⟨[]⟩ [] "bench" = false ∧
      (exec (making madeAtOnce) s' (Fetch.missingRoots overlapping none)).1 = .ok [] ∧
      started (record (making madeAtOnce) s' (Fetch.missingRoots overlapping none).run) = [] := by
  have lasting := making_lasting madeAtOnce
  have usable : ∀ r ∈ overlapping.repositories, r.1 ≠ "" ∧ (utf8 r.1).length ≤ longestPath := by
    decide +kernel
  have provides : Fetch.repositoryFor overlapping "bench/a" = some ("bench", "u") := by decide +kernel
  have fetched : exec (making madeAtOnce) (⟨[]⟩, 0) (Fetch.missingRoots overlapping none) =
      (.ok ["bench"], ⟨madeAtOnce 0⟩, 1) := by
    refine exec_roots_cons (exec_root_cloned provides ?_ ?_ ?_) (exec_roots_cons (exec_root_there ?_)
      (exec_roots_cons (exec_root_there ?_) rfl)) <;> cbv
  obtain ⟨-, established⟩ := fetching_establishes lasting usable (⟨[]⟩, 0) none
  obtain ⟨there, -, -, missing, again, idle⟩ := established _ _ fetched
  refine ⟨lasting, usable, _, fetched, fun root among => there root among ?_, missing "bench" (by simp),
    again, idle⟩
  have held : ∀ root ∈ overlapping.searchRoots, Path.startsWith root "bench" := by decide +kernel
  exact ⟨("bench", "u"), by simp [overlapping], startsWith_iff.mp (held root among)⟩

/-! ## Directories that no call of the system takes -/

theorem missing_of_long {p : Path} (long : longestPath < p.bytes.length) : t.exists here p = false := by
  by_contra there
  obtain ⟨node, finds⟩ := exists_iff.mp (by simpa using there)
  obtain ⟨-, short, -⟩ := finds_iff.mp finds
  exact Nat.not_le_of_lt long short

/-- A directory followed by slashes. -/
def slashed (n : Nat) : String := "bench" ++ String.ofList (List.replicate n '/')

theorem slashed_ne {n : Nat} : slashed n ≠ "" := by simp [slashed]

theorem slashed_bytes (n : Nat) :
    (Path.ofString (slashed n)).bytes = utf8 "bench" ++ List.replicate n Path.slash := by
  have slashes : utf8 (String.ofList (List.replicate n '/')) = List.replicate n Path.slash := by
    induction n with
    | zero => rfl
    | succ n ih =>
      simp only [utf8, String.toList_ofList, List.replicate_succ, List.flatMap_cons] at ih ⊢
      rw [ih]
      rfl
  exact (Texts.utf8_append ..).trans (congrArg (utf8 "bench" ++ ·) slashes)

/-- Slashes at the end of a path do not count among its components. -/
theorem components_slashes {bytes : Bytes} (some : bytes ≠ []) (n : Nat) :
    Path.components ⟨bytes ++ List.replicate n Path.slash⟩ = Path.components ⟨bytes⟩ := by
  induction n with
  | zero => rw [List.replicate_zero, List.append_nil]
  | succ n ih =>
    rw [← ih, List.replicate_succ', ← List.append_assoc]
    have some : bytes ++ List.replicate n Path.slash ≠ [] := by simp [some]
    generalize bytes ++ List.replicate n Path.slash = bytes at some
    have pieces : Path.pieces ⟨bytes ++ [Path.slash]⟩ = Path.pieces ⟨bytes⟩ ++ [[]] :=
      Names.splitOn_append Path.slash bytes []
    have absolute : Path.isAbsolute ⟨bytes ++ [Path.slash]⟩ = Path.isAbsolute ⟨bytes⟩ := by
      simp only [Path.isAbsolute, List.head?_append_of_ne_nil _ some]
    have first : (Path.pieces ⟨bytes⟩ ++ [[]]).head? = (Path.pieces ⟨bytes⟩).head? :=
      List.head?_append_of_ne_nil _ (Names.splitOn_ne_nil Path.slash bytes)
    have idle : Path.Component.ofPiece? [] = none := rfl
    rw [Path.components, Path.components, pieces, absolute, first, List.filterMap_append,
      List.filterMap_cons_none idle, List.filterMap_nil, List.append_nil]

def far (n : Nat) : Config := { VariantKeys.plain with
  repositories := [(slashed n, "u")]
  searchRoots := ["bench/a", "bench/b"] }

def madeInTurn (n : Nat) : List (Place × Node) :=
  if n = 0 then [([utf8 "bench"], .directory), ([utf8 "bench", utf8 "a"], .directory)]
  else [([utf8 "bench", utf8 "b"], .directory)]

theorem provides_slashed {n : Nat} (begins : Path.startsWith root "bench") :
    Fetch.repositoryFor (far n) root = some (slashed n, "u") := by
  have same : (Path.ofString (slashed n)).components = (Path.ofString "bench").components := by
    rw [show Path.ofString (slashed n) = ⟨_⟩ from congrArg Path.mk (slashed_bytes n)]
    exact components_slashes (by decide) n
  have begins' : root.startsWith (slashed n) := by
    unfold Path.startsWith at begins ⊢
    rwa [same]
  exact List.find?_cons_of_pos begins'

/-- Under a spelling with more signs than a path may have nothing is found, so git is run again for it. -/
theorem cloned_twice {n : Nat} (long : longestPath < n) :
    exec (making madeInTurn) (⟨[]⟩, 0) (Fetch.missingRoots (far n) none) =
      (.ok [(slashed n : Path), (slashed n : Path)], ⟨madeInTurn 0 ++ madeInTurn 1⟩, 2) := by
  have missing {t : FileTree} : t.exists [] (slashed n) = false := by
    refine missing_of_long ?_
    rw [slashed_bytes, List.length_append, List.length_replicate]
    exact Nat.lt_add_left _ long
  refine exec_roots_cons (exec_root_cloned (provides_slashed ?_) ?_ missing ?_)
    (exec_roots_cons (exec_root_cloned (provides_slashed ?_) ?_ missing ?_) rfl) <;> cbv

/-- A directory that is spelled with more signs than a path may have is listed twice. -/
theorem far_directory_cloned_twice :
    (∀ r ∈ (far 4096).repositories, r.1 ≠ "") ∧ Lasting (making madeInTurn) Prod.fst [] ∧
    ∃ s', exec (making madeInTurn) (⟨[]⟩, 0) (Fetch.missingRoots (far 4096) none) =
      (.ok [(slashed 4096 : Path), (slashed 4096 : Path)], s') := by
  refine ⟨fun r among => ?_, making_lasting madeInTurn, _, cloned_twice (by decide)⟩
  rw [List.mem_singleton.mp among]
  exact slashed_ne

end BugHunt.Proofs.Fetched
