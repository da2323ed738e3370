import Mathlib.Data.List.Nodup
import Mathlib.Data.String.Basic
import BugHunt.Proofs.Fetching
import BugHunt.Proofs.Anchoring
import BugHunt.Proofs.Cleanup
/-!
Which repository provides a root. It is the first one, in the order of the directories as texts, whose
directory holds the root. Where directories are spelled without superfluous signs a directory comes
before those in it, so the root is provided by the outermost of the directories that hold it, and
repositories within others are never cloned.
-/

namespace BugHunt.Proofs.Repositories
open Anchoring Courses Fetching Names Places Runs Texts

variable {c : Config} {root : Path} {r other : String × String}

/-- The components of a repository's directory. -/
def parts (r : String × String) : List Path.Component := (Path.ofString r.1).components

/-- Whether the directory of a repository holds a root, by whole components. -/
def Holds (r : String × String) (root : Path) : Prop := parts r <+: root.components

/-- Whether a repository holds a root, and none that does has a longer directory. -/
structure Nearest (c : Config) (root : Path) (r : String × String) : Prop where
  configured : r ∈ c.repositories
  holds : Holds r root
  deepest : ∀ other ∈ c.repositories, Holds other root → (parts other).length ≤ (parts r).length

/-- Whether a directory is spelled by its components, with single slashes between them. -/
def Spelled (r : String × String) : Prop :=
  (Path.ofString r.1).pieces = (parts r).map Path.Component.piece

theorem startsWith_iff : root.startsWith r.1 ↔ Holds r root := List.isPrefixOf_iff_prefix

theorem provided_iff_none :
    Fetch.repositoryFor c root = none ↔ ∀ r ∈ c.repositories, ¬ Holds r root := by
  simp [Fetch.repositoryFor, List.find?_eq_none, ← startsWith_iff]

theorem provided_first (ordered : c.repositories.Pairwise (·.1 < ·.1))
    (provides : Fetch.repositoryFor c root = some r) :
    r ∈ c.repositories ∧ Holds r root ∧ ∀ other ∈ c.repositories, Holds other root → r.1 ≤ other.1 := by
  obtain ⟨holds, before, after, split, none⟩ := List.find?_eq_some_iff_append.mp provides
  rw [split] at ordered ⊢
  refine ⟨by simp, startsWith_iff.mp holds, fun other among also => ?_⟩
  rcases List.mem_append.mp among with early | late
  · have not := none other early
    simp [startsWith_iff.mpr also] at not
  · rcases List.mem_cons.mp late with rfl | later
    · exact le_rfl
    · exact ((List.pairwise_cons.mp (List.pairwise_append.mp ordered).2.1).1 other later).le

/-- A text comes before those that go on from it with a slash. -/
theorem lt_of_utf8 {s t : String} {rest : Bytes} (same : utf8 t = utf8 s ++ Path.slash :: rest) : s < t := by
  obtain ⟨front, back, isFront, rfl⟩ := text_around (by decide) same
  obtain rfl := utf8_injective isFront
  have whole : t = s ++ String.ofList ('/' :: back.toList) := by
    apply utf8_injective
    rw [same, utf8_append]
    simp [utf8]
    rfl
  rw [whole, String.lt_iff_toList_lt, String.toList_append, String.toList_ofList]
  have longer : s.toList ++ [] < s.toList ++ '/' :: back.toList := List.Lex.append_left _ .nil _
  rwa [List.append_nil] at longer

/-- Of two directories the outer one comes first. -/
theorem outer_first (spelled : Spelled r) (spelledToo : Spelled other) (within : parts r <+: parts other) :
    r.1 ≤ other.1 := by
  have pieces : (Path.ofString r.1).pieces <+: (Path.ofString other.1).pieces := by
    rw [spelled, spelledToo]
    exact within.map _
  obtain ⟨more, isMore⟩ := pieces
  have whole (text : String) : [Path.slash].intercalate (Path.ofString text).pieces = utf8 text :=
    intercalate_splitOn _
  have own := whole r.1
  have others := whole other.1
  have some : (Path.ofString r.1).pieces ≠ [] := splitOn_ne_nil _ _
  rw [← isMore] at others
  by_cases none : more = []
  · rw [none, List.append_nil, own] at others
    exact (utf8_injective others).le
  · rw [intercalate_append some none, own] at others
    exact (lt_of_utf8 others.symm).le

section Maps

variable (ordered : c.repositories.Pairwise (·.1 < ·.1))
include ordered

/-- A directory has one repository. -/
theorem eq_of_directory (among : r ∈ c.repositories) (amongToo : other ∈ c.repositories)
    (same : other.1 = r.1) : other = r := by
  have apart : (c.repositories.map Prod.fst).Nodup := List.pairwise_map.mpr (ordered.imp ne_of_lt)
  exact List.inj_on_of_nodup_map apart amongToo among same

variable (spelled : ∀ r ∈ c.repositories, Spelled r)
include spelled

theorem eq_of_parts (among : r ∈ c.repositories) (amongToo : other ∈ c.repositories)
    (same : parts other = parts r) : other = r := by
  have spelledHere := spelled r among
  have spelledThere := spelled other amongToo
  refine eq_of_directory ordered among amongToo (le_antisymm ?_ ?_)
  · exact outer_first spelledThere spelledHere (same ▸ List.prefix_rfl)
  · exact outer_first spelledHere spelledThere (same ▸ List.prefix_rfl)

/-- The directory of the repository that provides a root begins all those that hold the root. -/
theorem provided_outermost (provides : Fetch.repositoryFor c root = some r) (among : other ∈ c.repositories)
    (holds : Holds other root) : parts r <+: parts other := by
  obtain ⟨configured, own, first⟩ := provided_first ordered provides
  rcases List.prefix_or_prefix_of_prefix own holds with within | around
  · exact within
  · have same : other.1 = r.1 :=
      le_antisymm (outer_first (spelled other among) (spelled r configured) around) (first other among holds)
    rw [eq_of_directory ordered configured among same]

/-- A root is provided by the nearest repository only if no other one holds it. -/
theorem provided_nearest_iff (provides : Fetch.repositoryFor c root = some r) :
    Nearest c root r ↔ ∀ other ∈ c.repositories, Holds other root → other = r := by
  obtain ⟨configured, own, -⟩ := provided_first ordered provides
  constructor
  · intro nearest other among holds
    have within := provided_outermost ordered spelled provides among holds
    have same := within.eq_of_length_le (nearest.deepest other among holds)
    exact eq_of_parts ordered spelled configured among same.symm
  · intro alone
    exact ⟨configured, own, fun other among holds => (alone other among holds) ▸ le_rfl⟩

end Maps

/-! ## Fetching -/

theorem directory_of_gitClone (same : gitClone c other = gitClone c r) : other.1 = r.1 := by
  have last := congrArg (fun command => command.arguments.getLast?) same
  have bytes : utf8 other.1 = utf8 r.1 := by
    simpa [gitClone, Command.path, Command.arg, Path.ofString] using last
  exact utf8_injective bytes

variable {host : Host σ} {s : σ} {memory : Option Nat}

theorem tour_of_run (host : Host σ) (s : σ) (c : Config) (memory : Option Nat) :
    Tour c memory c.searchRoots (record host s (Fetch.missingRoots c memory).run)
      (exec host s (Fetch.missingRoots c memory)).1 :=
  tour_of_course (course_run host s (Fetch.missingRoots c memory).run)

/-- Git is run for no repository whose directory lies in that of another one. -/
theorem cloned_outermost (ordered : c.repositories.Pairwise (·.1 < ·.1))
    (spelled : ∀ r ∈ c.repositories, Spelled r) {called : Command} {memory' : Option Nat}
    {answer : Except Failure Child} (ran : (⟨.spawn called memory', answer⟩ : Exchange) ∈
      record host s (Fetch.missingRoots c memory).run) :
    ∃ r ∈ c.repositories, called = gitClone c r ∧
      ∀ other ∈ c.repositories, parts other <+: parts r → other = r := by
  obtain ⟨before, after, split⟩ := List.append_of_mem ran
  obtain ⟨root, -, r, -, provides, isClone, -⟩ := (tour_of_run host s c memory).guarded split
  obtain ⟨configured, holds, -⟩ := provided_first ordered provides
  refine ⟨r, configured, isClone, fun other among within => ?_⟩
  have around := provided_outermost ordered spelled provides among (within.trans holds)
  exact eq_of_parts ordered spelled configured among (within.eq_of_length_le around.length_le)

/-- A root is provided by the first repository, in the order of the directories, that holds it, and by
none if none does. Where the directories are spelled without superfluous signs that is the outermost one,
so it is the nearest one only if no other one holds the root. When fetching ends with a root still missing
it has looked for the directory of that one repository, or had it cloned; the others that hold the root
have not been cloned, neither for this root nor for another one. -/
theorem outermost_provides (c : Config) (ordered : c.repositories.Pairwise (·.1 < ·.1)) :
    (∀ root, (Fetch.repositoryFor c root = none ↔ ∀ r ∈ c.repositories, ¬ Holds r root) ∧
      ∀ r, Fetch.repositoryFor c root = some r →
        r ∈ c.repositories ∧ Holds r root ∧
          (∀ other ∈ c.repositories, Holds other root → r.1 ≤ other.1) ∧
          ((∀ other ∈ c.repositories, Spelled other) →
            (∀ other ∈ c.repositories, Holds other root → parts r <+: parts other) ∧
            (Nearest c root r ↔ ∀ other ∈ c.repositories, Holds other root → other = r))) ∧
    ∀ {σ : Type} (host : Host σ) (s : σ) (memory : Option Nat) (root : Path),
      (exec host s (Fetch.missingRoots c memory)).1 = .error (.stillMissing root) →
        ∃ r before tail, Fetch.repositoryFor c root = some r ∧
          record host s (Fetch.missingRoots c memory).run = before ++ tail ∧
          StillMissing c memory root r tail ∧
          ((∀ other ∈ c.repositories, Spelled other) → ∀ other ∈ c.repositories, Holds other root →
            other ≠ r → ∀ memory' answer, ⟨.spawn (gitClone c other) memory', answer⟩ ∉
              record host s (Fetch.missingRoots c memory).run) := by
  refine ⟨fun root => ⟨provided_iff_none, fun r provides => ?_⟩, fun host s memory root missing => ?_⟩
  · obtain ⟨configured, holds, first⟩ := provided_first ordered provides
    refine ⟨configured, holds, first, fun spelled => ⟨fun other => ?_, ?_⟩⟩
    · exact provided_outermost ordered spelled provides
    · exact provided_nearest_iff ordered spelled provides
  · obtain ⟨r, before, tail, provides, split, missing⟩ := (tour_of_run host s c memory).still_missing missing
    refine ⟨r, before, tail, provides, split, missing, ?_⟩
    intro spelled other among holds apart memory' answer ran
    obtain ⟨r', among', isClone, outermost⟩ := cloned_outermost ordered spelled ran
    obtain rfl := eq_of_directory ordered among' among (directory_of_gitClone isClone)
    have within := provided_outermost ordered spelled provides among holds
    exact apart (outermost r (provided_first ordered provides).1 within).symm

/-- Two repositories, of which one is to be cloned into the directory of the other. -/
def nested : Config := { VariantKeys.plain with
  repositories := [("bench", "outer"), ("bench/sub", "inner")]
  searchRoots := ["bench/sub/x"] }

/-- A root in the inner directory, which is missing while the outer one is there. The outer repository
provides the root, and fetching ends in an error without any cloning. -/
theorem inner_repository_passed_over :
    let t : FileTree := ⟨[([utf8 "bench"], .directory)]⟩
    nested.repositories.Pairwise (·.1 < ·.1) ∧ (∀ r ∈ nested.repositories, Spelled r) ∧
    Fetch.repositoryFor nested "bench/sub/x" = some ("bench", "outer") ∧
    ¬ Nearest nested "bench/sub/x" ("bench", "outer") ∧ Nearest nested "bench/sub/x" ("bench/sub", "inner") ∧
    (exec (Cleanup.failing true) t (Fetch.missingRoots nested none)).1 =
      .error (.stillMissing "bench/sub/x") ∧
    (∀ memory' answer, ⟨.spawn (gitClone nested ("bench/sub", "inner")) memory', answer⟩ ∉
      record (Cleanup.failing true) t (Fetch.missingRoots nested none).run) ∧
    t.exists [] "bench/sub" = false := by
  intro t
  have ordered : nested.repositories.Pairwise (·.1 < ·.1) := by decide +kernel
  have spelled : ∀ r ∈ nested.repositories, Spelled r := by
    unfold Spelled
    decide +kernel
  have provides : Fetch.repositoryFor nested "bench/sub/x" = some ("bench", "outer") := by decide +kernel
  have holds : Holds ("bench/sub", "inner") "bench/sub/x" := startsWith_iff.mp (by decide +kernel)
  have apart : (("bench/sub", "inner") : String × String) ≠ ("bench", "outer") := by decide
  obtain ⟨choice, fetched⟩ := outermost_provides nested ordered
  obtain ⟨configured, -, -, outermost⟩ := (choice "bench/sub/x").2 _ provides
  have failed : (exec (Cleanup.failing true) t (Fetch.missingRoots nested none)).1 =
      .error (.stillMissing "bench/sub/x") := by
    cbv
  obtain ⟨r, before, tail, provides', -, -, uncloned⟩ := fetched (Cleanup.failing true) t none _ failed
  obtain rfl := Option.some.inj (provides.symm.trans provides')
  refine ⟨ordered, spelled, provides, fun nearest => ?_, ⟨by simp [nested], holds, ?_⟩, failed,
    uncloned spelled _ (by simp [nested]) holds apart, by cbv⟩
  · exact apart ((outermost spelled).2.mp nearest _ (by simp [nested]) holds)
  · have depths : ∀ other ∈ nested.repositories, (parts other).length ≤ 2 := by decide +kernel
    exact fun other among _ => depths other among

end BugHunt.Proofs.Repositories
