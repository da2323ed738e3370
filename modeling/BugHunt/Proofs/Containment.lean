import BugHunt.Machine.Host
import BugHunt.Proofs.LoneFiles
import BugHunt.Proofs.Redispatch
import BugHunt.Proofs.Removals
/-!
Whether a check can reach out of its cache. Main statement: no key does, whatever the artifact and the
flags are; what a check takes away is of its own making, or in the cache; and the IR of a user stays
as it is, unless a link leads from a name that the check writes to back to it.
-/

namespace BugHunt.Proofs.Containment
open Cleanup Courses Estate FileTree Grounds Growth Housing LoneFiles Names Places Redispatch Removals Runs Texts
open Trees VariantKeys Ways

variable {t : FileTree} {here D : Place} {a : Artifact} {c : Config} {extraArgs flags : List String}
  {outDir d path : Path} {content : Bytes} {key : String} {p : Plan}

/-! ## Keys -/

/-- Whether a text is a single name, with no byte in it that no name has. -/
structure Confined (text : String) : Prop where
  noSlash : '/' ∉ text.toList
  noNul : ascii 0 ∉ text.toList
  ne_dot : text ≠ "."
  ne_dots : text ≠ ".."

theorem nul_shut (clean : 0 ∉ path.bytes) : Shut 0 path :=
  ⟨by decide, by decide, fun _ named found => clean (mem_of_mem_fileName named found)⟩

/-- A key can be read of no bytes but of those of a path that has no zero byte. -/
theorem confined_key (clean : 0 ∉ a.path.bytes) :
    Confined (Plan.ofContent extraArgs outDir a flags content).key := by
  have long : 2 < (Plan.ofContent extraArgs outDir a flags content).key.toList.length := by
    rw [key_eq]
    simp only [String.toList_append, List.length_append, shortDigest_length]
    omega
  refine ⟨slash_notMem_key _ _ _ _ _, (nul_shut clean).key _ _ _ _, fun same => ?_, fun same => ?_⟩
  · rw [same] at long
    exact absurd long (by decide)
  · rw [same] at long
    exact absurd long (by decide)

/-- Whether a path is that of an entry of a directory. -/
def EntryOf (d path : Path) : Prop := ∃ name, Proper (utf8 name) ∧ path = d / Path.ofString name

/-- What is removed by the path of an entry is an entry of the place that the directory's path leads to. -/
theorem EntryOf.removed (entry : EntryOf d path) (leads : Leads t here d D) {u : FileTree}
    (removed : t.remove here path = .ok u) :
    ∃ name, Proper name ∧ u.node? = View.put t.node? (D ++ [name]) none := by
  obtain ⟨name, proper, rfl⟩ := entry
  obtain ⟨q, node, found, -, view⟩ := remove_eq_ok removed
  obtain ⟨rfl, -⟩ := Target.mk.inj (leads.entry proper found nofun)
  exact ⟨utf8 name, proper, view⟩

/-- Whether what is kept of a plan is kept in the directories that are meant for it. -/
structure Contained (outDir : Path) (a : Artifact) (p : Plan) : Prop where
  ir : a.isSource → EntryOf outDir p.irPath
  markers : ∀ (cache : Cache) verdict marker, cache.markerPath? p.key verdict = some marker →
    EntryOf cache.resultsDir marker

theorem contained_plan (extraArgs : List String) (outDir : Path) (a : Artifact) (flags : List String)
    (content : Bytes) : Contained outDir a (Plan.ofContent extraArgs outDir a flags content) := by
  have clean := slash_notMem_key extraArgs outDir a flags content
  have ended {ending : String} (cleanEnd : '/' ∉ ending.toList) (long : 2 ≤ (utf8 ending).length) :
      Proper (utf8 ((Plan.ofContent extraArgs outDir a flags content).key ++ "." ++ ending)) := by
    refine proper_of_length (by simp [clean, cleanEnd]) ?_
    simp only [utf8_append, utf8_dot, List.length_append, List.length_singleton]
    omega
  constructor
  · intro isSource
    exact ⟨_, ended (by decide) (by decide), Building.irPath_of_source isSource⟩
  · intro cache verdict marker isMarker
    cases verdict with
    | interesting => cases isMarker
    | uninteresting =>
      rw [Exclusion.markerPath_eq rfl] at isMarker
      exact ⟨_, ended (by decide) (by decide), (Option.some.inj isMarker).symm⟩
    | uncompilable =>
      rw [Exclusion.markerPath_eq rfl] at isMarker
      exact ⟨_, ended (by decide) (by decide), (Option.some.inj isMarker).symm⟩

/-- Whether a host reads nothing by a path with a zero byte in it. -/
def RefusesNul (host : Host σ) : Prop :=
  ∀ path s content, (host (.file (.read path)) s).1 = Except.ok content → 0 ∉ path.bytes

theorem machine_refuses : RefusesNul Machine.host := by
  intro path m content read found
  have hasNul : Machine.hasNul path = true := List.contains_iff_mem.mpr found
  have answered : (Machine.host (.file (.read path)) m).1 = Except.error .nulInName := by
    show (Machine.naming _ _ _).1 = _
    rw [Machine.naming, List.any_cons, hasNul]
    rfl
  rw [answered] at read
  cases read

/-- A plan is made of content that was read. -/
theorem plan_read {host : Host σ} {s : σ} (planned : (exec host s (Compile.plan c outDir a flags)).1 = .ok p) :
    ∃ content, (host (.file (.read a.path)) s).1 = Except.ok content ∧
      p = Plan.ofContent c.extraArgs outDir a flags content := by
  have ran : (Program.read a.path).run host s = host (.file (.read a.path)) s := rfl
  rw [Compile.plan, exec_bind, exec_orFail, ran] at planned
  cases read : (host (.file (.read a.path)) s).1 with
  | ok content =>
    rw [read] at planned
    exact ⟨content, rfl, (Except.ok.inj planned).symm⟩
  | error cause =>
    rw [read] at planned
    cases planned

/-! ## Checks -/

/-- The key that a plan comes to is a single name, and what lies under it in a cache is an entry of one
of its directories. A check takes away what it has made for itself, markers, and the compiled IR of the
variants of a source. It leaves the IR that it is given as it is, whatever comes of it, if that is no
link, and none leads to it that stands at the name of one of its sentinels or in the output root. -/
theorem check_contained (c : Config) (cache : Cache) (a : Artifact) :
    (∀ {σ : Type} (host : Host σ) (s : σ) (outDir : Path) (flags : List String) (p : Plan), RefusesNul host →
      (exec host s (Compile.plan c outDir a flags)).1 = .ok p → Confined p.key ∧ Contained outDir a p) ∧
    (∀ xs result, Course (Check.variants c cache a).run xs result →
      ∀ before x after, xs = before ++ x :: after → May c cache a before x.request ∧
        ∀ p, Drafted c cache a before p → Contained cache.irDir a p) ∧
    ∀ {σ : Type} (host : Host σ) (tree : σ → FileTree) (here : Place) (given : σ → Child → Place → Prop)
      (s : σ) (A : Place), Premises host tree here given → Grown (tree s).node? →
      (∀ child, ¬ given s child A) → a.isSource = false → Lone (tree s) here c a A →
      (tree (exec host s (Check.variants c cache a)).2).node? A = (tree s).node? A := by
  refine ⟨fun host s outDir flags p refuses planned => ?_, fun xs result course before x after split => ?_,
    fun host tree here given s A premises grown off isIr lone => ?_⟩
  · obtain ⟨content, read, rfl⟩ := plan_read planned
    exact ⟨confined_key (refuses _ _ _ read), contained_plan _ _ _ _ _⟩
  · refine ⟨variants_course course before x after split, ?_⟩
    rintro p ⟨flags, -, content, -, rfl⟩
    exact contained_plan _ _ _ _ _
  · refine variants_unharmed grown lone premises isIr cache s ⟨⟨grown, .refl _, fun _ _ => rfl⟩, ?_⟩
    rintro child q isGiven rfl
    exact off child isGiven

/-! ### A check beside a link -/

def deskModule : Artifact := ⟨"/d/m.bc", .binaryIr, by decide +kernel⟩

theorem desk_lone : Lone (desk (.file [] false)) [] plain deskModule [utf8 "d", utf8 "m.bc"] where
  found := ⟨.file [0x42, 0x43, 0xC0, 0xDE] false, by cbv⟩
  inert := ⟨rfl, nofun⟩
  unlinked u spares other _ base _ _ := by
    have linkless : ∀ q path, (desk (.file [] false)).node? q ≠ some (.link path) :=
      linkless_of_nodes (by simp [desk])
    exact unlinked_of_linkless (fun q => spares.upkeep.noLink (linkless q)) other

/-- A machine with a source on it. -/
def studio : Machine where
  tree := ⟨[([utf8 "prog.c"], .file [] false)]⟩
  here := []
  temporary := "/tmp"
  environment := []

theorem read_in_studio : (Machine.host (.file (.read twinC.path)) studio).1 = Except.ok [] := by
  rw [FailedStores.host_file _ rfl]
  cbv

/-- The key for a flag that is a path, the removals of a check on a host that refuses all changes, and the
IR beside the sentinel of a crash. -/
theorem contained_on_desk :
    (∃ p, (exec Machine.host studio (Compile.plan plain "/c/ir" twinC ["/../x"])).1 = .ok p ∧
      Confined p.key ∧ Contained "/c/ir" twinC p) ∧
    (∀ before x after, record (still []) () (Check.variants plain ⟨"/c"⟩ twinC).run = before ++ x :: after →
      May plain ⟨"/c"⟩ twinC before x.request) ∧
    (exec (obliging (.exited 1)) (desk (.file [] false)) (Check.variants plain ⟨"/c"⟩ deskModule)).2.node?
      [utf8 "d", utf8 "m.bc"] = some (.file [0x42, 0x43, 0xC0, 0xDE] false) := by
  obtain ⟨plans, removes, -⟩ := check_contained plain ⟨"/c"⟩ twinC
  obtain ⟨-, -, leaves⟩ := check_contained plain ⟨"/c"⟩ deskModule
  refine ⟨⟨_, plan_run read_in_studio, plans _ _ _ _ _ machine_refuses (plan_run read_in_studio)⟩,
    fun before x after split => (removes _ _ (course_run _ _ _) before x after split).1, ?_⟩
  exact leaves _ id [] _ _ _ (obliging_premises (.exited 1)) desk_grown (fun _ => id) rfl desk_lone

/-- A desk with a cache. A link to the IR has the name of its sentinel, and one that leads nowhere that of
a marker. -/
def linked : FileTree := ⟨(desk (.link "m.bc")).nodes ++ [([utf8 "c"], .directory),
  ([utf8 "c", utf8 "results"], .directory),
  ([utf8 "c", utf8 "results", utf8 "m.bc.0b40fc8650d90fa2.nocompile"], .link "gone")]⟩

/-- The same with a workspace. -/
def opened : FileTree := ⟨linked.nodes ++ [([utf8 "tmp", utf8 "m.scratch"], .directory),
  ([utf8 "tmp", utf8 "m.scratch", utf8 "facts"], .directory),
  ([utf8 "tmp", utf8 "m.scratch", utf8 "results"], .directory)]⟩

def overwritten (content : Bytes) : FileTree := linked.set [utf8 "d", utf8 "m.bc"] (.file content false)

/-- The same with the marker of a verdict, and without the opposite one. -/
def marked (content : Bytes) : FileTree :=
  ((overwritten content).set [utf8 "c", utf8 "results", utf8 "m.bc.0b40fc8650d90fa2.uninteresting"]
    (.file [] false)).erase [utf8 "c", utf8 "results", utf8 "m.bc.0b40fc8650d90fa2.nocompile"]

def linkedPlan : Plan := ⟨"/d/m.bc", [], "m.bc.0b40fc8650d90fa2"⟩

theorem classify_over_link : exec (failing true) linked (Oracle.classify plain "/d/m.bc") =
    (.ok .uninteresting, overwritten (utf8 deskCrash.toJson.pretty)) := by
  have made : exec (failing true) linked (Workspace.create "m.bc") = (.ok ⟨"/tmp/m.scratch"⟩, opened) := by
    cbv
  have assembled : exec (failing true) opened (Compile.assemble plain "/d/m.bc" "/tmp/m.scratch") =
      (.ok "/d/m.bc", opened) := by
    cbv
  have written (content : Bytes) : opened.write [] "/d/m.factgen-crash" content =
      .ok (opened.set [utf8 "d", utf8 "m.bc"] (.file content false)) := by
    cbv
  have removed (content : Bytes) : (opened.set [utf8 "d", utf8 "m.bc"] (.file content false)).removeTree []
      "/tmp/m.scratch" = .ok (overwritten content) := by
    cbv
  rw [crash_classified true made assembled written, if_pos rfl, removed]
  rfl

theorem settle_over_link (content : Bytes) : exec (failing true) (overwritten content)
    (Check.settle plain ⟨"/c"⟩ deskModule ⟨linkedPlan, true⟩ .uninteresting) = (.ok (), marked content) := by
  have stored : exec (failing true) (overwritten content)
      (Cache.store ⟨"/c"⟩ linkedPlan.key .uninteresting) = (.ok (), marked content) := by
    cbv
  have adapted : exec (failing true) (overwritten content)
      ((Cache.store ⟨"/c"⟩ linkedPlan.key .uninteresting).adapt PipelineError.cache) =
        (.ok (), marked content) := by
    rw [exec_adapt, stored]
    rfl
  exact exec_bind_ok adapted

theorem fresh_over_link : exec (failing true) linked (Check.fresh plain ⟨"/c"⟩ deskModule linkedPlan .zero) =
    (.ok ⟨0, 1, 0, 0, 0⟩, marked (utf8 deskCrash.toJson.pretty)) := by
  have built : exec (failing true) linked ((Compile.build plain (Cache.irDir ⟨"/c"⟩) deskModule linkedPlan).adapt
      PipelineError.compile) = (.ok ⟨linkedPlan, true⟩, linked) := rfl
  have judged : exec (failing true) linked ((Oracle.classify plain "/d/m.bc").adapt PipelineError.oracle) =
      (.ok .uninteresting, overwritten (utf8 deskCrash.toJson.pretty)) := by
    rw [exec_adapt, classify_over_link]
    rfl
  have reported (content : Bytes) : exec (failing true) (overwritten content)
      (Check.report plain linkedPlan.irPath.name .uninteresting .zero) =
        (.ok ⟨0, 1, 0, 0, 0⟩, overwritten content) := rfl
  rw [Check.fresh, exec_bind_ok built]
  exact (exec_bind_ok judged).trans ((exec_bind_ok (reported _)).trans (exec_bind_ok (settle_over_link _)))

/-- The check of IR that a link at the name of its sentinel leads to: the sentinel is written over the IR.
And what has the name of the opposite marker is taken away, though it is no compiled IR. -/
theorem check_over_link :
    Workshop (failing true) id [] (fun _ _ => False) ∧ deskModule.isSource = false ∧
    linked.find [] deskModule.path true =
      .ok ⟨[utf8 "d", utf8 "m.bc"], some (.file [0x42, 0x43, 0xC0, 0xDE] false)⟩ ∧
    linked.node? [utf8 "c", utf8 "results", utf8 "m.bc.0b40fc8650d90fa2.nocompile"] = some (.link "gone") ∧
    ∃ u content, exec (failing true) linked (Check.variants plain ⟨"/c"⟩ deskModule) =
        (.ok ⟨0, 1, 0, 0, 0⟩, u) ∧ content.head? = some 0x7B ∧
      u.node? [utf8 "d", utf8 "m.bc"] = some (.file content false) ∧
      u.node? [utf8 "c", utf8 "results", utf8 "m.bc.0b40fc8650d90fa2.nocompile"] = none := by
  have calm : exec (failing true) linked (monadLift Program.isCancelled : Checking Bool) =
      (.ok false, linked) := rfl
  have planned : exec (failing true) linked ((Compile.plan plain (Cache.irDir ⟨"/c"⟩) deskModule []).adapt
      PipelineError.compile) = (.ok linkedPlan, linked) := by
    cbv
  have looked : exec (failing true) linked (ExceptT.lift (Cache.lookup ⟨"/c"⟩ linkedPlan.key) :
      Checking (Option Classification)) = (.ok none, linked) := by
    cbv
  have checked : exec (failing true) linked (Check.variant plain ⟨"/c"⟩ deskModule [] .zero) =
      (.ok ⟨0, 1, 0, 0, 0⟩, marked (utf8 deskCrash.toJson.pretty)) := by
    rw [Check.variant, exec_bind_ok calm]
    exact (exec_bind_ok planned).trans ((exec_bind_ok looked).trans fresh_over_link)
  have written (content : Bytes) :
      (marked content).node? [utf8 "d", utf8 "m.bc"] = some (.file content false) := by
    cbv
  have gone (content : Bytes) :
      (marked content).node? [utf8 "c", utf8 "results", utf8 "m.bc.0b40fc8650d90fa2.nocompile"] = none := by
    cbv
  exact ⟨failing_workshop true, rfl, by cbv, by cbv, _, _, exec_bind_ok checked, pretty_head _ _, written _, gone _⟩

end BugHunt.Proofs.Containment
