import BugHunt.Proofs.Collecting
/-!
Any number of interesting programs, collected in one output directory one after another. Of each,
what is kept is there in the end unless a later one was kept under the same name or has its textual
form there, and the path that was returned holds what the minimizer made of the first program whose
reduced form has that name.
-/

namespace BugHunt.Proofs.Gathering
open Trees Texts Names Places Runs Bench Outcomes Building Caching Reducing Mishaps FailedReduction
open Collecting

variable {b : Bench} {c : Config} {s : State}

/-! ## Names -/

/-- Whether keeping a variant writes over what was kept of another: by the same name, or with the
textual form of bitcode. -/
def Overwrites (later earlier : Variant) : Prop :=
  later.name = earlier.name ∨ ∃ stem, later.name = stem ++ ".bc" ∧ earlier.name = stem ++ ".ll"

/-- Whether the reduced forms of two artifacts have one name: sources by their names, IR by its
stem. -/
def SharesName (a other : Artifact) : Prop :=
  Backend.of a = Backend.of other ∧ match Backend.of a with
    | .irLevel => Plan.stemOf a.path = Plan.stemOf other.path
    | .sourceLevel => a.name = other.name

theorem keptPlace_inj {p q : Pair c} (same : keptPlace b c p.variant = keptPlace b c q.variant) :
    p.variant.name = q.variant.name := by
  rw [keptPlace_eq p.clean, keptPlace_eq q.clean, keptName_eq, keptName_eq] at same
  exact (String.append_right_inj _).mp (utf8_injective
    (List.singleton_inj.mp (List.append_inj' same rfl).2))

/-- The name of what is kept of bitcode is the sign of what is kept, then the bitcode's name. -/
theorem kept_stem {name stem : String} (same : "interesting-" ++ name = stem ++ ".bc") :
    ∃ rest, stem = "interesting-" ++ rest := by
  have chars := congrArg String.toList same
  rw [String.toList_append, String.toList_append] at chars
  rcases List.append_eq_append_iff.mp chars with ⟨rest, isStem, -⟩ | ⟨rest, isSign, isEnding⟩
  · exact ⟨String.ofList rest, String.ext_iff.mpr (by simp [isStem])⟩
  · cases rest with
    | nil => exact ⟨"", String.ext_iff.mpr (by simpa using isSign.symm)⟩
    | cons first rest =>
      obtain rfl : '.' = first := (List.cons.inj isEnding).1
      have found : '.' ∈ "interesting-".toList := by
        rw [isSign]
        simp
      exact absurd found (by decide)

/-- The textual form of a variant lies where another is kept only when their names say so. -/
theorem overwrites_of_text {later earlier : Pair c}
    (isBinary : Kind.ofPath? (c.outputRoot / Path.ofString (Reduce.keptName later.variant)) =
      some .binaryIr)
    (same : keptPlace b c earlier.variant = textPlace b c later.variant) :
    Overwrites later.variant earlier.variant := by
  obtain ⟨stem, kept, place⟩ := @textPlace_eq b c later.variant later.clean isBinary
  rw [place, keptPlace_eq earlier.clean] at same
  have text : Reduce.keptName earlier.variant = stem ++ ".ll" :=
    utf8_injective (List.singleton_inj.mp (List.append_inj' same rfl).2)
  rw [keptName_eq] at kept text
  obtain ⟨rest, rfl⟩ := kept_stem kept
  rw [String.append_assoc] at kept text
  exact .inr ⟨rest, (String.append_right_inj _).mp kept, (String.append_right_inj _).mp text⟩

theorem reducedName_eq_of_path (sited : Sited b c) {a other : Artifact} {v w : Variant}
    (same : reducedPath c a v = reducedPath c other w) : reducedName a v = reducedName other w := by
  have places := congrArg b.place same
  rw [place_reducedPath sited, place_reducedPath sited] at places
  exact utf8_injective (List.singleton_inj.mp (List.append_inj' places rfl).2)

theorem sharesName_of_reducedName {p q : Pair c}
    (same : reducedName p.artifact p.variant = reducedName q.artifact q.variant) :
    SharesName p.artifact q.artifact := by
  have irName_ne_sourceName (ir : Path) (a : Artifact) : Reduce.irName ir ≠ Reduce.sourceName a := by
    intro same
    have heads := congrArg (fun name => (utf8 name).head?) same
    rw [irName_head, sourceName_head] at heads
    exact absurd heads (by decide)
  unfold SharesName
  cases level : Backend.of p.artifact with
  | irLevel =>
    rw [reducedName_ir level] at same
    cases otherLevel : Backend.of q.artifact with
    | irLevel =>
      have isIr : p.artifact.isSource = false := by simpa [Backend.of] using level
      have otherIr : q.artifact.isSource = false := by simpa [Backend.of] using otherLevel
      rw [reducedName_ir otherLevel, p.irPath_of_ir isIr, q.irPath_of_ir otherIr] at same
      simp only [Reduce.irName, toString_text] at same
      exact ⟨rfl, (String.append_right_inj _).mp ((String.append_left_inj _).mp same)⟩
    | sourceLevel =>
      rw [reducedName_source otherLevel] at same
      exact absurd same (irName_ne_sourceName _ _)
  | sourceLevel =>
    rw [reducedName_source level] at same
    cases otherLevel : Backend.of q.artifact with
    | irLevel =>
      rw [reducedName_ir otherLevel] at same
      exact absurd same.symm (irName_ne_sourceName _ _)
    | sourceLevel =>
      rw [reducedName_source otherLevel, sourceName_eq, sourceName_eq] at same
      exact ⟨rfl, (String.append_right_inj _).mp same⟩

/-! ## Collecting one after another -/

/-- A dispatch of the past: the bytes of the variant's IR and of the artifact then, and the path
that it returned. -/
structure Filing (c : Config) extends Pair c where
  ir : Option Bytes
  program : Option Bytes
  reduced : Path

def Filing.made (b : Bench) (filing : Filing c) : Option Bytes :=
  minimized b c filing.artifact filing.program

/-- What an output directory has been through that held nothing at first, latest dispatch first.
Between two dispatches anything may happen elsewhere. -/
inductive History (b : Bench) (c : Config) : List (Filing c) → State → Prop
  | start {s : State} (empty : ∀ entry, s.tree.node? (b.place c.outputRoot ++ [entry]) = none) :
      History b c [] s
  | elsewhere {filings : List (Filing c)} {s t : State} (history : History b c filings s)
      (still : ∀ entry, t.tree.node? (b.place c.outputRoot ++ [entry]) =
        s.tree.node? (b.place c.outputRoot ++ [entry])) : History b c filings t
  | dispatch {filings : List (Filing c)} {s t : State} {n k : Nat} {reduced : Path} (m : Mishaps)
      (p : Pair c) (history : History b c filings s)
      (dispatched : exec (troubled b m) (s, n) (Reduce.dispatch c p.artifact p.variant) =
        (.ok reduced, t, k)) :
      History b c (⟨p, content s.tree (b.place p.variant.irPath),
        content s.tree (b.place p.artifact.path), reduced⟩ :: filings) t

/-- What has been kept stays until something is written over it. -/
theorem History.kept (sited : Sited b c) {filings later earlier : List (Filing c)} {job : Filing c}
    (history : History b c filings s) (split : filings = later ++ job :: earlier)
    (spared : ∀ next ∈ later, ¬ Overwrites next.variant job.variant) :
    ∃ bytes, job.ir = some bytes ∧
      Holds (keptPlace b c job.variant) (some (.file bytes false)) s.tree := by
  induction history generalizing later with
  | start => simp at split
  | elsewhere history still ih =>
    obtain ⟨bytes, isIr, holds⟩ := ih split spared
    rw [keptPlace_eq job.clean] at holds ⊢
    exact ⟨bytes, isIr, (still _).trans holds⟩
  | @dispatch filings s t n k reduced m p history dispatched ih =>
    cases later with
    | nil =>
      obtain ⟨rfl, -⟩ := List.cons.inj split
      have kept := @dispatch_keeps b c m sited p _ (s, n) rfl
      rwa [dispatched] at kept
    | cons next later =>
      obtain ⟨rfl, rest⟩ := List.cons.inj split
      obtain ⟨bytes, isIr, holds⟩ := ih rest fun next' found => spared next' (List.mem_cons_of_mem _ found)
      have apart : ¬ Overwrites p.variant job.variant := spared _ List.mem_cons_self
      have frame := dispatch_spares_kept (m := m) sited p job.toPair
        (fun same => apart (.inl (keptPlace_inj same.symm)))
        (fun isBinary same => apart (overwrites_of_text isBinary same)) (s, n) holds
      rw [dispatched] at frame
      exact ⟨bytes, isIr, frame⟩

/-- What the first of the dispatches has made whose reduced form has a name. -/
def firstMade (b : Bench) (filings : List (Filing c)) (reduced : Path) : Option Bytes :=
  (filings.reverse.filter (·.reduced = reduced)).findSome? (Filing.made b)

theorem firstMade_cons (filing : Filing c) (filings : List (Filing c)) (reduced : Path) :
    firstMade b (filing :: filings) reduced = (firstMade b filings reduced).or
      (if filing.reduced = reduced then filing.made b else none) := by
  rw [firstMade, List.reverse_cons, List.filter_append, List.findSome?_append]
  congr 1
  split
  · rename_i same
    simp [same]
  · rename_i differ
    simp [differ]

/-- The path returned is that of the reduced form, and what lies there is what the minimizer made
of the first program whose reduced form has that name. -/
theorem History.reduced_stands (sited : Sited b c) {filings : List (Filing c)}
    (history : History b c filings s) :
    (∀ filing ∈ filings, filing.reduced = reducedPath c filing.artifact filing.variant) ∧
    ∀ p : Pair c, Stands (b.place (reducedPath c p.artifact p.variant))
      (firstMade b filings (reducedPath c p.artifact p.variant)) s.tree := by
  induction history with
  | start empty =>
    refine ⟨fun _ one => absurd one List.not_mem_nil, fun p => ?_⟩
    rw [place_reducedPath sited]
    exact empty _
  | elsewhere history still ih =>
    refine ⟨ih.1, fun p => ?_⟩
    have stands := ih.2 p
    rw [place_reducedPath sited] at stands ⊢
    exact (still _).trans stands
  | @dispatch filings s t n k reduced m p history dispatched ih =>
    have made := @dispatch_reduces b c m sited p _ _ (s, n) ⟨rfl, ih.2 p⟩
    rw [dispatched] at made
    obtain ⟨returned, stands⟩ := made
    refine ⟨List.forall_mem_cons.mpr ⟨returned, ih.1⟩, fun q => ?_⟩
    rw [firstMade_cons]
    by_cases same : reducedName q.artifact q.variant = reducedName p.artifact p.variant
    · have paths : reducedPath c q.artifact q.variant = reducedPath c p.artifact p.variant := by
        rw [reducedPath_eq, reducedPath_eq, same]
      rw [paths, if_pos returned]
      exact stands
    · have differ : reduced ≠ reducedPath c q.artifact q.variant := by
        rintro rfl
        exact same (reducedName_eq_of_path sited returned)
      have frame := dispatch_spares_reduced (m := m) sited p same (s, n) (ih.2 q)
      rw [dispatched] at frame
      rw [if_neg differ, Option.or_none]
      exact frame

/-- Where none before it shares its name, a reduced form is the one that was made of the program. -/
theorem firstMade_of_first {later earlier : List (Filing c)} {job : Filing c}
    (first : ∀ other ∈ earlier, other.reduced ≠ job.reduced) (some : (job.made b).isSome) :
    firstMade b (later ++ job :: earlier) job.reduced = job.made b := by
  have before : earlier.reverse.filter (·.reduced = job.reduced) = [] :=
    List.filter_eq_nil_iff.mpr fun other found => by simpa using first other (List.mem_reverse.mp found)
  obtain ⟨bytes, made⟩ := Option.isSome_iff_exists.mp some
  rw [firstMade, List.reverse_append, List.reverse_cons, List.filter_append, List.filter_append, before]
  simp [made]

/-- Whatever number of programs is collected in an output directory that held nothing at first: what
was kept of each is there in the end, as it was when it was handed in, unless a later one was kept
under the same name or has its textual form there; and the path that was returned holds what the
minimizer made of the first program whose reduced form has that name. -/
theorem nothing_lost (sited : Sited b c) {filings later earlier : List (Filing c)} {job : Filing c}
    (history : History b c filings s) (split : filings = later ++ job :: earlier) :
    ((∀ next ∈ later, ¬ Overwrites next.variant job.variant) →
      job.ir.isSome ∧ content s.tree (keptPlace b c job.variant) = job.ir) ∧
    job.reduced = reducedPath c job.artifact job.variant ∧
    content s.tree (b.place job.reduced) = firstMade b filings job.reduced ∧
    ((∀ other ∈ earlier, ¬ SharesName other.artifact job.artifact) → (job.made b).isSome →
      content s.tree (b.place job.reduced) = job.made b) := by
  obtain ⟨returned, stands⟩ := history.reduced_stands sited
  have isReduced : job.reduced = reducedPath c job.artifact job.variant :=
    returned job (by rw [split]; simp)
  have reduced : content s.tree (b.place job.reduced) = firstMade b filings job.reduced := by
    rw [isReduced]
    exact (stands job.toPair).content
  refine ⟨fun spared => ?_, isReduced, reduced, fun first some => ?_⟩
  · obtain ⟨bytes, isIr, holds⟩ := history.kept sited split spared
    rw [isIr]
    exact ⟨rfl, content_eq_some.mpr ⟨false, holds⟩⟩
  · rw [reduced, split]
    refine firstMade_of_first (fun other found same => first other found ?_) some
    refine sharesName_of_reducedName (p := other.toPair) (q := job.toPair) ?_
    rw [returned other (by rw [split]; simp [found]), isReduced] at same
    exact reducedName_eq_of_path sited same

/-! ## Programs of one stem -/

/-- Tools of which the minimizers leave a program as it is. -/
def faithful : Toolbox where
  starts _ _ := true
  streams _ := ([], [])
  compile _ _ _ := ⟨.ended (.exited 1), none⟩
  convert _ _ := ⟨.ended (.exited 0), some bitcodeMagic⟩
  facts _ _ _ := ⟨.ended (.exited 0), []⟩
  analyse _ _ _ := ⟨.ended (.exited 3), []⟩
  minimizeIr _ program := (.exited 0, program)
  minimizeSource _ _ := (.exited 0, none)

/-- Bitcode and a program in textual form beside it, and no output directory yet. -/
def shelf : State where
  tree := ⟨[([utf8 "w"], .directory), ([utf8 "tmp"], .directory),
    ([utf8 "w", utf8 "m.bc"], .file (utf8 "BC one") false),
    ([utf8 "w", utf8 "m.ll"], .file (utf8 "; two") false)]⟩
  started := []
  turns := 0

def handedIn (a : Artifact) : Pair settings :=
  ⟨a, ⟨Plan.ofContent settings.extraArgs (cacheOf settings).irDir a [] [], true⟩, [], [], rfl⟩

def bitcode : Pair settings := handedIn ⟨"/w/m.bc", .binaryIr, by decide +kernel⟩
def text : Pair settings := handedIn ⟨"/w/m.ll", .textIr, by decide +kernel⟩

/-- The state after a dispatch in which nothing goes wrong. -/
def collected (s : State) (p : Pair settings) : State :=
  (exec (troubled (desk faithful) calm) (s, 0) (Reduce.dispatch settings p.artifact p.variant)).2.1

theorem History.collect {filings : List (Filing settings)} (p : Pair settings) (reduced : Path)
    (history : History (desk faithful) settings filings s)
    (ok : (exec (troubled (desk faithful) calm) (s, 0)
      (Reduce.dispatch settings p.artifact p.variant)).1.toOption = some reduced) :
    History (desk faithful) settings (⟨p, content s.tree ((desk faithful).place p.variant.irPath),
      content s.tree ((desk faithful).place p.artifact.path), reduced⟩ :: filings) (collected s p) := by
  refine .dispatch calm p history (Prod.ext ?_ rfl)
  cases ended : (exec (troubled (desk faithful) calm) (s, 0)
      (Reduce.dispatch settings p.artifact p.variant)).1 with
  | error e =>
    rw [ended] at ok
    cases ok
  | ok path =>
    rw [ended] at ok
    rw [Option.some.inj ok]

theorem faithful_sited : Sited (desk faithful) settings where
  home := by decide
  absolute := by decide

theorem shelf_history : History (desk faithful) settings [] shelf := by
  refine .start fun entry => ?_
  have place : (desk faithful).place settings.outputRoot = [utf8 "w", utf8 "out"] := by decide
  have apart : ∀ file ∈ shelf.tree.nodes, file.1.take 2 ≠ [utf8 "w", utf8 "out"] := by decide
  rw [place, FileTree.node?, if_neg (by simp), List.lookup_eq_none_iff]
  intro file found
  rw [bne_iff_ne]
  exact fun same => apart file found (same ▸ rfl)

theorem bitcode_then_text : History (desk faithful) settings
    [⟨text, some (utf8 "; two"), some (utf8 "; two"), "/w/out/reduced-m.ll"⟩,
      ⟨bitcode, some (utf8 "BC one"), some (utf8 "BC one"), "/w/out/reduced-m.ll"⟩]
    (collected (collected shelf bitcode) text) := by
  have history := (shelf_history.collect bitcode "/w/out/reduced-m.ll" (by decide +kernel)).collect
    text "/w/out/reduced-m.ll" (by decide +kernel)
  have isBitcode : content shelf.tree ((desk faithful).place bitcode.artifact.path) = some (utf8 "BC one") := by
    decide
  have isText : content (collected shelf bitcode).tree ((desk faithful).place text.artifact.path) =
      some (utf8 "; two") := by decide +kernel
  rw [bitcode.irPath_of_ir rfl, text.irPath_of_ir rfl] at history
  rwa [isBitcode, isText] at history

/-- Of bitcode and a program in textual form beside it both are kept, and the reduced form of the
bitcode stays. -/
theorem bitcode_kept_beside_text : ∃ (filings : List (Filing settings)) (s : State),
    filings.length = 2 ∧ History (desk faithful) settings filings s ∧
    content s.tree (keptPlace (desk faithful) settings bitcode.variant) = some (utf8 "BC one") ∧
    content s.tree ((desk faithful).place "/w/out/reduced-m.ll") = some (utf8 "BC one") := by
  have isText : text.variant.name = "m.ll" := by decide +kernel
  have isBitcode : bitcode.variant.name = "m.bc" := by decide +kernel
  have apart : ¬ Overwrites text.variant bitcode.variant := by
    rw [Overwrites, isText, isBitcode]
    intro overwrites
    rcases overwrites with same | ⟨stem, same, -⟩
    · exact absurd same (by decide)
    · exact absurd (congrArg (·.toList.reverse.head?) same) (by simp)
  obtain ⟨kept, -, -, reduced⟩ :=
    @nothing_lost _ _ _ faithful_sited _ [_] [] _ bitcode_then_text rfl
  refine ⟨_, _, rfl, bitcode_then_text, (kept (by simpa using apart)).2, ?_⟩
  exact (reduced (by simp) (by decide)).trans (by decide)

/-- Of a program in textual form nothing is kept when the same program is collected as bitcode. -/
theorem text_lost_to_bitcode :
    ¬ ∀ (b : Bench) (c : Config) (filings : List (Filing c)) (s : State), Sited b c →
        History b c filings s → (filings.map (·.variant.irPath)).Nodup → ∀ job ∈ filings,
        content s.tree (keptPlace b c job.variant) = job.ir ∧
          content s.tree (b.place job.reduced) = job.made b := by
  intro never
  have history := (shelf_history.collect text "/w/out/reduced-m.ll" (by decide +kernel)).collect
    bitcode "/w/out/reduced-m.ll" (by decide +kernel)
  have kept := (never _ _ _ _ faithful_sited history (by decide) _
    (List.mem_cons_of_mem _ List.mem_cons_self)).1
  exact absurd kept (by decide +kernel)

end BugHunt.Proofs.Gathering
