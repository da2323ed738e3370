import BugHunt.Proofs.FailedReduction
import BugHunt.Proofs.Keeping
/-!
The interesting programs that gather in one output directory. Names there are made of file names and
stems alone, so what is kept of one program can be overwritten by another of the same name, and what
has been reduced under a name stays; all that is told apart by name is kept.
-/

namespace BugHunt.Proofs.Collecting
open Trees Texts Names Places Runs Bench Outcomes Building Judging Caching Keeping Reducing Mishaps
open FailedReduction

variable {b : Bench} {c : Config} {m : Mishaps}

/-! ## Runs that succeed -/

/-- What a run leaves behind that gives a value; of failures nothing is said. -/
def Yields (Q : α → FileTree → Prop) : Except ε α → State × Nat → Prop
  | .ok value, u => Q value u.1.tree
  | .error _, _ => True

/-- What holds of the files after every run of an action that gives a value. -/
abbrev Leads (b : Bench) (m : Mishaps) (P : FileTree → Prop) (a : Action ε α)
    (Q : α → FileTree → Prop) : Prop := Ends (troubled b m) (Files P) a (Yields Q)

section Rules

variable {P : FileTree → Prop}

theorem Leads.bind {a : Action ε α} {f : α → Action ε β} {Q : α → FileTree → Prop}
    {R : β → FileTree → Prop} (first : Leads b m P a Q)
    (second : ∀ value, Leads b m (Q value) (f value) R) : Leads b m P (a >>= f) R :=
  Ends.bind first second fun _ _ _ => trivial

theorem Leads.of_keeps {a : Action ε α} (kept : Keeps (troubled b m) (Files P) a) :
    Leads b m P a fun _ => P := by
  refine kept.mono fun result u holds => ?_
  cases result with
  | ok value => exact holds
  | error e => trivial

theorem Leads.mono {a : Action ε α} {Q R : α → FileTree → Prop} (h : Leads b m P a Q)
    (implies : ∀ value t, Q value t → R value t) : Leads b m P a R := by
  refine Ends.mono h fun result u holds => ?_
  cases result with
  | ok value => exact implies _ _ holds
  | error e => trivial

theorem Leads.and {a : Action ε α} {Q R : α → FileTree → Prop} (h : Leads b m P a Q)
    (h' : Leads b m P a R) : Leads b m P a fun value t => Q value t ∧ R value t := by
  intro u holds
  have both := And.intro (h u holds) (h' u holds)
  generalize exec (troubled b m) u a = ended at both ⊢
  obtain ⟨result, v⟩ := ended
  cases result with
  | ok value => exact both
  | error e => trivial

theorem Leads.knowing {p : Prop} {a : Action ε α} {Q : α → FileTree → Prop}
    (h : p → Leads b m P a Q) : Leads b m (fun t => p ∧ P t) a Q :=
  fun u holds => h holds.1 u holds.2

theorem Leads.cleaningUp {a : Action ε α} {cleanup : Except ε α → Program Unit}
    {Q R : α → FileTree → Prop} (h : Leads b m P a Q)
    (cleaned : ∀ value u, Q value u.1.tree →
      R value ((cleanup (.ok value)).run (troubled b m) u).2.1.tree) :
    Leads b m P (a.cleaningUp cleanup) R := by
  refine Ends.cleaningUp h fun result u holds => ?_
  cases result with
  | ok value => exact cleaned value u holds
  | error e => trivial

theorem Leads.change {p : Program (Except Failure Unit)} {operate : FileTree → Except Failure FileTree}
    {toError : Failure → ε} (changes : Changes b m p operate) {Q : FileTree → Prop}
    (changed : ∀ t u, P t → operate t = .ok u → Q u) :
    Leads b m P (Action.orFail p toError) fun _ => Q :=
  (changes.ends (Q := fun result t => match result with
    | .ok _ => Q t
    | .error _ => True) changed fun _ _ _ => trivial).mono fun result u holds => by
      cases result with
      | ok value => exact holds
      | error e => trivial

end Rules

/-! ## Names in the output directory -/

/-- A name that is text is no name that is made of itself by putting more in front. -/
theorem lossy_ne_prefixed {name : Bytes} {sign : String} (some : sign ≠ "") :
    name ≠ utf8 (sign ++ Text.lossy name) := by
  intro same
  have text : Text.lossy name = sign ++ Text.lossy name :=
    (congrArg Text.lossy same).trans (lossy_utf8 _)
  have length := congrArg String.length text
  rw [String.length_append] at length
  exact some (String.length_eq_zero_iff.mp (by omega))

theorem entry_ne {directory other : Place} {entry name : Bytes} (differ : entry ≠ name) :
    directory ++ [entry] ≠ other ++ [name] := by
  intro same
  exact differ (List.singleton_inj.mp (List.append_inj' same rfl).2)

theorem ne_of_head {entry name : Bytes} (differ : entry.head? ≠ name.head?) : entry ≠ name :=
  fun same => differ (congrArg List.head? same)

theorem irName_head (ir : Path) : (utf8 (Reduce.irName ir)).head? = some 0x72 := by
  have first : (utf8 "reduced-").head? = some 0x72 := by decide
  simp [Reduce.irName, List.head?_append, first]

theorem sourceName_head (a : Artifact) : (utf8 (Reduce.sourceName a)).head? = some 0x73 := by
  have first : (utf8 "source-reduced-").head? = some 0x73 := by decide
  rw [sourceName_eq, utf8_append, List.head?_append, first, Option.some_or]

/-- No entry is named like the directory of a minimizer's script. -/
theorem ne_drawn {entry : Bytes} (differ : entry.head? ≠ some 0x70) (drawn : String) :
    entry ≠ utf8 ("pareduce-creduce" ++ drawn ++ "") := by
  have first : (utf8 "pareduce-creduce").head? = some 0x70 := by decide
  rintro rfl
  rw [utf8_append, utf8_append, List.append_assoc, List.head?_append, first, Option.some_or] at differ
  exact differ rfl

/-- An artifact and one of its variants: compiled, or the artifact itself. -/
structure Pair (c : Config) where
  artifact : Artifact
  variant : Variant
  own : ∃ flags content, variant.toPlan =
    Plan.ofContent c.extraArgs (cacheOf c).irDir artifact flags content

section Names

variable (p : Pair c)

theorem Pair.clean : '/' ∉ p.variant.name.toList := by
  obtain ⟨flags, content, isPlan⟩ := p.own
  exact slash_notMem_variantName isPlan

theorem Pair.irPath_of_ir (ir : p.artifact.isSource = false) :
    p.variant.irPath = p.artifact.path := by
  obtain ⟨flags, content, isPlan⟩ := p.own
  rw [isPlan]
  exact Building.irPath_of_ir ir

/-- The IR of a variant has a file name. -/
theorem Pair.named : ∃ name, p.variant.irPath.fileName? = some name := by
  by_cases isSource : p.artifact.isSource
  · obtain ⟨flags, content, isPlan⟩ := p.own
    exact ⟨_, irPath_fileName isSource isPlan⟩
  · obtain ⟨stem, extension, programmed⟩ := programmed_of_kind p.artifact.kind_of_path
    rw [p.irPath_of_ir (by simpa using isSource)]
    exact ⟨_, programmed.named⟩

/-- What is kept of a variant does not lie where the variant's IR does. -/
theorem irPlace_ne_kept : b.place p.variant.irPath ≠ keptPlace b c p.variant := by
  obtain ⟨name, named⟩ := p.named
  obtain ⟨parent, place⟩ := placeOf_fileName b.here named
  have isName : p.variant.name = Text.lossy name := by rw [Variant.name, Path.name, named]
  rw [keptPlace_eq p.clean, show b.place p.variant.irPath = parent ++ [name] from place, keptName_eq,
    isName]
  intro same
  exact lossy_ne_prefixed (show "interesting-" ≠ "" by decide)
    (List.singleton_inj.mp (List.append_inj' same rfl).2)

/-- The artifact does not lie where its variant is kept. -/
theorem artifactPlace_ne_kept : b.place p.artifact.path ≠ keptPlace b c p.variant := by
  by_cases isSource : p.artifact.isSource
  · obtain ⟨flags, content, isPlan⟩ := p.own
    intro same
    rw [keptPlace_eq p.clean] at same
    exact keptName_spared isPlan ⟨isSource, same.symm⟩
  · rw [← p.irPath_of_ir (by simpa using isSource)]
    exact irPlace_ne_kept p

/-- Nor does it lie where the textual form of what is kept does. -/
theorem artifactPlace_ne_text
    (isBinary : Kind.ofPath? (c.outputRoot / Path.ofString (Reduce.keptName p.variant)) =
      some .binaryIr) : b.place p.artifact.path ≠ textPlace b c p.variant := by
  obtain ⟨stem, kept, place⟩ := @textPlace_eq b c p.variant p.clean isBinary
  rw [place]
  by_cases isSource : p.artifact.isSource
  · rw [utf8_append]
    exact source_ne_entry isSource (by decide) unlike_ll
  · obtain ⟨name, named⟩ := p.named
    obtain ⟨parent, isPlace⟩ := placeOf_fileName b.here named
    rw [← p.irPath_of_ir (by simpa using isSource),
      show b.place p.variant.irPath = parent ++ [name] from isPlace]
    intro same
    obtain rfl : name = utf8 (stem ++ ".ll") :=
      List.singleton_inj.mp (List.append_inj' same rfl).2
    have isName : p.variant.name = stem ++ ".ll" := by
      rw [Variant.name, Path.name, named]
      exact lossy_utf8 _
    -- What is kept of a program in textual form is in textual form.
    rw [keptName_eq, isName, ← String.append_assoc] at kept
    exact absurd (congrArg (·.toList.reverse.head?) kept) (by simp)

/-- The textual form lies beside what is kept. -/
theorem keptPlace_ne_text
    (isBinary : Kind.ofPath? (c.outputRoot / Path.ofString (Reduce.keptName p.variant)) =
      some .binaryIr) : keptPlace b c p.variant ≠ textPlace b c p.variant := by
  obtain ⟨stem, kept, place⟩ := @textPlace_eq b c p.variant p.clean isBinary
  rw [place, keptPlace_eq p.clean, kept]
  refine entry_ne fun same => ?_
  exact absurd ((String.append_right_inj _).mp (utf8_injective same)) (by decide)

end Names

/-! ## Keeping -/

/-- New directories hold no content. -/
theorem createDirectories_content {t u : FileTree} {place : Place}
    (made : createDirectories t place = .ok u) (q : Place) : content u q = content t q := by
  have extends' := (createDirectories_spec made).1
  rw [content_of_node?, content_of_node?]
  by_cases same : u.node? q = t.node? q
  · rw [same]
  · have missing : t.node? q = none := by
      by_cases there : t.node? q = none
      · exact there
      · exact absurd (extends'.kept q there) same
    rw [(extends'.new q same).2, missing]

theorem content_change {t u : FileTree} {place : Place} {within : Place → Prop}
    (changed : Change within t.node? u.node?) (outside : ¬ within place) :
    content u place = content t place := by
  rw [content_of_node?, content_of_node?, changed.elsewhere place outside]

theorem createDirectory_change {t u : FileTree} {place : Place}
    (made : createDirectory t place = .ok u) : Change (· = place) t.node? u.node? := by
  obtain ⟨free, -, view⟩ := createDirectory_view made
  rw [view]
  refine ⟨fun q other => View.put_other other, fun q there => ?_⟩
  have other : q ≠ place := by
    rintro rfl
    rw [View.directory_of_none free] at there
    cases there
  rwa [directory_congr (View.put_other other)]

theorem copy_copied {t u : FileTree} {source target : Place} (apart : source ≠ target)
    (copied : copy t source target = .ok u) : ∃ bytes, content t source = some bytes ∧
      u.node? target = some (.file bytes false) ∧ View.directory u.node? target.dropLast := by
  obtain ⟨bytes, found, written⟩ := copy_written copied
  rw [if_neg apart] at written
  obtain ⟨free, view⟩ := write_view written
  refine ⟨bytes, by rw [content, found]; rfl, by rw [view, View.put_self], ?_⟩
  exact (copy_change copied).directories _ (View.writable_iff.mp free).2

/-- A file and the directory that it lies in. -/
def Lies (b : Bench) (c : Config) (place : Place) (bytes : Bytes) (t : FileTree) : Prop :=
  t.node? place = some (.file bytes false) ∧ View.directory t.node? (b.place c.outputRoot)

theorem Lies.change {place : Place} {bytes : Bytes} {within : Place → Prop} {t u : FileTree}
    (lies : Lies b c place bytes t) (changed : Change within t.node? u.node?)
    (outside : ¬ within place) : Lies b c place bytes u :=
  ⟨(changed.elsewhere place outside).trans lies.1, changed.directories _ lies.2⟩

/-- Keeping a variant changes no program but those that it is written over. -/
theorem preserve_content {place : Place} {program : Option Bytes} {v : Variant}
    (notKept : place ≠ keptPlace b c v)
    (notText : Kind.ofPath? (c.outputRoot / Path.ofString (Reduce.keptName v)) = some .binaryIr →
      place ≠ textPlace b c v) :
    Keeps (troubled b m) (Files fun t => content t place = program) (Reduce.preserve c v) :=
  preserve_keeps (fun _ _ holds made => (createDirectories_content made place).trans holds)
    (fun _ _ holds changed => (content_change changed notKept).trans holds)
    fun isBinary _ _ holds changed => (content_change changed (notText isBinary)).trans holds

/-- What is kept is the variant's IR. -/
theorem preserve_leads (p : Pair c) (ir : Option Bytes) :
    Leads b m (fun t => content t (b.place p.variant.irPath) = ir) (Reduce.preserve c p.variant)
      fun _ t => ∃ bytes, ir = some bytes ∧ Lies b c (keptPlace b c p.variant) bytes t := by
  unfold Reduce.preserve
  refine .bind (Leads.change (createDirectories_changes _) (Q := fun t =>
    content t (b.place p.variant.irPath) = ir) fun t u holds made =>
      (createDirectories_content made _).trans holds) fun _ => ?_
  refine .bind (Leads.change (copy_changes _ _) (Q := fun t =>
    ∃ bytes, ir = some bytes ∧ Lies b c (keptPlace b c p.variant) bytes t) fun t u holds copied => ?_)
    fun _ => .of_keeps ?_
  · obtain ⟨bytes, isContent, there, directory⟩ := copy_copied (irPlace_ne_kept p) copied
    refine ⟨bytes, holds.symm.trans isContent, there, ?_⟩
    rwa [keptPlace_eq p.clean, List.dropLast_concat] at directory
  · refine .bind (.attempt (disassemble_keeps fun isBinary t bytes lies => ?_)) fun result => ?_
    · obtain ⟨copied, isIr, lies⟩ := lies
      exact ⟨copied, isIr, lies.change (put_change t _ bytes) (keptPlace_ne_text p isBinary)⟩
    · split
      · exact .pure _
      · exact .throw _
      · exact .bind (log_keeps _ _) fun _ => .pure _

/-! ## Reducing -/

/-- What stands under the name of a reduced form: nothing, or what was made. -/
def Stands (place : Place) (made : Option Bytes) : FileTree → Prop :=
  Holds place (made.map (.file · false))

theorem Stands.content {place : Place} {made : Option Bytes} {t : FileTree}
    (stands : Stands place made t) : content t place = made := by
  rw [content_of_node?, show t.node? place = _ from stands]
  cases made <;> rfl

/-- Where there is a directory to write to, what a minimizer makes stands under the name. -/
theorem put_stands {t : FileTree} {directory : Place} {entry : Bytes} {prior : Option Bytes}
    (stands : Stands (directory ++ [entry]) prior t) (there : View.directory t.node? directory)
    (written : Option Bytes) :
    Stands (directory ++ [entry]) (written.or prior) (put t (directory ++ [entry]) written) := by
  cases written with
  | none => exact stands
  | some bytes =>
    have free : View.writable t.node? (directory ++ [entry]) := by
      have noDirectory : View.directory t.node? (directory ++ [entry]) = false := by
        rw [View.directory, show t.node? (directory ++ [entry]) = _ from stands]
        cases prior <;> rfl
      simp [View.writable, noDirectory, there]
    exact put_written free

theorem minimize_leads {P Q : FileTree → Prop} (command : Command) (input : Path)
    (carried : ∀ t, P t → Q (b.carryOut command t).1) :
    Leads b m P (Reduce.minimize c command input) fun _ => Q := by
  intro u holds
  have ran := @minimize_ends b c m command input u.1 u rfl
  generalize exec (troubled b m) u (Reduce.minimize c command input) = result at ran ⊢
  obtain ⟨result, t, n⟩ := result
  cases result with
  | ok value =>
    cases ran with
    | carried => exact carried _ holds
  | error e => trivial

theorem Stands.exists {place : Place} {made : Option Bytes} {t : FileTree}
    (stands : Stands place made t) : Trees.exists t place = made.isSome := by
  rw [Trees.exists, show t.node? place = _ from stands, Option.isSome_map]

theorem exists_leads {P : FileTree → Prop} {p : Path} {found : Bool}
    (looked : ∀ t, P t → Trees.exists t (b.place p) = found) :
    Leads b m P (monadLift (Program.exists p) : Action ε Bool) fun value t => value = found ∧ P t := by
  refine .lift fun u holds => ?_
  rw [exists_run]
  exact ⟨looked _ holds, holds⟩

/-- What has been reduced before stays; else the reduced form is what the minimizer makes. -/
theorem reduceIr_leads (sited : Sited b c) {ir : Path} (named : ir.bytes ≠ [])
    (prior source : Option Bytes) :
    Leads b m (fun t => View.directory t.node? (b.place c.outputRoot) ∧
        content t (b.place ir) = source ∧
        Stands (b.place (Path.absolute c.startDirectory c.outputRoot /
          Path.ofString (Reduce.irName ir))) prior t)
      (Reduce.reduceIr c ir) fun reduced t =>
        reduced = Path.absolute c.startDirectory c.outputRoot / Path.ofString (Reduce.irName ir) ∧
        Stands (b.place reduced)
          (prior.or (b.tools.minimizeIr c.tools.llvmReduce source).2) t := by
  unfold Reduce.reduceIr
  refine .bind (exists_leads fun t holds => holds.2.2.exists) fun found => .knowing ?_
  rintro rfl
  cases prior with
  | some bytes =>
    refine .bind (.of_keeps (log_keeps _ _)) fun _ u holds => ⟨rfl, holds.2.2⟩
  | none =>
    have minimized : Leads b m (fun t => View.directory t.node? (b.place c.outputRoot) ∧
        content t (b.place ir) = source ∧
        Stands (b.place (Path.absolute c.startDirectory c.outputRoot /
          Path.ofString (Reduce.irName ir))) none t) (Reduce.minimize c (irCommand c ir) ir) fun _ =>
        Stands (b.place (Path.absolute c.startDirectory c.outputRoot /
          Path.ofString (Reduce.irName ir))) (b.tools.minimizeIr c.tools.llvmReduce source).2 := by
      refine minimize_leads _ _ fun t ⟨there, isSource, stands⟩ => ?_
      obtain ⟨written, carried, made⟩ := @carryOut_irCommand b c sited ir t
      rw [carried, made named, isSource]
      rw [place_reducedIr sited] at stands ⊢
      simpa using put_stands stands there _
    have assembled (made : Option Bytes) : Keeps (troubled b m)
        (Files (Stands (b.place (Path.absolute c.startDirectory c.outputRoot /
          Path.ofString (Reduce.irName ir))) made))
        ((Compile.assemble c (Path.absolute c.startDirectory c.outputRoot /
          Path.ofString (Reduce.irName ir)) (Path.absolute c.startDirectory c.outputRoot)).adapt
            ReduceError.compile) := by
      rw [place_reducedIr sited]
      exact .adapt (assemble_holds sited (text_ne_binary _ _))
    exact .bind (.of_keeps (log_keeps _ _)) fun _ => .bind minimized fun _ =>
      .bind (.of_keeps (assembled _)) fun _ _ stands => ⟨rfl, stands⟩

/-- The directory for a minimizer's script has a name that was nowhere, so nothing that stood
somewhere lies below it. -/
theorem temporaryDirectory_leads {P : FileTree → Prop} {place : Place} {some : Prop}
    {toError : Failure → ε}
    (kept : ∀ t u drawn, P t → Change (· = b.place b.temporary ++
      [utf8 ("pareduce-creduce" ++ drawn ++ "")]) t.node? u.node? → P u)
    (there : some → ∀ t, P t → t.node? place ≠ none) :
    Leads b m P (Action.orFail (Program.temporaryDirectory "pareduce-creduce" "") toError)
      fun directory t => (some → ¬ b.place directory <+: place) ∧ P t := by
  have framed : Frames "pareduce-creduce" "" := frames (by decide) (by decide) (by decide)
  refine .orFail fun ⟨s, n⟩ holds => ?_
  rcases troubled_cases b m (.temporaryDirectory "pareduce-creduce" "") s n with
    ⟨cause, answer, refused, ran⟩ | ran
  · obtain rfl : Except.error cause = answer := Option.some.inj refused
    rw [show (Program.temporaryDirectory "pareduce-creduce" "").run (troubled b m) (s, n) =
      (.error cause, s, n + 1) from ran]
    trivial
  · rw [show (Program.temporaryDirectory "pareduce-creduce" "").run (troubled b m) (s, n) =
      ((b.makeTemporary s b.temporary "pareduce-creduce" "" createDirectory).1,
        (b.makeTemporary s b.temporary "pareduce-creduce" "" createDirectory).2, n + 1) from ran]
    have entry := place_entry b b.temporary (framed _ (b.draw_sign s.tree "pareduce-creduce" ""))
    unfold Bench.makeTemporary
    dsimp only
    split
    · rename_i u made
      rw [entry] at made
      refine ⟨fun stood below => ?_, kept _ _ _ holds (createDirectory_change made)⟩
      rw [entry] at below
      exact b.draw_fresh s.tree "pareduce-creduce" "" place (there stood _ holds)
        (below.subset (by simp))
    · trivial

/-- What writing the script keeps and the minimizer makes of it. -/
theorem reduceCopy_leads {P Q : FileTree → Prop} {a : Artifact} {root copy directory : Path}
    (isRoot : root = Path.absolute c.startDirectory c.outputRoot)
    (written : ∀ t u, P t → Change (· = b.place directory ++ [utf8 "interesting.sh"]) t.node? u.node? →
      P u)
    (carried : ∀ test t, P t → Q (b.carryOut (sourceCommand c a test) t).1) :
    Leads b m P (Reduce.reduceCopy c a root copy directory) fun _ => Q := by
  subst isRoot
  have script : b.place (directory / Path.ofString "interesting.sh") =
      b.place directory ++ [utf8 "interesting.sh"] :=
    place_entry b directory (proper_of_length (by decide) (by decide))
  unfold Reduce.reduceCopy
  refine .bind (Leads.change (write_changes _ _) (Q := P) fun t u holds made => ?_) fun _ =>
    .bind (.of_keeps ?_) fun _ => .bind (.of_keeps (log_keeps _ _)) fun _ =>
      .cleaningUp (minimize_leads (sourceCommand c a _) a.path (carried _)) fun _ _ holds => holds
  · rw [← script] at written
    exact written t u holds (write_change made)
  · refine Ends.orFail fun ⟨s, n⟩ holds => ?_
    have still : ((Program.makeExecutable (directory / Path.ofString "interesting.sh")).run
        (troubled b m) (s, n)).2 = (s, n + 1) :=
      @troubled_still b m (.file (.makeExecutable _)) s rfl n
    rwa [still]

theorem reduceSource_leads (sited : Sited b c) (a : Artifact) (prior source : Option Bytes) :
    Leads b m (fun t => content t (b.place a.path) = source ∧
        Stands (b.place (Path.absolute c.startDirectory c.outputRoot /
          Path.ofString (Reduce.sourceName a))) prior t)
      (Reduce.reduceSource c a) fun reduced t =>
        reduced = Path.absolute c.startDirectory c.outputRoot / Path.ofString (Reduce.sourceName a) ∧
        Stands (b.place reduced)
          (prior.or ((b.tools.minimizeSource c.tools.creduce source).2.or source)) t := by
  unfold Reduce.reduceSource
  refine .bind (exists_leads fun t holds => holds.2.exists) fun found => .knowing ?_
  rintro rfl
  cases prior with
  | some bytes => exact .bind (.of_keeps (log_keeps _ _)) fun _ u holds => ⟨rfl, holds.2⟩
  | none =>
    obtain ⟨place, isPlace⟩ : ∃ place, place = b.place (Path.absolute c.startDirectory c.outputRoot /
      Path.ofString (Reduce.sourceName a)) := ⟨_, rfl⟩
    have entry : place = b.place c.outputRoot ++ [utf8 (Reduce.sourceName a)] :=
      isPlace.trans (place_reducedSource sited a)
    have copied : Leads b m (fun t => content t (b.place a.path) = source ∧ Stands place none t)
        (Action.orFail (Program.copy a.path (Path.absolute c.startDirectory c.outputRoot /
          Path.ofString (Reduce.sourceName a))) (ReduceError.files (Path.absolute c.startDirectory
            c.outputRoot / Path.ofString (Reduce.sourceName a))))
        fun _ t => ∃ bytes, source = some bytes ∧ Lies b c place bytes t := by
      refine Leads.change (copy_changes _ _) fun t u before made => ?_
      obtain ⟨isSource, stands⟩ := before
      rw [← isPlace] at made
      have apart : b.place a.path ≠ place := by
        intro same
        rw [same, copy, Trees.read, show t.node? place = none from stands] at made
        cases made
      obtain ⟨bytes, isContent, there, directory⟩ := copy_copied apart made
      refine ⟨bytes, isSource.symm.trans isContent, there, ?_⟩
      rwa [entry, List.dropLast_concat] at directory
    have fresh : Leads b m (fun t => ∃ bytes, source = some bytes ∧ Lies b c place bytes t)
        (Action.orFail (Program.temporaryDirectory "pareduce-creduce" "")
          (ReduceError.files (Path.absolute c.startDirectory c.outputRoot)))
        fun directory t => (True → ¬ b.place directory <+: place) ∧
          ∃ bytes, source = some bytes ∧ Lies b c place bytes t := by
      refine temporaryDirectory_leads (fun t u drawn before changed => ?_) fun _ t before => ?_
      · obtain ⟨bytes, isSource, lies⟩ := before
        refine ⟨bytes, isSource, lies.change changed ?_⟩
        rw [entry]
        exact entry_ne (ne_drawn (by rw [sourceName_head]; decide) drawn)
      · obtain ⟨bytes, -, lies⟩ := before
        simp [lies.1]
    have made (directory : Path) (bytes : Bytes) (apart : ¬ b.place directory <+: place) :
        Leads b m (Lies b c place bytes) ((Reduce.reduceCopy c a
            (Path.absolute c.startDirectory c.outputRoot) (Path.absolute c.startDirectory c.outputRoot /
              Path.ofString (Reduce.sourceName a)) directory).cleaningUp fun _ => do
            let _ ← Program.removeTree directory)
          fun _ => Stands place
            ((b.tools.minimizeSource c.tools.creduce (some bytes)).2.or (some bytes)) := by
      refine Leads.cleaningUp (Q := fun _ => Stands place
        ((b.tools.minimizeSource c.tools.creduce (some bytes)).2.or (some bytes))) (reduceCopy_leads rfl (fun t u lies changed => lies.change changed ?_)
        fun test t lies => ?_) fun _ u stands => ?_
      · rw [entry]
        exact entry_ne (ne_of_head (by rw [sourceName_head]; decide))
      · have stood : Stands place (some bytes) t := lies.1
        have is : content t place = some bytes := stood.content
        rw [carryOut_sourceCommand sited, ← isPlace, is]
        rw [entry] at stood ⊢
        exact put_stands stood lies.2 _
      · rw [run_bind]
        exact removeTree_run (fun _ => apart) stands
    rw [← isPlace]
    refine .bind copied fun _ => .bind fresh fun directory => .knowing fun apart => ?_
    rintro u ⟨bytes, rfl, lies⟩
    refine Leads.bind (made directory bytes (apart trivial)) (fun _ v stands => ?_) u lies
    refine ⟨rfl, ?_⟩
    rw [← isPlace]
    exact stands

/-! ## What a dispatch leaves alone -/

/-- The names under which programs are collected. -/
inductive Collected : Bytes → Prop
  | kept (v : Variant) : Collected (utf8 (Reduce.keptName v))
  | reducedIr (ir : Path) : Collected (utf8 (Reduce.irName ir))
  | reducedSource (a : Artifact) : Collected (utf8 (Reduce.sourceName a))

section Collected

variable {entry : Bytes} {node : Option Node}

theorem Collected.head_ne (collected : Collected entry) : entry.head? ≠ some 0x70 := by
  cases collected with
  | kept v =>
    rw [keptName_head]
    decide
  | reducedIr ir =>
    rw [irName_head]
    decide
  | reducedSource a =>
    rw [sourceName_head]
    decide

theorem Collected.ne_script (collected : Collected entry) : entry ≠ utf8 "interesting.sh" := by
  cases collected with
  | kept v =>
    intro same
    have dash := congrArg (·[11]?) same
    have sign : (utf8 "interesting-")[11]? = some 0x2d := by decide
    rw [keptName_eq, utf8_append, List.getElem?_append_left (by decide), sign] at dash
    exact absurd dash (by decide)
  | reducedIr ir => exact ne_of_head (by rw [irName_head]; decide)
  | reducedSource a => exact ne_of_head (by rw [sourceName_head]; decide)

theorem stemOf_reducedIr (root ir : Path) :
    Plan.stemOf (root / Path.ofString (Reduce.irName ir)) = "reduced-" ++ Plan.stemOf ir := by
  have name : utf8 (Reduce.irName ir) = utf8 ("reduced-" ++ Plan.stemOf ir) ++ Path.dot :: utf8 "ll" := by
    simp [Reduce.irName, show utf8 ".ll" = Path.dot :: utf8 "ll" by decide]
  have some : utf8 ("reduced-" ++ Plan.stemOf ir) ≠ [] := by
    have : (utf8 "reduced-") ≠ [] := by decide
    simp [utf8_append, this]
  rw [Plan.stemOf, Path.stem?, entry_fileName root (irName_proper ir), Option.map_some, name,
    splitName_dot some (by decide)]
  exact lossy_utf8 _

theorem Collected.ne_assembly (collected : Collected entry) (root ir : Path) :
    entry ≠ utf8 (Plan.stemOf (root / Path.ofString (Reduce.irName ir))) ++ utf8 ".bc" := by
  rw [stemOf_reducedIr]
  have first : (utf8 ("reduced-" ++ Plan.stemOf ir) ++ utf8 ".bc").head? = some 0x72 := by
    have first : (utf8 "reduced-").head? = some 0x72 := by decide
    rw [utf8_append, List.append_assoc, List.head?_append, first, Option.some_or]
  cases collected with
  | kept v => exact ne_of_head (by rw [keptName_head, first]; decide)
  | reducedIr other =>
    have name : utf8 (Reduce.irName other) = utf8 ("reduced-" ++ Plan.stemOf other) ++ utf8 ".ll" := by
      simp [Reduce.irName]
    rw [name]
    exact text_ne_binary _ _
  | reducedSource a => exact ne_of_head (by rw [sourceName_head, first]; decide)

theorem reduceIr_spares (sited : Sited b c) (collected : Collected entry) {ir : Path}
    (other : entry ≠ utf8 (Reduce.irName ir)) :
    Leads b m (Holds (b.place c.outputRoot ++ [entry]) node) (Reduce.reduceIr c ir)
      fun _ => Holds (b.place c.outputRoot ++ [entry]) node := by
  have minimized : Leads b m (Holds (b.place c.outputRoot ++ [entry]) node)
      (Reduce.minimize c (irCommand c ir) ir) fun _ => Holds (b.place c.outputRoot ++ [entry]) node := by
    refine minimize_leads _ _ fun t holds => ?_
    obtain ⟨written, carried, -⟩ := @carryOut_irCommand b c sited ir t
    rw [carried, place_entry b _ (irName_proper ir), place_root sited]
    exact (put_other _ (entry_ne other)).trans holds
  unfold Reduce.reduceIr
  refine .bind (.of_keeps (exists_keeps _)) fun found => ?_
  dsimp only
  split
  · exact .bind (.of_keeps (log_keeps _ _)) fun _ _ holds => holds
  · exact .bind (.of_keeps (log_keeps _ _)) fun _ => .bind minimized fun _ =>
      .bind (.of_keeps (.adapt (assemble_holds sited (collected.ne_assembly _ _))))
        fun _ _ holds => holds

theorem reduceSource_spares (sited : Sited b c) (collected : Collected entry) {a : Artifact}
    (other : entry ≠ utf8 (Reduce.sourceName a)) :
    Leads b m (Holds (b.place c.outputRoot ++ [entry]) node) (Reduce.reduceSource c a)
      fun _ => Holds (b.place c.outputRoot ++ [entry]) node := by
  have apart : b.place c.outputRoot ++ [entry] ≠ b.place (Path.absolute c.startDirectory c.outputRoot /
      Path.ofString (Reduce.sourceName a)) := by
    rw [place_reducedSource sited]
    exact entry_ne other
  have fresh : Leads b m (Holds (b.place c.outputRoot ++ [entry]) node)
      (Action.orFail (Program.temporaryDirectory "pareduce-creduce" "")
        (ReduceError.files (Path.absolute c.startDirectory c.outputRoot)))
      fun directory t => (node ≠ none → ¬ b.place directory <+: b.place c.outputRoot ++ [entry]) ∧
        Holds (b.place c.outputRoot ++ [entry]) node t :=
    temporaryDirectory_leads (fun t u drawn holds changed =>
      holds.change changed (entry_ne (ne_drawn collected.head_ne drawn)))
      fun some t holds => by rwa [show t.node? _ = node from holds]
  have made (directory : Path) (outside : node ≠ none →
      ¬ b.place directory <+: b.place c.outputRoot ++ [entry]) :
      Leads b m (Holds (b.place c.outputRoot ++ [entry]) node) ((Reduce.reduceCopy c a
          (Path.absolute c.startDirectory c.outputRoot) (Path.absolute c.startDirectory c.outputRoot /
            Path.ofString (Reduce.sourceName a)) directory).cleaningUp fun _ => do
          let _ ← Program.removeTree directory)
        fun _ => Holds (b.place c.outputRoot ++ [entry]) node := by
    refine Leads.cleaningUp (Q := fun _ => Holds (b.place c.outputRoot ++ [entry]) node)
      (reduceCopy_leads rfl (fun t u holds changed => holds.change changed
        (entry_ne collected.ne_script)) fun test t holds => ?_) fun _ u holds => ?_
    · rw [carryOut_sourceCommand sited]
      exact (put_other _ apart).trans holds
    · rw [run_bind]
      exact removeTree_run outside holds
  unfold Reduce.reduceSource
  refine .bind (.of_keeps (exists_keeps _)) fun found => ?_
  split
  · exact .bind (.of_keeps (log_keeps _ _)) fun _ _ holds => holds
  · exact .bind (Leads.change (copy_changes _ _) fun t u holds copied =>
      holds.change (copy_change copied) apart) fun _ => .bind fresh fun directory =>
        .knowing fun outside => .bind (made directory outside) fun _ _ holds => holds

end Collected

/-! ## Dispatching -/

/-- What the minimizer makes of a program. IR it writes anew; of a source it changes a copy. -/
def minimized (b : Bench) (c : Config) (a : Artifact) (program : Option Bytes) : Option Bytes :=
  match Backend.of a with
  | .irLevel => (b.tools.minimizeIr c.tools.llvmReduce program).2
  | .sourceLevel => (b.tools.minimizeSource c.tools.creduce program).2.or program

/-- The name of a reduced form in the output directory. -/
def reducedName (a : Artifact) (v : Variant) : String :=
  match Backend.of a with
  | .irLevel => Reduce.irName v.irPath
  | .sourceLevel => Reduce.sourceName a

theorem reducedName_ir {a : Artifact} (level : Backend.of a = .irLevel) (v : Variant) :
    reducedName a v = Reduce.irName v.irPath := by
  rw [reducedName, level]

theorem reducedName_source {a : Artifact} (level : Backend.of a = .sourceLevel) (v : Variant) :
    reducedName a v = Reduce.sourceName a := by
  rw [reducedName, level]

theorem reducedPath_eq (a : Artifact) (v : Variant) : reducedPath c a v =
    Path.absolute c.startDirectory c.outputRoot / Path.ofString (reducedName a v) := by
  unfold reducedPath reducedName
  cases Backend.of a <;> rfl

theorem reducedName_proper (a : Artifact) (v : Variant) : Proper (utf8 (reducedName a v)) := by
  cases level : Backend.of a with
  | irLevel =>
    rw [reducedName_ir level]
    exact irName_proper v.irPath
  | sourceLevel =>
    rw [reducedName_source level]
    exact sourceName_proper a

theorem place_reducedPath (sited : Sited b c) (a : Artifact) (v : Variant) :
    b.place (reducedPath c a v) = b.place c.outputRoot ++ [utf8 (reducedName a v)] := by
  rw [reducedPath_eq, place_entry b _ (reducedName_proper a v), place_root sited]

theorem reducedName_collected (a : Artifact) (v : Variant) : Collected (utf8 (reducedName a v)) := by
  cases level : Backend.of a with
  | irLevel =>
    rw [reducedName_ir level]
    exact .reducedIr v.irPath
  | sourceLevel =>
    rw [reducedName_source level]
    exact .reducedSource a

theorem reducedName_head (a : Artifact) (v : Variant) :
    (utf8 (reducedName a v)).head? ≠ some keptSign := by
  cases level : Backend.of a with
  | irLevel =>
    rw [reducedName_ir level, irName_head]
    decide
  | sourceLevel =>
    rw [reducedName_source level, sourceName_head]
    decide

/-- A reduction changes nothing that is collected but its result. -/
theorem reduce_spares (sited : Sited b c) {entry : Bytes} {node : Option Node}
    (collected : Collected entry) {a : Artifact} {v : Variant}
    (other : entry ≠ utf8 (reducedName a v)) :
    Leads b m (Holds (b.place c.outputRoot ++ [entry]) node)
      (match Backend.of a with
        | .irLevel => Reduce.reduceIr c v.irPath
        | .sourceLevel => Reduce.reduceSource c a)
      fun _ => Holds (b.place c.outputRoot ++ [entry]) node := by
  cases level : Backend.of a with
  | irLevel =>
    rw [reducedName_ir level] at other
    exact reduceIr_spares sited collected other
  | sourceLevel =>
    rw [reducedName_source level] at other
    exact reduceSource_spares sited collected other

/-- A dispatch changes no other program that has been kept but where it puts the textual form of
its own. -/
theorem dispatch_spares_kept (sited : Sited b c) {node : Option Node} (p q : Pair c)
    (notKept : keptPlace b c q.variant ≠ keptPlace b c p.variant)
    (notText : Kind.ofPath? (c.outputRoot / Path.ofString (Reduce.keptName p.variant)) =
      some .binaryIr → keptPlace b c q.variant ≠ textPlace b c p.variant) :
    Leads b m (Holds (keptPlace b c q.variant) node) (Reduce.dispatch c p.artifact p.variant)
      fun _ => Holds (keptPlace b c q.variant) node := by
  have apart : utf8 (Reduce.keptName q.variant) ≠ utf8 (reducedName p.artifact p.variant) :=
    fun same => reducedName_head p.artifact p.variant (same ▸ keptName_head q.variant)
  rw [keptPlace_eq q.clean] at notKept notText ⊢
  exact .bind (.of_keeps (preserve_holds (.inr ⟨_, rfl⟩) notKept notText)) fun _ =>
    reduce_spares sited (.kept q.variant) apart

/-- A dispatch changes no other reduced form. -/
theorem dispatch_spares_reduced (sited : Sited b c) {node : Option Node} (p : Pair c)
    {a : Artifact} {v : Variant} (other : reducedName a v ≠ reducedName p.artifact p.variant) :
    Leads b m (Holds (b.place (reducedPath c a v)) node) (Reduce.dispatch c p.artifact p.variant)
      fun _ => Holds (b.place (reducedPath c a v)) node := by
  rw [place_reducedPath sited]
  exact .bind (.of_keeps (preserve_spares p.clean (reducedName_head a v))) fun _ =>
    reduce_spares sited (reducedName_collected a v) fun same => other (utf8_injective same)

/-- A dispatch keeps the variant's IR. -/
theorem dispatch_keeps (sited : Sited b c) (p : Pair c) (ir : Option Bytes) :
    Leads b m (fun t => content t (b.place p.variant.irPath) = ir)
      (Reduce.dispatch c p.artifact p.variant) fun _ t => ∃ bytes, ir = some bytes ∧
        Holds (keptPlace b c p.variant) (some (.file bytes false)) t := by
  refine .bind (preserve_leads p ir) fun _ => ?_
  rintro u ⟨bytes, isIr, lies, -⟩
  have apart : utf8 (Reduce.keptName p.variant) ≠ utf8 (reducedName p.artifact p.variant) :=
    fun same => reducedName_head p.artifact p.variant (same ▸ keptName_head p.variant)
  rw [keptPlace_eq p.clean] at lies ⊢
  exact (reduce_spares sited (.kept p.variant) apart).mono (fun _ _ holds => ⟨bytes, isIr, holds⟩) u lies

/-- A dispatch returns the path of the reduced form, where what has been made before stays. -/
theorem dispatch_reduces (sited : Sited b c) (p : Pair c) (prior program : Option Bytes) :
    Leads b m (fun t => content t (b.place p.artifact.path) = program ∧
        Stands (b.place (reducedPath c p.artifact p.variant)) prior t)
      (Reduce.dispatch c p.artifact p.variant) fun reduced t =>
        reduced = reducedPath c p.artifact p.variant ∧
        Stands (b.place (reducedPath c p.artifact p.variant))
          (prior.or (minimized b c p.artifact program)) t := by
  have still : Keeps (troubled b m) (Files fun t => content t (b.place p.artifact.path) = program ∧
      Stands (b.place (reducedPath c p.artifact p.variant)) prior t) (Reduce.preserve c p.variant) := by
    refine .and (preserve_content (artifactPlace_ne_kept p) (artifactPlace_ne_text p)) ?_
    rw [place_reducedPath sited]
    exact preserve_spares p.clean (reducedName_head p.artifact p.variant)
  have kept : Leads b m (fun t => content t (b.place p.artifact.path) = program ∧
      Stands (b.place (reducedPath c p.artifact p.variant)) prior t) (Reduce.preserve c p.variant)
      fun _ t => View.directory t.node? (b.place c.outputRoot) ∧
        content t (b.place p.artifact.path) = program ∧
        Stands (b.place (reducedPath c p.artifact p.variant)) prior t :=
    .and (fun u _ => (preserve_leads p _).mono (fun _ _ ⟨_, _, lies⟩ => lies.2) u rfl) (.of_keeps still)
  have reduced : Leads b m (fun t => View.directory t.node? (b.place c.outputRoot) ∧
      content t (b.place p.artifact.path) = program ∧
      Stands (b.place (reducedPath c p.artifact p.variant)) prior t)
      (match Backend.of p.artifact with
        | .irLevel => Reduce.reduceIr c p.variant.irPath
        | .sourceLevel => Reduce.reduceSource c p.artifact) fun reduced t =>
        reduced = reducedPath c p.artifact p.variant ∧
        Stands (b.place (reducedPath c p.artifact p.variant))
          (prior.or (minimized b c p.artifact program)) t := by
    unfold reducedPath minimized
    cases level : Backend.of p.artifact with
    | irLevel =>
      have isIr : p.artifact.isSource = false := by simpa [Backend.of] using level
      rw [← p.irPath_of_ir isIr]
      refine (reduceIr_leads sited ?_ prior program).mono fun reduced t holds => ?_
      · intro empty
        obtain ⟨name, named⟩ := p.named
        rw [show p.variant.irPath = ⟨[]⟩ from congrArg Path.mk empty] at named
        cases named
      · obtain ⟨rfl, stands⟩ := holds
        exact ⟨rfl, stands⟩
    | sourceLevel =>
      intro u holds
      refine (reduceSource_leads sited p.artifact prior program).mono (fun reduced t made => ?_) u holds.2
      obtain ⟨rfl, stands⟩ := made
      exact ⟨rfl, stands⟩
  exact .bind kept fun _ => reduced

end BugHunt.Proofs.Collecting
