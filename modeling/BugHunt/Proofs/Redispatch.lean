import BugHunt.Proofs.Origins
import BugHunt.Proofs.Surfacing
/-!
Dispatches that are made again. Main statement: no dispatch changes its inputs, even where they lie in
the output root, and once one has come to a result that is there, the ones after it come to the same
result and start no minimizer.
-/

namespace BugHunt.Proofs.Redispatch
open AbsoluteForms Asking Collecting Courses DerivedNames Estate FailedReduction FileTree Grounds Growth
open Homing Names Origins
open Places Reducing Runs Sparing Succeeding Texts Walking Ways

variable {t u : FileTree} {here R q : Place} {c : Config} {a : Artifact} {v : Variant}

/-! ## The output root -/

/-- Whether a directory has no link in it, and none leads to an entry of it. -/
structure Unlinking (t : FileTree) (here R : Place) : Prop where
  inside : ∀ name path, t.node? (R ++ [name]) ≠ some (.link path)
  into : ∀ p name node, t.find here p true = .ok ⟨R ++ [name], node⟩ → Unlinked t here p

/-- Whether runs start where the configuration says, and no link is in the output root or leads into
it, neither now nor when files and directories have been added. -/
structure Site (c : Config) (here : Place) (t : FileTree) : Prop where
  reached : Reached t here
  start : c.startDirectory = spelled [Path.slash] here false
  unlinking : ∀ u R, Upkeep t u → Leads u here c.outputRoot R → Unlinking u here R

theorem Site.kept (site : Site c here t) (upkeep : Upkeep t u) : Site c here u where
  reached := ⟨fun q within => upkeep.isDirectoryAt (site.reached.directory q within), site.reached.named⟩
  start := site.start
  unlinking := fun v R further => site.unlinking v R (upkeep.trans further)

theorem short_of_found {p : Path} {followLast : Bool} {target : Target}
    (found : t.find here p followLast = .ok target) : p.bytes.length ≤ longestPath :=
  (find_eq_ok.mp found).2.1

theorem length_le_entry (d : Path) {name : String} (proper : Proper (utf8 name)) :
    d.bytes.length ≤ (d / name).bytes.length := by
  rw [show d / name = d / Path.ofString name from rfl, entry_eq d proper.clean, List.length_append]
  unfold front
  split
  · rename_i none
    rw [List.getLast?_eq_none_iff.mp none]
    exact Nat.zero_le _
  · split
    · omega
    · rw [List.length_append]
      omega

section Site

variable (site : Site c here t) (leads : Leads t here c.outputRoot R)
include site leads

/-- The minimizers are told of the output root by a path that leads there from everywhere, unless it
is too long. -/
theorem Site.directory (short : (outputDirectory c).bytes.length ≤ longestPath) :
    Leads t here (outputDirectory c) R ∧ Leads t R (outputDirectory c) R := by
  rcases leads.found with ⟨empty, rfl⟩ | ⟨node, found⟩
  · have same : outputDirectory c = c.outputRoot := by
      rw [outputDirectory, Path.absolute, Path.absolute?_eq_none_iff.mpr empty, Option.getD_none]
    rw [same]
    exact ⟨leads, leads⟩
  · have far (base : Place) : t.find base (outputDirectory c) true = .ok ⟨R, some node⟩ :=
      find_absolute site.reached found site.start short base
    exact ⟨⟨leads.there, .inr ⟨node, far here⟩⟩, ⟨leads.there, .inr ⟨node, far R⟩⟩⟩

/-- A minimizer that is started there is started in the output root. -/
theorem Site.base {base : Place} {node : Node}
    (found : t.find here (outputDirectory c) true = .ok ⟨base, some node⟩) : base = R := by
  rcases (site.directory leads (short_of_found found)).1.found with ⟨empty, -⟩ | ⟨node', found'⟩
  · simp [FileTree.find, empty] at found
  · rw [found'] at found
    exact (Target.mk.inj (Except.ok.inj found)).1.symm

/-- A name below that path finds the entry of the output root. -/
theorem Site.entry {name : String} (proper : Proper (utf8 name)) {base : Place}
    (isBase : base = here ∨ base = R) {followLast : Bool} {target : Target}
    (found : t.find base (outputDirectory c / name) followLast = .ok target) :
    target = ⟨R ++ [utf8 name], t.node? (R ++ [utf8 name])⟩ := by
  obtain ⟨fromHere, fromRoot⟩ := site.directory leads
    (Nat.le_trans (length_le_entry _ proper) (short_of_found found))
  have noLink := (site.unlinking t R (.refl t) leads).inside (utf8 name)
  rcases isBase with rfl | rfl
  · exact fromHere.entry proper found fun _ => noLink
  · exact fromRoot.entry proper found fun _ => noLink

variable {W Z : Place → Prop} {name : String} (proper : Proper (utf8 name)) (off : ¬ Z (R ++ [utf8 name]))

include proper off in
theorem clear_root : Clear t here W Z (c.outputRoot / name) := by
  intro u spares followLast target found among
  have leads := leads.kept spares.upkeep
  obtain rfl := leads.entry proper found fun _ =>
    (site.unlinking u R spares.upkeep leads).inside (utf8 name)
  exact off among

include proper off in
theorem clear_directory : Clear t here W Z (outputDirectory c / name) := by
  intro u spares followLast target found among
  obtain rfl := (site.kept spares.upkeep).entry (leads.kept spares.upkeep) proper (.inl rfl) found
  exact off among

include proper in
theorem unlinked_directory : Unlinked t here (outputDirectory c / name) := by
  intro q path found
  have isLink := (Target.mk.inj (site.entry leads proper (.inl rfl) found)).2.symm
  exact (site.unlinking t R (.refl t) leads).inside _ path isLink

omit proper off

theorem outputs_irCommand {ir : Path} (isOutput : Outputs t here (irCommand c ir) q) :
    q = R ++ [utf8 (Reduce.irName ir)] := by
  unfold Outputs at isOutput
  rw [irCommand, minimizeIr_call] at isOutput
  obtain ⟨base, target, ⟨node, isBase⟩, found, rfl⟩ := isOutput
  obtain rfl := site.base leads isBase
  exact congrArg Target.place (site.entry leads (irName_proper ir) (.inr rfl) found)

theorem outputs_sourceCommand {test : Path} (isOutput : Outputs t here (sourceCommand c a test) q) :
    q = R ++ [utf8 (Reduce.sourceName a)] := by
  unfold Outputs at isOutput
  rw [sourceCommand, minimizeSource_call] at isOutput
  obtain ⟨base, target, ⟨node, isBase⟩, found, rfl⟩ := isOutput
  obtain rfl := site.base leads isBase
  have own : Path.ofString (Reduce.sourceName a) = ⟨[]⟩ / Reduce.sourceName a :=
    (entry_eq ⟨[]⟩ (sourceName_proper a).clean).symm
  rw [own] at found
  have inRoot : Leads t base ⟨[]⟩ base := ⟨leads.there, .inl ⟨rfl, rfl⟩⟩
  exact congrArg Target.place (inRoot.entry (sourceName_proper a) found fun _ =>
    (site.unlinking t base (.refl t) leads).inside _)

end Site

/-! ## Inputs -/

/-- Whether an input of a dispatch is found at a place where no way leads on. -/
structure Input (t : FileTree) (here : Place) (a : Artifact) (v : Variant) (q : Place) : Prop where
  inert : Inert (t.node? q)
  found : ∃ path ∈ [a.path, v.irPath], ∃ node, t.find here path true = .ok ⟨q, some node⟩

theorem Input.there (input : Input t here a v q) : t.node? q ≠ none := by
  obtain ⟨path, -, node, found⟩ := input.found
  rw [← find_node found]
  exact Option.some_ne_none node

theorem Input.kept (input : Input t here a v q) (upkeep : Upkeep t u)
    (same : u.node? q = t.node? q) : Input u here a v q := by
  obtain ⟨path, among, node, found⟩ := input.found
  have isNode : some node = t.node? q := find_node found
  refine ⟨same ▸ input.inert, path, among, node, ?_⟩
  rw [find_kept upkeep found, same, isNode]

/-- An input lies at no entry of the output root with a name that no input has. -/
theorem Input.apart (site : Site c here t) (leads : Leads t here c.outputRoot R) (planned : Planned c a v)
    (input : Input t here a v q) {name : String} (foreign : Foreign a v name) :
    q ≠ R ++ [utf8 name] := by
  rintro rfl
  obtain ⟨path, among, node, found⟩ := input.found
  obtain ⟨own, named⟩ : ∃ own, path.fileName? = some own := by
    obtain ⟨kind, isKind, -⟩ := planned.isIr
    simp only [List.mem_cons, List.not_mem_nil, or_false] at among
    rcases among with rfl | rfl
    · obtain ⟨stem, extension, programmed⟩ := programmed_of_kind a.kind_of_path
      exact ⟨_, programmed.named⟩
    · obtain ⟨stem, extension, programmed⟩ := programmed_of_kind isKind
      exact ⟨_, programmed.named⟩
  have unlinked := (site.unlinking t R (.refl t) leads).into path _ _ found
  obtain ⟨d, same⟩ := entry_of_found named unlinked input.inert found
  obtain rfl := List.singleton_inj.mp (List.append_inj' same rfl).2
  exact foreign path among named

/-! ## One dispatch -/

variable {σ : Type} {host : Host σ} {tree : σ → FileTree} {given : σ → Child → Place → Prop} {s : σ}
  {W Z : Place → Prop}

/-- Where the reduced form goes. -/
def resultPlace (R : Place) (a : Artifact) (v : Variant) : Place := R ++ [utf8 (reducedName a v)]

/-- The places that are to be spared while an input is kept: the inputs, and where the reduced form
goes. -/
def Guarded (t : FileTree) (here R : Place) (a : Artifact) (v : Variant) (q : Place) : Prop :=
  Input t here a v q ∨ q = resultPlace R a v

theorem textName_head (v : Variant) : (utf8 (textName v)).head? = some keptSign := by
  have first : (utf8 "interesting-").head? = some keptSign := by decide
  rw [textName, String.append_assoc, String.append_assoc, utf8_append, List.head?_append, first,
    Option.some_or]

theorem bitcodeName_ne_irName (ir : Path) : utf8 (bitcodeName ir) ≠ utf8 (Reduce.irName ir) := by
  intro same
  have names := utf8_injective same
  rw [bitcodeName, irName_eq, String.append_right_inj] at names
  exact absurd names (by decide)

section Parts

variable (site : Site c here t) (leads : Leads t here c.outputRoot R) (planned : Planned c a v)
include site leads planned

/-- What is written to keep a variant is no input, and no reduced form. -/
theorem keeping_clear : Clear t here W (Guarded t here R a v) (keptPath c v) ∧
    Clear t here W (Guarded t here R a v) (textPath c v) := by
  have off {name : String} (foreign : Foreign a v name) (head : (utf8 name).head? = some keptSign) :
      ¬ Guarded t here R a v (R ++ [utf8 name]) := by
    rintro (input | same)
    · exact input.apart site leads planned foreign rfl
    · refine entry_ne (fun same => reducedName_head a v ?_) same
      rw [← same, head]
  refine ⟨clear_root site leads (keptName_proper (keptName_clean planned))
    (off (kept_foreign planned) (keptName_head v)), ?_⟩
  rw [textPath_eq planned]
  exact clear_root site leads (text_foreign planned).1 (off (text_foreign planned).2 (textName_head v))

variable (premises : Premises host tree here given) (watch : Watch t W Z)
  (inputs : ∀ q, W q → Input t here a v q) (guarded : ∀ q, Z q → Guarded t here R a v q)
include premises watch inputs guarded

/-- Reducing writes to no input. An assembler that is left at work does not write to the reduced form,
either. -/
theorem reducing_lasts :
    Ends host (Stands tree given t W Z) (reducing c a v) (Lasts tree given t W Z) := by
  have off {name : String} (foreign : Foreign a v name) : ¬ W (R ++ [utf8 name]) := fun among =>
    (inputs _ among).apart site leads planned foreign rfl
  unfold reducing
  cases level : Backend.of a with
  | irLevel =>
    refine reduceIr_lasts c premises watch v.irPath (fun u spares q isOutput => ?_) ?_
    · rw [outputs_irCommand (site.kept spares.upkeep) (leads.kept spares.upkeep) isOutput]
      exact off (ir_foreign planned)
    · obtain ⟨proper, foreign⟩ := bitcode_foreign planned
      rw [bitcodePath_eq]
      refine clear_directory site leads proper fun among => ?_
      rcases guarded _ among with input | same
      · exact input.apart site leads planned foreign rfl
      · refine entry_ne ?_ same
        rw [reducedName_ir level]
        exact bitcodeName_ne_irName v.irPath
  | sourceLevel =>
    refine reduceSource_lasts c a premises watch
      (clear_directory site leads (sourceName_proper a) (off (source_foreign planned)))
      (fun u spares => unlinked_directory (site.kept spares.upkeep) (leads.kept spares.upkeep)
        (sourceName_proper a))
      fun test u spares q isOutput => ?_
    rw [outputs_sourceCommand (site.kept spares.upkeep) (leads.kept spares.upkeep) isOutput]
    exact off (source_foreign planned)

theorem onward_ends :
    Ends host (Stands tree given t W Z) (onward c a v) (Lasts tree given t W Z) := by
  obtain ⟨copies, disassembles⟩ := keeping_clear site leads planned
  exact onward_lasts c a v premises watch (copies.fewer fun q among => guarded q (watch.within q among))
    (disassembles.fewer guarded) (reducing_lasts site leads planned premises watch inputs guarded)

end Parts

/-- Once the output root is made, its path leads to it. -/
theorem root_made (premises : Premises host tree here given) (watch : Watch t W Z) (site : Site c here t)
    (stands : Stands tree given t W Z s) :
    Stands tree given t W Z (host (.file (.createDirectories c.outputRoot)) s).2 ∧
      ((host (.file (.createDirectories c.outputRoot)) s).1 = Except.ok () →
        ∃ R, Leads (tree (host (.file (.createDirectories c.outputRoot)) s).2) here c.outputRoot R) := by
  have next := stands.step premises watch (r := .file (.createDirectories c.outputRoot)) trivial
  refine ⟨next, fun answered => ?_⟩
  obtain ⟨u, scribbled, upkeep, -, tells⟩ := premises.step (.file (.createDirectories c.outputRoot)) s
  rw [answered] at tells
  have done : u.createDirectories here c.outputRoot =
      (tree (host (.file (.createDirectories c.outputRoot)) s).2, .ok ()) := tells
  have made : Made u here c.outputRoot _ := createDirectories_made (scribbled.grown stands.spares.grown) _
  rw [done] at made
  rcases made.there rfl with empty | there
  · exact ⟨here, (site.kept next.spares.upkeep).reached.directory here (List.prefix_refl _), .inl ⟨empty, rfl⟩⟩
  · exact leads_of_isDirectory made.grown there

section Dispatches

variable (premises : Premises host tree here given) (planned : Planned c a v) (site : Site c here t)
include premises planned site

/-- A dispatch leaves its inputs alone. Where no tool at work may write to the reduced form, none may
after a dispatch that has come to a result. -/
theorem dispatch_ends (Z : Place → Place → Prop) (among : ∀ R q, Input t here a v q → Z R q)
    (guarded : ∀ R q, Z R q → Guarded t here R a v q)
    (stands : ∀ R, Stands tree given t (Input t here a v) (Z R) s) :
    Stands tree given t (Input t here a v) (Input t here a v) (exec host s (Reduce.dispatch c a v)).2 ∧
      ∀ p, (exec host s (Reduce.dispatch c a v)).1 = .ok p → ∃ R,
        Leads (tree (exec host s (Reduce.dispatch c a v)).2) here c.outputRoot R ∧
        Stands tree given t (Input t here a v) (Z R) (exec host s (Reduce.dispatch c a v)).2 := by
  have watch (R : Place) : Watch t (Input t here a v) (Z R) :=
    ⟨fun q input => input.there, fun q => among R q⟩
  have made (R : Place) := root_made premises (watch R) site (stands R)
  have ran : (Program.createDirectories c.outputRoot).run host s =
      host (.file (.createDirectories c.outputRoot)) s := rfl
  rw [dispatch_eq, exec_bind, exec_orFail, ran]
  cases answered : (host (.file (.createDirectories c.outputRoot)) s).1 with
  | error cause => exact ⟨(made []).1.own (watch []), nofun⟩
  | ok value =>
    obtain ⟨R, leads⟩ := (made []).2 answered
    have stands := (made R).1
    generalize (host (.file (.createDirectories c.outputRoot)) s).2 = s at stands leads
    have upkeep := stands.spares.upkeep
    have kept (q : Place) (input : Input t here a v q) : Input (tree s) here a v q :=
      input.kept upkeep (stands.spares.spared q input)
    have ends := onward_ends (site.kept upkeep) leads planned premises ((watch R).kept stands.spares) kept
      (fun q guard => (guarded R q guard).imp_left (kept q)) s stands.now
    dsimp only [mapError_ok]
    have lasts := ends.since stands.spares
    refine ⟨lasts.own (watch R), fun p result => ⟨R, ?_, ?_⟩⟩
    · have upkeep := (ends.own ((watch R).kept stands.spares)).spares.upkeep
      exact leads.kept upkeep
    · rwa [result] at lasts

end Dispatches

/-! ## A result that is there -/

/-- Whether a variant was copied to where it is kept. -/
def Copied (c : Config) (v : Variant) (xs : List Exchange) : Prop :=
  ⟨.file (.copy v.irPath (keptPath c v)), Except.ok ()⟩ ∈ xs

/-- Whether no tool was started but the disassembler. -/
def OnlyDisassembles (c : Config) (v : Variant) (xs : List Exchange) : Prop :=
  ∀ x ∈ xs, ∀ command memory, x.request = .spawn command memory → command = disassembling c (keptPath c v)

theorem keeping_disassembles (c : Config) (v : Variant) : Within (fun r => ∀ command memory,
    r = .spawn command memory → command = disassembling c (keptPath c v)) (keeping c v) := by
  refine within_keeping c v nofun (fun r running command memory asked => ?_)
    (fun r looking command memory asked => ?_) fun _ => nofun
  · cases running with
    | spawn => exact (Request.spawn.inj asked).1.symm
    | _ => cases asked
  · subst asked
    exact looking.elim

/-- Once a variant is copied, nothing but an interrupt keeps it from being kept, whatever becomes of
the disassembler. -/
theorem keeping_course {xs : List Exchange} {result : Except ReduceError Path}
    (course : Course (keeping c v).run xs result) (copied : Copied c v xs) (calm : ¬ Surfacing.Told xs) :
    result = .ok (keptPath c v) := by
  unfold keeping at course
  rw [ExceptT.run_bind] at course
  obtain ⟨ys, zs, answer, rfl, before, after⟩ := course.split
  obtain ⟨us, ws, copy, rfl, asked, ended⟩ :=
    Course.split (p := Program.copy v.irPath (keptPath c v)) before
  obtain rfl := course_request asked
  cases copy with
  | error cause =>
    obtain ⟨rfl, rfl⟩ := course_done ended
    obtain ⟨rfl, rfl⟩ := course_done after
    cases List.mem_singleton.mp copied
  | ok value =>
    obtain ⟨rfl, rfl⟩ := course_done ended
    change Course (ExceptT.run (ExceptT.lift (Compile.disassemble c (keptPath c v)).run >>= _)) zs result at after
    rw [ExceptT.run_bind] at after
    obtain ⟨ys, ws, lifted, rfl, first, rest⟩ := after.split
    obtain ⟨us, vs, answer, rfl, attempted, done⟩ :=
      Course.split (p := (Compile.disassemble c (keptPath c v)).run) first
    obtain ⟨rfl, rfl⟩ := course_done done
    have quiet : ¬ Surfacing.Told us := fun told => calm (by
      simp only [Surfacing.told_append]
      exact .inr (.inl (.inl told)))
    have voices := Surfacing.disassemble_voices c (keptPath c v) us answer attempted
    cases answer with
    | ok text => exact (course_done rest).2
    | error e =>
      have other : ¬ Surfacing.InCompile e := fun inside =>
        quiet (voices.mpr (Surfacing.fails_error.mpr inside))
      dsimp only at rest
      split at rest
      · rename_i same
        cases same
      · rename_i same
        obtain rfl := Except.error.inj same
        exact absurd (.run (.interrupted _)) other
      · cases rest with
        | ask logged last => exact (course_done last).2

/-- Where the reduced form is there, no more is done. -/
theorem reducing_run (c : Config) (a : Artifact) (v : Variant) : ∃ line next,
    (reducing c a v).run = .ask (.file (.exists (reducedPath c a v))) next ∧
    next true = .ask (.log line) fun _ => .done (.ok (reducedPath c a v)) := by
  unfold reducing reducedPath
  cases Backend.of a with
  | irLevel => exact ⟨_, _, rfl, rfl⟩
  | sourceLevel => exact ⟨_, _, rfl, rfl⟩

section Again

variable {P : Place} {node : Node} {V : Place → Prop} (has : V P)
  (found : t.find here (reducedPath c a v) true = .ok ⟨P, some node⟩)
include has found

/-- Where the places of a tree were spared, a path to one of them finds what it found. -/
theorem found_still (spares : Spares t V u) :
    u.find here (reducedPath c a v) true = .ok ⟨P, some node⟩ := by
  have isThere : u.node? P = some node := by
    rw [spares.spared P has, ← find_node found]
  rw [← isThere]
  exact find_kept spares.upkeep found

variable (premises : Premises host tree here given) (watch : Watch t V V)
  (stands : Stands tree given t V V s)
include premises watch stands

theorem reducing_skips : (exec host s (reducing c a v)).1 = .ok (reducedPath c a v) ∧
    Stands tree given t V V (exec host s (reducing c a v)).2 ∧
    OnlyDisassembles c v (record host s (reducing c a v).run) := by
  obtain ⟨line, next, run, skips⟩ := reducing_run c a v
  have answered : (host (.file (.exists (reducedPath c a v))) s).1 = true := by
    obtain ⟨u, scribbled, upkeep, -, tells⟩ := premises.step (.file (.exists (reducedPath c a v))) s
    have spares := stands.spares.scribbled scribbled upkeep fun q ⟨child, isGiven⟩ =>
      stands.off child q isGiven
    rw [show (host (.file (.exists (reducedPath c a v))) s).1 = u.exists here (reducedPath c a v) from tells]
    exact exists_iff.mpr ⟨P, node, found_still has found spares⟩
  have looked := stands.step premises watch (r := .file (.exists (reducedPath c a v))) trivial
  have logged := looked.step premises watch (r := .log line) trivial
  rw [exec, run, Program.run, record]
  dsimp only
  rw [answered, skips]
  refine ⟨rfl, logged, fun x among command memory asked => ?_⟩
  rcases List.mem_cons.mp among with rfl | later
  · cases asked
  · obtain rfl := List.mem_singleton.mp later
    cases asked

theorem onward_again (planned : Planned c a v) (site : Site c here t)
    (leads : Leads t here c.outputRoot R) (guards : ∀ q, V q → Input t here a v q ∨ q = P) :
    Stands tree given t V V (exec host s (onward c a v)).2 ∧
      (Copied c v (record host s (onward c a v).run) →
        ¬ Surfacing.Told (record host s (onward c a v).run) →
        (exec host s (onward c a v)).1 = .ok (reducedPath c a v) ∧
          OnlyDisassembles c v (record host s (onward c a v).run)) := by
  have isResult : P = resultPlace R a v := by
    rw [reducedPath_eq] at found
    exact congrArg Target.place (site.entry leads (reducedName_proper a v) (.inl rfl) found)
  have guarded (q : Place) (among : V q) : Guarded t here R a v q :=
    (guards q among).imp_right (·.trans isResult)
  obtain ⟨copies, disassembles⟩ := keeping_clear site leads planned
  have kept := (lasts_of_within premises watch (keeping_harmless c v (copies.fewer guarded)
    (disassembles.fewer guarded)) s stands).own watch
  have course := course_run host s (keeping c v).run
  have only : OnlyDisassembles c v (record host s (keeping c v).run) :=
    course.asks (P := fun r => ∀ command memory, r = .spawn command memory →
      command = disassembling c (keptPath c v)) (keeping_disassembles c v)
  rw [onward, exec_bind, record_exec_bind]
  change Course _ _ (exec host s (keeping c v)).1 at course
  generalize record host s (keeping c v).run = xs at course only
  generalize exec host s (keeping c v) = ended at kept course
  obtain ⟨result, s⟩ := ended
  cases result with
  | error e =>
    refine ⟨kept, fun copied calm => ?_⟩
    rw [List.append_nil] at copied calm
    cases keeping_course course copied calm
  | ok value =>
    obtain ⟨result, stands, onlyToo⟩ := reducing_skips has found premises watch kept
    exact ⟨stands, fun _ _ => ⟨result, fun x among =>
      (List.mem_append.mp among).elim (only x) (onlyToo x)⟩⟩

/-- A dispatch whose reduced form is there leaves it as it is. Once the variant is copied, it comes to
that form, if it is not interrupted. -/
theorem dispatch_again (planned : Planned c a v) (site : Site c here t)
    (guards : ∀ q, V q → Input t here a v q ∨ q = P) :
    Stands tree given t V V (exec host s (Reduce.dispatch c a v)).2 ∧
      (Copied c v (record host s (Reduce.dispatch c a v).run) →
        ¬ Surfacing.Told (record host s (Reduce.dispatch c a v).run) →
        (exec host s (Reduce.dispatch c a v)).1 = .ok (reducedPath c a v) ∧
          OnlyDisassembles c v (record host s (Reduce.dispatch c a v).run)) := by
  obtain ⟨next, made⟩ := root_made premises watch site stands
  have ran : (Program.createDirectories c.outputRoot).run host s =
      host (.file (.createDirectories c.outputRoot)) s := rfl
  have asked : record host s (Program.createDirectories c.outputRoot) =
      [⟨.file (.createDirectories c.outputRoot), (host (.file (.createDirectories c.outputRoot)) s).1⟩] := rfl
  rw [dispatch_eq, exec_bind, record_exec_bind, record_orFail, exec_orFail, ran, asked]
  cases answered : (host (.file (.createDirectories c.outputRoot)) s).1 with
  | error cause =>
    refine ⟨next, fun copied => ?_⟩
    cases List.mem_singleton.mp copied
  | ok value =>
    obtain ⟨R, leads⟩ := made answered
    generalize (host (.file (.createDirectories c.outputRoot)) s).2 = s at next leads
    have upkeep := next.spares.upkeep
    have again := onward_again has (found_still has found next.spares) premises
      (watch.kept next.spares) next.now planned (site.kept upkeep) leads fun q among =>
        (guards q among).imp_left fun input => input.kept upkeep (next.spares.spared q among)
    refine ⟨again.1.since next.spares, fun copied calm => ?_⟩
    have after : Copied c v (record host s (onward c a v).run) := by
      rcases List.mem_append.mp copied with first | after
      · cases List.mem_singleton.mp first
      · exact after
    obtain ⟨result, only⟩ := again.2 after fun told => calm (Surfacing.told_append.mpr (.inr told))
    refine ⟨result, fun x among command memory started => ?_⟩
    rcases List.mem_append.mp among with first | after
    · obtain rfl := List.mem_singleton.mp first
      cases started
    · exact only x after command memory started

end Again

/-! ## Dispatches one after the other -/

/-- The states that dispatches of one variant lead to, one after the other. -/
inductive Rounds (host : Host σ) (c : Config) (a : Artifact) (v : Variant) (s : σ) : σ → Prop
  | start : Rounds host c a v s s
  | next {t : σ} (rounds : Rounds host c a v s t) :
    Rounds host c a v s (exec host t (Reduce.dispatch c a v)).2

theorem Rounds.keep {P : σ → Prop} {s' : σ} (rounds : Rounds host c a v s s') (start : P s)
    (step : ∀ t, P t → P (exec host t (Reduce.dispatch c a v)).2) : P s' := by
  induction rounds with
  | start => exact start
  | next rounds ih => exact step _ ih

/-- Whether a path finds something, and what. -/
def Finds (t : FileTree) (here : Place) (path : Path) (place : Place) (node : Node) : Prop :=
  t.find here path true = .ok ⟨place, some node⟩

/-- Where the inputs were spared, their paths find what they found. -/
theorem inputs_found (spares : Spares t (Input t here a v) u) {path : Path}
    (among : path ∈ [a.path, v.irPath]) {place : Place} {node : Node}
    (found : Finds t here path place node) : Finds u here path place node := by
  have isNode : some node = t.node? place := find_node found
  have same : u.node? place = t.node? place := by
    rcases spares.upkeep place with same | ⟨inert, -⟩
    · exact same
    · exact spares.spared place ⟨inert, path, among, node, found⟩
  rw [Finds, find_kept spares.upkeep found, same, isNode]

section Rounds

variable (premises : Premises host tree here given) (planned : Planned c a v)
  (grown : Grown (tree s).node?) (idle : ∀ child q, ¬ given s child q) (site : Site c here (tree s))
include premises planned grown idle site

theorem rounds_stand {s' : σ} (rounds : Rounds host c a v s s') :
    Stands tree given (tree s) (Input (tree s) here a v) (Input (tree s) here a v) s' :=
  rounds.keep ⟨⟨grown, .refl _, fun _ _ => rfl⟩, fun child q isGiven => absurd isGiven (idle child q)⟩
    fun _ stands => (dispatch_ends premises planned site (fun _ => Input (tree s) here a v)
      (fun _ _ => id) (fun _ _ => .inl) fun _ => stands).1

theorem rounds_again {p : Path} {s₁ : σ} (ran : exec host s (Reduce.dispatch c a v) = (.ok p, s₁))
    {P : Place} {node : Node} (found : Finds (tree s₁) here p P node) {s₂ : σ}
    (rounds : Rounds host c a v s₁ s₂) : Finds (tree s₂) here p P node ∧
      (Copied c v (record host s₂ (Reduce.dispatch c a v).run) →
        ¬ Surfacing.Told (record host s₂ (Reduce.dispatch c a v).run) →
        (exec host s₂ (Reduce.dispatch c a v)).1 = .ok p ∧
          OnlyDisassembles c v (record host s₂ (Reduce.dispatch c a v).run)) := by
  obtain ⟨-, ended⟩ := dispatch_ends premises planned site
    (fun R q => Guarded (tree s) here R a v q) (fun _ _ => .inl) (fun _ _ => id)
    (s := s) fun _ => ⟨⟨grown, .refl _, fun _ _ => rfl⟩, fun child q isGiven => absurd isGiven (idle child q)⟩
  obtain rfl : p = reducedPath c a v := by
    have comes : Fits _ _ (exec host s (Reduce.dispatch c a v)).1 := (dispatch_comes c a v).exec
    rwa [ran] at comes
  obtain ⟨R, leads, stands⟩ := ended _ (congrArg Prod.fst ran)
  rw [ran] at leads stands
  have site := site.kept stands.spares.upkeep
  have isResult : P = resultPlace R a v := by
    rw [Finds, reducedPath_eq] at found
    exact congrArg Target.place (site.entry leads (reducedName_proper a v) (.inl rfl) found)
  -- The inputs, and the reduced form that has come to be there.
  let V (q : Place) : Prop := Input (tree s) here a v q ∨ q = P
  have inputs (q : Place) (input : Input (tree s) here a v q) : Input (tree s₁) here a v q :=
    input.kept stands.spares.upkeep (stands.spares.spared q input)
  have grown₁ := stands.spares.grown
  have isNode := find_node found
  have watch : Watch (tree s₁) V V := by
    refine ⟨fun q among => ?_, fun _ => id⟩
    rcases among with input | rfl
    · exact (inputs q input).there
    · rw [← isNode]
      exact Option.some_ne_none node
  have again {t : σ} (stands : Stands tree given (tree s₁) V V t) :=
    dispatch_again (.inr rfl) found premises watch stands planned site
      fun q => Or.imp_left (inputs q)
  have later : Stands tree given (tree s₁) V V s₂ :=
    rounds.keep ⟨⟨grown₁, .refl _, fun _ _ => rfl⟩, fun child q isGiven among =>
      stands.off child q isGiven (among.imp_right (·.trans isResult))⟩ fun _ stands => (again stands).1
  exact ⟨found_still (.inr rfl) found later.spares, (again later).2⟩

/-- However often a variant is dispatched, the artifact and the variant's IR stay as they are, wherever
they lie. When a dispatch has come to a result that is there, the result stays as it is in all that
follow, and each of these comes to it and starts nothing but the disassembler, once it has copied the
variant and if it is not interrupted. -/
theorem dispatch_idempotent :
    (∀ s', Rounds host c a v s s' → ∀ path ∈ [a.path, v.irPath], ∀ place node,
      Finds (tree s) here path place node → Finds (tree s') here path place node) ∧
    ∀ p s₁, exec host s (Reduce.dispatch c a v) = (.ok p, s₁) → ∀ place node,
      Finds (tree s₁) here p place node → ∀ s₂, Rounds host c a v s₁ s₂ →
        Finds (tree s₂) here p place node ∧
        (Copied c v (record host s₂ (Reduce.dispatch c a v).run) →
          ¬ Surfacing.Told (record host s₂ (Reduce.dispatch c a v).run) →
          (exec host s₂ (Reduce.dispatch c a v)).1 = .ok p ∧
            OnlyDisassembles c v (record host s₂ (Reduce.dispatch c a v).run)) :=
  ⟨fun _ rounds _ among _ _ =>
    inputs_found (rounds_stand premises planned grown idle site rounds).spares among,
    fun _ _ ran _ _ found _ => rounds_again premises planned grown idle site ran found⟩

end Rounds

/-! ### A result that is there from the start -/

theorem site_of_linkless (reached : Reached t here) (start : c.startDirectory = spelled [Path.slash] here false)
    (linkless : ∀ q path, t.node? q ≠ some (.link path)) : Site c here t where
  reached := reached
  start := start
  unlinking _ _ upkeep _ :=
    have linkless (q : Place) := upkeep.noLink (linkless q)
    ⟨fun _ => linkless _, fun p _ _ _ => unlinked_of_linkless linkless p⟩

/-- No such host tells of an interrupt. -/
theorem obliging_calm (status : Status) (t : FileTree) (p : Program α) :
    ¬ Surfacing.Told (record (obliging status) t p) := by
  induction p generalizing t with
  | done value => exact Surfacing.not_told_nil
  | ask r next ih =>
    rintro ⟨x, among, tells⟩
    rcases List.mem_cons.mp among with rfl | later
    · generalize isAnswer : (obliging status r t).1 = answer at tells
      cases tells with
      | asked => cases isAnswer
      | waiting child stop => cases isAnswer
    · exact ih _ _ ⟨x, later, tells⟩

def settings : Config := { VariantKeys.plain with startDirectory := "/", outputRoot := "o" }

def textModule : Artifact := ⟨"/o/m.ll", .textIr, by decide +kernel⟩

def ownVariant : Variant := ⟨Plan.ofContent settings.extraArgs "/tmp" textModule [] [], true⟩

/-- Textual IR in the output directory, beside what it was reduced to. -/
def shelf : FileTree := ⟨[([utf8 "o"], .directory), ([utf8 "o", utf8 "m.ll"], .file [] false),
  ([utf8 "o", utf8 "reduced-m.ll"], .file [0x0A] false)]⟩

def kept : FileTree := ⟨shelf.nodes ++ [([utf8 "o", utf8 "interesting-m.ll"], .file [] false)]⟩

theorem shelf_grown : Grown shelf.node? := by
  refine grown_of_nodes fun entry found => ?_
  simp only [shelf, List.mem_cons, List.not_mem_nil, or_false] at found
  rcases found with rfl | rfl | rfl <;> rfl

/-- The hosts of these dispatches: their tools succeed. -/
abbrev ready : Host FileTree := obliging (.exited 0)

theorem dispatch_on_shelf :
    exec ready shelf (Reduce.dispatch settings textModule ownVariant) = (.ok "/o/reduced-m.ll", kept) := by
  have preserved : exec ready shelf (Reduce.preserve settings ownVariant) =
      (.ok "o/interesting-m.ll", kept) := by
    cbv
  have skipped : exec ready kept (Reduce.reduceIr settings "/o/m.ll") = (.ok "/o/reduced-m.ll", kept) := by
    cbv
  exact (exec_bind_ok preserved).trans skipped

theorem root_on_shelf : exec ready kept (Action.orFail (Program.createDirectories settings.outputRoot)
    (ReduceError.files settings.outputRoot)) = (.ok (), kept) := by
  cbv

theorem copy_on_shelf : (Program.copy ownVariant.irPath (keptPath settings ownVariant)).run ready kept =
    (.ok (), kept) := by
  cbv

/-- In the next dispatch the variant is copied again, and the host knows of no interrupt. -/
theorem again_on_shelf :
    Copied settings ownVariant (record ready kept (Reduce.dispatch settings textModule ownVariant).run) ∧
    ¬ Surfacing.Told (record ready kept (Reduce.dispatch settings textModule ownVariant).run) := by
  constructor
  · have asked : record ready kept (Program.copy ownVariant.irPath (keptPath settings ownVariant)) =
        [⟨.file (.copy ownVariant.irPath (keptPath settings ownVariant)),
          ((Program.copy ownVariant.irPath (keptPath settings ownVariant)).run ready kept).1⟩] := rfl
    have first : Copied settings ownVariant (record ready kept (keeping settings ownVariant).run) := by
      rw [keeping, record_exec_bind, record_orFail, asked, copy_on_shelf]
      exact List.mem_append_left _ (List.mem_singleton_self _)
    rw [dispatch_eq, record_exec_bind, root_on_shelf]
    refine List.mem_append_right _ ?_
    dsimp only [onward]
    rw [record_exec_bind]
    exact List.mem_append_left _ first
  · exact obliging_calm _ _ _

/-- Both dispatches come to the reduced form that is there, and leave it and the IR beside it. -/
theorem redispatched_on_shelf :
    (exec ready shelf (Reduce.dispatch settings textModule ownVariant)).1 = .ok "/o/reduced-m.ll" ∧
    (exec ready kept (Reduce.dispatch settings textModule ownVariant)).1 = .ok "/o/reduced-m.ll" ∧
    Finds (exec ready kept (Reduce.dispatch settings textModule ownVariant)).2 [] "/o/reduced-m.ll"
      [utf8 "o", utf8 "reduced-m.ll"] (.file [0x0A] false) ∧
    Finds (exec ready kept (Reduce.dispatch settings textModule ownVariant)).2 [] "/o/m.ll"
      [utf8 "o", utf8 "m.ll"] (.file [] false) := by
  have planned : Planned settings textModule ownVariant := ⟨"/tmp", [], [], rfl⟩
  have linkless : ∀ q path, shelf.node? q ≠ some (.link path) :=
    linkless_of_nodes (by simp [shelf])
  have site : Site settings [] shelf := site_of_linkless ⟨fun q below => by
    obtain rfl := List.prefix_nil.mp below
    rfl, nofun⟩ rfl linkless
  obtain ⟨inputs, again⟩ := dispatch_idempotent (obliging_premises (.exited 0)) planned shelf_grown
    (fun _ _ => id) site
  have found : Finds kept [] "/o/reduced-m.ll" [utf8 "o", utf8 "reduced-m.ll"] (.file [0x0A] false) := by
    rw [Finds]
    cbv
  have own : Finds shelf [] "/o/m.ll" [utf8 "o", utf8 "m.ll"] (.file [] false) := by
    rw [Finds]
    cbv
  obtain ⟨copied, calm⟩ := again_on_shelf
  have next : Rounds ready settings textModule ownVariant kept
      (exec ready kept (Reduce.dispatch settings textModule ownVariant)).2 := .next .start
  have both : Rounds ready settings textModule ownVariant shelf
      (exec ready kept (Reduce.dispatch settings textModule ownVariant)).2 := by
    have first : Rounds ready settings textModule ownVariant shelf
        (exec ready shelf (Reduce.dispatch settings textModule ownVariant)).2 := .next .start
    rw [dispatch_on_shelf] at first
    exact .next first
  refine ⟨congrArg Prod.fst dispatch_on_shelf, ?_, ?_, ?_⟩
  · exact ((again _ _ dispatch_on_shelf _ _ found _ .start).2 copied calm).1
  · exact (again _ _ dispatch_on_shelf _ _ found _ next).1
  · exact inputs _ both "/o/m.ll" List.mem_cons_self _ _ own

end BugHunt.Proofs.Redispatch
