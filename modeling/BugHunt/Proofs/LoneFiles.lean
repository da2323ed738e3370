import BugHunt.Proofs.FailedStores
import BugHunt.Proofs.Origins
/-!
Checks of IR that no link turns back to. What is written by a path with another last name is written
elsewhere, and nothing that a check writes has the name of the IR. Main statement: such a check leaves the
IR as it is.
-/

namespace BugHunt.Proofs.LoneFiles
open AbsoluteForms Asking Cleanup DerivedNames Estate FileTree Grounds Growth Homing Housing Names Origins
open Places Reducing Runs Sparing Stages StageOrder Texts Toolless Trees Walking Ways

variable {t t' u : FileTree} {here base A P q : Place} {path : Path} {a : Artifact} {v : Variant}
  {c : Config} {name : Bytes}

/-- The paths at whose ends a link could lead a check of IR to a file that it should leave alone: the IR
itself, its sentinels, and what is in the output root. -/
inductive Turning (c : Config) (a : Artifact) : Path → Prop
  | own : Turning c a a.path
  | sentinel (stage : Stage) : Turning c a (sentinelPath a.path stage)
  | output {entry : String} (proper : Proper (utf8 entry)) : Turning c a (c.outputRoot / entry)
  | directory {entry : String} (proper : Proper (utf8 entry)) : Turning c a (outputDirectory c / entry)

/-- Whether an artifact is found at a place to which none of these paths comes over a link at its end, for
as long as what is there is left alone. -/
structure Lone (t : FileTree) (here : Place) (c : Config) (a : Artifact) (A : Place) : Prop where
  found : ∃ node, t.find here a.path true = .ok ⟨A, some node⟩
  inert : Inert (t.node? A)
  unlinked : ∀ u, Spares t (· = A) u → ∀ other, Turning c a other → ∀ base node,
    u.find base other true = .ok ⟨A, node⟩ → Unlinked u base other

/-! ## Other names -/

section Lone

variable (lone : Lone t here c a A)
include lone

theorem Lone.there : ∀ q, q = A → t.node? q ≠ none := by
  rintro _ rfl
  obtain ⟨node, found⟩ := lone.found
  rw [← find_node found]
  exact Option.some_ne_none node

theorem Lone.watch : Watch t (· = A) (· = A) := ⟨lone.there, fun _ => id⟩

theorem Lone.own (grown : Grown t.node?) : ∃ d name, a.path.fileName? = some name ∧ A = d ++ [name] := by
  obtain ⟨stem, extension, programmed⟩ := programmed_of_kind a.kind_of_path
  obtain ⟨node, found⟩ := lone.found
  have unlinked := lone.unlinked t ⟨grown, .refl t, fun _ _ => rfl⟩ _ .own here _ found
  obtain ⟨d, place⟩ := entry_of_found programmed.named unlinked lone.inert found
  exact ⟨d, _, programmed.named, place⟩

end Lone

/-- Two dots lead to a directory. -/
theorem directory_of_dots (grown : Grown u.node?) {other : Path} {pre : List Bytes}
    (pieces : other.pieces = pre ++ [[Path.dot, Path.dot]]) {followLast : Bool} {target : Target}
    (found : u.find base other followLast = .ok target) : u.isDirectoryAt target.place := by
  have dots : [Path.dot, Path.dot] ≠ [] := by simp
  obtain ⟨-, -, found⟩ := find_eq_ok.mp found
  rw [pieces] at found
  generalize (if other.isAbsolute then [] else base) = start at found
  rcases ways (.refl u) mostLinks start pre with nowhere | ⟨left, d, leads⟩
  · obtain ⟨⟨e, failed⟩, -⟩ := nowhere followLast _ dots
    rw [failed] at found
    cases found
  · rw [(leads followLast _ dots).1] at found
    cases there : u.isDirectoryAt d with
    | false =>
      rw [walk_nowhere there] at found
      cases found
    | true =>
      rw [walk_back there, walk] at found
      obtain rfl := Except.ok.inj found
      exact grown.parent there

/-! ## The names that a check writes to -/

section Input

variable (grown : Grown t.node?) (lone : Lone t here c a A)
include grown lone

/-- A path with another last name leads elsewhere, if no link at its end could turn it. -/
theorem Lone.off (spares : Spares t (· = A) u) {other : Path} {pre : List Bytes} {last : Bytes}
    (ends : Ends other pre last) (differs : a.path.fileName? ≠ some last) {followLast : Bool}
    (turns : followLast = false ∨ Turning c a other) {target : Target}
    (found : u.find base other followLast = .ok target) : target.place ≠ A := by
  obtain ⟨place, node⟩ := target
  rintro rfl
  have stays : followLast = false ∨ Unlinked u base other := by
    cases followLast with
    | false => exact .inl rfl
    | true => exact .inr (lone.unlinked u spares other (turns.resolve_left nofun) base node found)
  obtain ⟨d, entries⟩ := entries_of_found (.refl u) ends found
  have isEntry := ((entries other last followLast ends).1 stays).symm.trans found
  obtain ⟨d', name, named, own⟩ := lone.own grown
  have same := (Target.mk.inj (entry_eq_ok isEntry).1).1.symm.trans own
  exact differs (named.trans (congrArg some (List.singleton_inj.mp (List.append_inj' same rfl).2).symm))

/-- A name with the ending of a marker or a sentinel is no program's name. -/
theorem Lone.ended_off (spares : Spares t (· = A) u) {other : Path} {pre : List Bytes} {stem : Bytes}
    {ending : String} (ends : Ends other pre (stem ++ Path.dot :: utf8 ending))
    (plain : Path.dot ∉ utf8 ending) (unknown : Kind.ofExtension? ending = none) {followLast : Bool}
    (turns : followLast = false ∨ Turning c a other) {target : Target}
    (found : u.find base other followLast = .ok target) : target.place ≠ A := by
  obtain ⟨own, extension, programmed⟩ := programmed_of_kind a.kind_of_path
  refine lone.off grown spares ends (fun same => ?_) turns found
  exact programmed.ne_ended plain (by simp [decode?_utf8, unknown])
    (Option.some.inj (programmed.named.symm.trans same))

/-- The sentinel of a crash lies beside the IR. Where the name is two dots and the extension, nothing
but the directory above is left of it. -/
theorem Lone.sentinel_off (spares : Spares t (· = A) u) (stage : Stage) {followLast : Bool} {target : Target}
    (found : u.find base (sentinelPath a.path stage) followLast = .ok target) : target.place ≠ A := by
  obtain ⟨stem, extension, programmed⟩ := programmed_of_kind a.kind_of_path
  obtain ⟨node, own⟩ := lone.found
  obtain ⟨pre, ends⟩ := ends_of_found programmed.named lone.inert own
  by_cases dotted : stem = [Path.dot]
  · subst dotted
    obtain ⟨lead, isLead, bytes⟩ := lead_of_pieces ends.pieces
    have some : extension ≠ [] := by
      rintro rfl
      exact programmed.proper.ne_dots rfl
    have above : sentinelPath a.path stage = ⟨lead ++ [Path.dot, Path.dot]⟩ := by
      rw [sentinelPath, show a.path = ⟨lead ++ (Path.dot :: Path.dot :: extension)⟩ from congrArg Path.mk bytes]
      exact withExtension_of_dots isLead programmed.clean.2 programmed.plain some
    rw [above] at found
    have there := directory_of_dots spares.grown (isLead [Path.dot, Path.dot] (by decide)).1 found
    rintro same
    rw [FileTree.isDirectoryAt, same, spares.spared A rfl, lone.inert.noDirectory] at there
    cases there
  · have isStem : Stem stem := ⟨programmed.stemmed, dotted, programmed.clean.1⟩
    have beside := withExtension_ends stage.sentinelExtension ends.pieces isStem programmed.plain
      (by cases stage <;> decide)
    exact lone.ended_off grown spares beside (by cases stage <;> decide) (by cases stage <;> decide)
      (.inr (.sentinel stage)) found

theorem Lone.entry_off (spares : Spares t (· = A) u) {d : Path} {entry : String} (proper : Proper (utf8 entry))
    (foreign : Foreign a v entry) (turns : Turning c a (d / entry)) {followLast : Bool} {target : Target}
    (found : u.find base (d / entry) followLast = .ok target) : target.place ≠ A := by
  obtain ⟨pre, -, ends⟩ := ends_entry d
  exact lone.off grown spares (ends proper) (foreign a.path List.mem_cons_self) (.inr turns) found

/-- Markers are no programs. -/
theorem Lone.marker_off (spares : Spares t (· = A) u) {cache : Cache} {key : String}
    {verdict : Classification} (clean : '/' ∉ key.toList) {marker : Path}
    (isMarker : cache.markerPath? key verdict = some marker) {target : Target}
    (found : u.find base marker false = .ok target) : target.place ≠ A := by
  obtain ⟨before, lead⟩ := lead_front cache.resultsDir
  obtain ⟨ending, isEnding, ends⟩ := FailedStores.marker_entry lead clean isMarker
  rw [utf8_append, utf8_append, utf8_dot, List.append_assoc, List.singleton_append] at ends
  have known : ending = "uninteresting" ∨ ending = "nocompile" := by
    cases verdict <;> simp_all [Cache.markerEnding?]
  rcases known with rfl | rfl
  · exact lone.ended_off grown spares ends (by decide) (by decide) (.inl rfl) found
  · exact lone.ended_off grown spares ends (by decide) (by decide) (.inl rfl) found

/-! ## What is left alone -/

/-- Whatever the tools of the oracle write is below the workspace, and a sentinel is no program. -/
theorem classifyIn_harmless {w : Workspace} (scratch : Scratch t here (· = A) w.root P t') :
    Within (Harmless t' here (· = A) (· = A)) (Oracle.classifyIn c w a.path) := by
  have room {room : String} (among : room ∈ rooms) {u : FileTree} (spares : Spares t' (· = A) u) {base : Place}
      {target : Target} (found : u.find base (w.root / room) true = .ok target) {q : Place}
      (below : target.place <+: q) : q ≠ A := by
    rintro rfl
    rw [scratch.entry (room_proper among) spares.upkeep found] at below
    exact scratch.outside q rfl ((List.prefix_append ..).trans below)
  have generates (bitcode : Path) (u : FileTree) (spares : Spares t' (· = A) u) (q : Place)
      (isOutput : Outputs u here (Oracle.factCommand c w bitcode) q) : q ≠ A := by
    unfold Outputs at isOutput
    rw [Outcomes.facts_call] at isOutput
    obtain ⟨base, target, -, found, below, -⟩ := isOutput
    exact room (show "facts" ∈ rooms by simp [rooms]) spares found below
  have analyses (u : FileTree) (spares : Spares t' (· = A) u) (q : Place)
      (isOutput : Outputs u here (Oracle.analysisCommand c w) q) : q ≠ A := by
    unfold Outputs at isOutput
    rw [(Outcomes.analysis_call c w).1] at isOutput
    obtain ⟨base, target, -, found, below, -⟩ := isOutput
    exact room (show "results" ∈ rooms by simp [rooms]) spares found below
  have assembles : Clear t' here (· = A) (· = A) (w.root / s!"{Plan.stemOf a.path}.bc") :=
    scratch.clear (Judging.ended_proper (slash_notMem_stemOf a.path))
  exact classifyIn_within c harmless_looking w a.path
    (assemble_within c harmless_looking _ _ trivial
      (harmless_running (clear_convert assembles _ _)))
    (fun bitcode => harmless_running (generates bitcode)) (harmless_running analyses) (fun _ => trivial)
    fun stage _ u spares _ _ found => lone.sentinel_off grown (scratch.spares.trans spares) stage found

end Input

/-! ## Workspaces -/

section Workspaces

variable {host : Host σ} {tree : σ → FileTree} {given : σ → Child → Place → Prop} {s : σ} {W : Place → Prop}

/-- How things stand when a workspace was asked for. -/
def Opened (tree : σ → FileTree) (given : σ → Child → Place → Prop) (t : FileTree) (here : Place)
    (W : Place → Prop) : Except ε Workspace → σ → Prop
  | .ok w, s => ∃ P t', Scratch t here W w.root P t' ∧ Stands tree given t' W W s
  | .error _, s => Stands tree given t W W s

/-- How things stand when the directories of a workspace were asked for, in the tree `t'` that has its
root. -/
def Furnished (tree : σ → FileTree) (given : σ → Child → Place → Prop) (t t' : FileTree) (W : Place → Prop) :
    Except ε Unit → σ → Prop
  | .ok _, s => Stands tree given t' W W s
  | .error _, s => Stands tree given t W W s

variable (premises : Premises host tree here given) (watch : Watch t W W)
include premises watch

theorem keeps_of_within {x : Action ε α} (asks : Within (Harmless t here W W) x) :
    Keeps host (Stands tree given t W W) x :=
  fun _ stands => stands.run premises watch asks

theorem discard_stands {w : Workspace} (retain : Bool) (scratch : Scratch t here W w.root P t')
    (stands : Stands tree given t' W W s) : Stands tree given t W W ((w.discard retain).run host s).2 := by
  cases retain with
  | true => exact stands.since scratch.spares
  | false => exact scratch.removes premises watch stands

theorem create_ends (name : String) :
    Ends host (Stands tree given t W W) (Workspace.create name) (Opened tree given t here W) := by
  unfold Workspace.create
  refine .tries (Drawn tree given t here W W) (fun s stands => stands.drawn premises watch _ _)
    (fun _ _ => id) fun root => ?_
  rintro s ⟨P, t', scratch, stands⟩
  refine Ends.bind (P := Stands tree given t' W W) (Q := Furnished tree given t t' W)
    (.cleaningUp (keeps_of_within premises (watch.kept scratch.spares)
      (.bind (.orFail (asks_request trivial)) fun _ => .orFail (asks_request trivial)))
        fun result s stands => ?_) (fun _ s stands => ?_) (fun _ _ stands => ?_) s stands
  · cases result with
    | ok value => exact stands
    | error cause => exact discard_stands premises watch (w := ⟨root⟩) false scratch stands
  · exact ⟨P, t', scratch, stands⟩
  · exact stands

/-- Judging leaves alone what it leaves alone in any workspace. -/
theorem classify_keeps {ir : Path} (judges : ∀ w P t', Scratch t here W w.root P t' →
    Within (Harmless t' here W W) (Oracle.classifyIn c w ir)) :
    Keeps host (Stands tree given t W W) (Oracle.classify c ir) := by
  unfold Oracle.classify
  refine Ends.bind (Q := Opened tree given t here W) (.adapt ((create_ends premises watch _).mono
    fun result s opened => ?_)) (fun w => ?_) fun _ _ => id
  · cases result <;> exact opened
  · rintro s ⟨P, t', scratch, stands⟩
    have judged := keeps_of_within premises (watch.kept scratch.spares) (judges w P t' scratch)
    exact Ends.cleaningUp judged (fun result s => discard_stands premises watch c.debug scratch) s stands

end Workspaces

/-! ## Checks of IR -/

section Checks

variable {host : Host σ} {tree : σ → FileTree} {given : σ → Child → Place → Prop} {s : σ}
  (grown : Grown t.node?) (lone : Lone t here c a A) (premises : Premises host tree here given)
include grown lone premises

/-- Nothing that a dispatch of IR writes to has the name of the IR. -/
theorem dispatch_keeps (planned : Planned c a v) (isIr : a.isSource = false) :
    Keeps host (Stands tree given t (· = A) (· = A)) (Reduce.dispatch c a v) := by
  have watch := lone.watch
  have clear {d : Path} {entry : String} (proper : Proper (utf8 entry)) (foreign : Foreign a v entry)
      (turns : Turning c a (d / entry)) : Clear t here (· = A) (· = A) (d / entry) :=
    fun u spares _ _ found => lone.entry_off grown spares proper foreign turns found
  have minimizes (u : FileTree) (spares : Spares t (· = A) u) (q : Place)
      (isOutput : Outputs u here (irCommand c v.irPath) q) : q ≠ A := by
    unfold Outputs at isOutput
    rw [irCommand, minimizeIr_call] at isOutput
    obtain ⟨base, target, -, found, rfl⟩ := isOutput
    exact lone.entry_off grown spares (irName_proper _) (ir_foreign planned) (.directory (irName_proper _)) found
  have assembles : Clear t here (· = A) (· = A) (bitcodePath c v.irPath) := by
    obtain ⟨proper, foreign⟩ := bitcode_foreign planned
    rw [bitcodePath_eq]
    exact clear proper foreign (.directory proper)
  have disassembles : Clear t here (· = A) (· = A) (textPath c v) := by
    obtain ⟨proper, foreign⟩ := text_foreign planned
    rw [textPath_eq planned]
    exact clear proper foreign (.output proper)
  have reduces : Ends host (Stands tree given t (· = A) (· = A)) (reducing c a v)
      (Lasts tree given t (· = A) (· = A)) := by
    unfold reducing Backend.of
    rw [isIr]
    exact reduceIr_lasts c premises watch v.irPath minimizes assembles
  have proper := keptName_proper (keptName_clean planned)
  have went := onward_lasts c a v premises watch (clear proper (kept_foreign planned) (.output proper))
    disassembles reduces
  rw [dispatch_eq]
  exact .bind (keeps_of_within premises watch (.orFail (asks_request trivial))) fun _ =>
    went.mono fun _ _ lasts => lasts.own watch

/-- A marker goes where it is, and takes nothing else along. -/
theorem removal_leaves {cache : Cache} {key : String} {verdict : Classification} (clean : '/' ∉ key.toList)
    {marker : Path} (isMarker : cache.markerPath? key verdict = some marker)
    (stands : Stands tree given t (· = A) (· = A) s) :
    (tree (host (.file (.remove marker)) s).2).node? A = t.node? A := by
  obtain ⟨u, scribbled, upkeep, -, tells⟩ := premises.step (.file (.remove marker)) s
  have spares := stands.spares.scribbled scribbled upkeep fun q ⟨child, isGiven⟩ => stands.off child q isGiven
  rw [← spares.spared A rfl]
  generalize (host (.file (.remove marker)) s).1 = answer at tells
  cases answer with
  | ok value =>
    obtain ⟨q, node, found, -, view⟩ := remove_eq_ok (show u.remove here marker = .ok _ from tells)
    have other : A ≠ q := (lone.marker_off grown spares clean isMarker found).symm
    rw [view, View.put_other other]
  | error cause =>
    have same : tree (host (.file (.remove marker)) s).2 = u := tells
    rw [same]

/-- Whether an action ends with the file as it was. -/
def Unharmed (host : Host σ) (tree : σ → FileTree) (given : σ → Child → Place → Prop) (t : FileTree)
    (A : Place) (x : Action ε α) : Prop :=
  Ends host (Stands tree given t (· = A) (· = A)) x fun _ s => (tree s).node? A = t.node? A

omit grown lone premises in
theorem unharmed_of_keeps {x : Action ε α} (keeps : Keeps host (Stands tree given t (· = A) (· = A)) x) :
    Unharmed host tree given t A x :=
  Ends.mono keeps fun _ _ stands => stands.spares.spared A rfl

omit grown lone premises in
theorem unharmed_bind {x : Action ε α} {f : α → Action ε β} {p : α → Prop}
    (first : Ends host (Stands tree given t (· = A) (· = A)) x fun result s =>
      (∀ value, result = .ok value → p value) ∧ Stands tree given t (· = A) (· = A) s)
    (second : ∀ value, p value → Unharmed host tree given t A (f value)) :
    Unharmed host tree given t A (x >>= f) :=
  Ends.bind first (fun value => .knowing fun known => second value (known value rfl))
    fun _ _ failed => failed.2.spares.spared A rfl

omit grown lone premises in
theorem unharmed_after {x : Action ε α} {f : α → Action ε β}
    (keeps : Keeps host (Stands tree given t (· = A) (· = A)) x)
    (second : ∀ value, Unharmed host tree given t A (f value)) : Unharmed host tree given t A (x >>= f) :=
  Ends.bind keeps second fun _ _ failed => failed.spares.spared A rfl

omit grown lone premises in
theorem unharmed_last {x : Action ε α} {g : ε → φ} {value : β} (unharmed : Unharmed host tree given t A x) :
    Unharmed host tree given t A (x.adapt g >>= fun _ => pure value) :=
  Ends.bind (Q := fun _ s => (tree s).node? A = t.node? A) (.adapt unharmed) (fun _ _ => id) fun _ _ => id

theorem store_unharmed {cache : Cache} {key : String} (clean : '/' ∉ key.toList) (verdict : Classification) :
    Unharmed host tree given t A (cache.store key verdict) := by
  unfold Cache.store
  split
  · rename_i marker other isMarker isOther
    obtain ⟨opposite, -, isOther⟩ := Option.bind_eq_some_iff.mp isOther
    refine .tries (fun _ => Stands tree given t (· = A) (· = A))
      (fun s stands => stands.step premises lone.watch (r := .file (.touch marker)) trivial)
      (fun _ _ stands => stands.spares.spared A rfl) fun _ s stands => ?_
    have left := removal_leaves grown lone premises clean isOther stands
    have removed : (exec host s (Cache.removeIfPresent other)).2 = (host (.file (.remove other)) s).2 := by
      rw [exec, Cache.removeIfPresent, ExceptT.run_mk, run_bind]
      split <;> rfl
    rwa [removed]
  · exact fun s stands => stands.spares.spared A rfl

variable (isIr : a.isSource = false)

omit grown in
theorem report_keeps (name : String) (verdict : Classification) (s : Summary) :
    Keeps host (Stands tree given t (· = A) (· = A)) (Check.report c name verdict s) :=
  keeps_of_within premises lone.watch (.bind (.monadLift (asks_request trivial)) fun _ => .pure _)

include isIr

theorem reduce_keeps (planned : Planned c a v) (s : Summary) :
    Keeps host (Stands tree given t (· = A) (· = A)) (Check.reduce c a v s) := by
  have logged (level : Level) (message : String) (s : Summary) :
      Keeps host (Stands tree given t (· = A) (· = A))
        (do Program.log level message; return s : Checking Summary) :=
    keeps_of_within premises lone.watch (.bind (.monadLift (asks_request trivial)) fun _ => .pure _)
  unfold Check.reduce
  refine .bind (dispatch_keeps grown lone premises planned isIr).attempt fun result => ?_
  split
  · exact logged _ _ _
  · exact logged _ _ _
  · exact .throw _

/-- Storing the verdict is the last that is done, as the IR itself is not tidied away. -/
theorem fresh_unharmed {cache : Cache} {p : Plan} {flags : List String} {content : Bytes}
    (isPlan : p = Plan.ofContent c.extraArgs cache.irDir a flags content) (s : Summary) :
    Unharmed host tree given t A (Check.fresh c cache a p s) := by
  have built : Ends host (Stands tree given t (· = A) (· = A))
      ((Compile.build c cache.irDir a p).adapt PipelineError.compile) fun result s =>
        (∀ v, result = .ok v → v = ⟨p, true⟩) ∧ Stands tree given t (· = A) (· = A) s := by
    unfold Compile.build
    rw [isIr]
    exact fun s stands => ⟨fun v same => (Except.ok.inj same).symm, stands⟩
  unfold Check.fresh
  refine unharmed_bind built ?_
  rintro v rfl
  have planned : Planned c a ⟨p, true⟩ := ⟨_, flags, content, isPlan⟩
  have clean : '/' ∉ p.key.toList := isPlan ▸ slash_notMem_key _ _ _ _ _
  have judged : Keeps host (Stands tree given t (· = A) (· = A)) (Oracle.classify c p.irPath) := by
    rw [show p.irPath = a.path from planned.ir isIr]
    exact classify_keeps premises lone.watch fun w P t' scratch => classifyIn_harmless grown lone scratch
  dsimp only
  refine unharmed_after judged.adapt fun verdict =>
    unharmed_after (report_keeps lone premises _ verdict s) fun s => ?_
  split
  · exact unharmed_of_keeps (reduce_keeps grown lone premises isIr planned s)
  · have settled : Check.settle c cache a ⟨p, true⟩ verdict =
        (cache.store p.key verdict).adapt .cache >>= fun _ => pure () := by
      unfold Check.settle
      rw [isIr]
      rfl
    rw [settled, bind_assoc]
    exact unharmed_last (store_unharmed grown lone premises clean verdict)

theorem variant_unharmed (cache : Cache) (flags : List String) (s : Summary) :
    Unharmed host tree given t A (Check.variant c cache a flags s) := by
  have planned : Ends host (Stands tree given t (· = A) (· = A))
      ((Compile.plan c cache.irDir a flags).adapt PipelineError.compile) fun result s =>
        (∀ p, result = .ok p → ∃ content, p = Plan.ofContent c.extraArgs cache.irDir a flags content) ∧
          Stands tree given t (· = A) (· = A) s := by
    unfold Compile.plan
    refine .adapt (.tries (fun _ => Stands tree given t (· = A) (· = A))
      (fun s stands => stands.step premises lone.watch (r := .file (.read a.path)) trivial)
      (fun cause s stands => ⟨nofun, stands⟩) fun content s stands => ⟨?_, stands⟩)
    exact fun p same => ⟨content, (Except.ok.inj same).symm⟩
  have looked (p : Plan) : Keeps host (Stands tree given t (· = A) (· = A))
      (ExceptT.lift (cache.lookup p.key) : Checking (Option Classification)) :=
    keeps_of_within premises lone.watch (.lift ((lookup_looks cache p.key).mono harmless_looking))
  unfold Check.variant
  refine unharmed_after (keeps_of_within premises lone.watch (.monadLift (asks_request trivial)))
    fun cancelled => ?_
  dsimp only
  split
  · exact fun s stands => stands.spares.spared A rfl
  · refine unharmed_bind planned fun p ⟨content, isPlan⟩ => unharmed_after (looked p) fun found => ?_
    split
    · exact unharmed_of_keeps (report_keeps lone premises _ _ _)
    · exact fresh_unharmed grown lone premises isIr isPlan s

/-- The check of IR that no link leads to leaves it as it is, whatever the verdict. -/
theorem variants_unharmed (cache : Cache) : Unharmed host tree given t A (Check.variants c cache a) := by
  have single : flagSets c a = [[]] := by
    rw [flagSets, isIr]
    rfl
  unfold Check.variants
  rw [single]
  exact Ends.bind (variant_unharmed grown lone premises isIr cache [] .zero) (fun _ _ => id) fun _ _ => id

end Checks

end BugHunt.Proofs.LoneFiles
