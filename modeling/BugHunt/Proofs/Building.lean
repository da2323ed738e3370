import BugHunt.Proofs.Outcomes
import BugHunt.Proofs.VariantKeys
/-!
Building a variant on a bench: it comes to what the compiler makes of the bytes and the flags, and
changes nothing but the place of the compiled IR.
-/

namespace BugHunt.Proofs.Building
open Trees Texts Names Places Runs Bench Outcomes

variable {b : Bench} {c : Config} {s : State}

theorem canStart_compile (a : Artifact) (flags : List String) (output : Path) :
    b.canStart (Compile.command c a flags output) =
      b.tools.starts (Compile.compilerFor c a.kind) (compileOptions c flags) := by
  rw [canStart, compile_call]
  rfl

theorem carryOut_compile (a : Artifact) (flags : List String) (output : Path) (t : FileTree) :
    b.carryOut (Compile.command c a flags output) t =
      let effect := b.tools.compile (Compile.compilerFor c a.kind) (compileOptions c flags)
        (content t (b.place a.path))
      (put t (b.place output) effect.written, effect.finish) := by
  rw [carryOut, compile_call]
  rfl

/-- The file that a compiler finds to write to, empty and of its own. -/
structure Staged (v : View) (staging : Path) (place : Place) : Prop where
  named : endsIdle staging = false
  empty : v place = some (.file [] false)
  parent : View.directory v place.dropLast

theorem Staged.noDirectory {v : View} {staging : Path} {place : Place} (h : Staged v staging place) :
    v.directory place = false := by
  rw [View.directory, h.empty]
  rfl

theorem Staged.writable {v : View} {staging : Path} {place : Place} (h : Staged v staging place) :
    View.writable v place := by
  simp only [View.writable, h.noDirectory, h.parent, Bool.not_false, Bool.and_self]

/-- What stands in the file after a tool has written to it, or not. -/
theorem Staged.put {t : FileTree} {staging : Path} {place : Place}
    (h : Staged t.node? staging place) (written : Option Bytes) :
    (Bench.put t place written).node? =
      View.put t.node? place (some (.file (written.getD []) false)) := by
  cases written with
  | none =>
    funext q
    by_cases same : q = place
    · rw [same, View.put_self]
      exact h.empty
    · rw [View.put_other same]
      rfl
  | some bytes =>
    obtain ⟨u, done, view⟩ := write_ok bytes h.writable
    simp only [Bench.put, done, Except.toOption, Option.getD_some, view]

theorem looksLikeBitcode_run {p : Path} (named : endsIdle p = false) :
    (Compile.looksLikeBitcode p).run b.host s =
      ((content s.tree (b.place p)).any isBitcode, s) := by
  unfold Compile.looksLikeBitcode
  rw [run_bind, run_read, readAt_of_endsIdle named]
  unfold content
  cases Trees.read s.tree (b.place p) <;> rfl

theorem exec_runTool (command : Command) :
    exec b.host s (Compile.runTool c command) =
      if b.canStart command then
        (.ok (outcome (b.tools.streams command) (b.carryOut command s.tree).2), after b s command)
      else (.error (.run (.spawn command.program.display (.system .noEntry))), s) := by
  unfold Compile.runTool
  rw [exec_adapt, exec_command]
  split <;> rfl

/-- Compiling into a staging file gives the IR its place or leaves the staging file behind. -/
theorem intoStaging_spec {a : Artifact} {p : Plan} {staging : Path} {source : Bytes}
    (staged : Staged s.tree.node? staging (b.place staging))
    (there : content s.tree (b.place a.path) = some source)
    (free : View.writable s.tree.node? (b.place p.irPath)) :
    ∃ r t, exec b.host s (Compile.intoStaging c a p staging) = (r, t) ∧
      match compiled b c a.kind p.flags source with
      | .bitcode bytes => r = .ok true ∧ t.tree.node? =
          (View.put s.tree.node? (b.place staging) none).put (b.place p.irPath)
            (some (.file bytes false))
      | .failed => r = .ok false ∧ ∃ bytes, t.tree.node? =
          View.put s.tree.node? (b.place staging) (some (.file bytes false))
      | .impossible => (∃ e, r = .error e) ∧ ∃ bytes, t.tree.node? =
          View.put s.tree.node? (b.place staging) (some (.file bytes false)) := by
  unfold Compile.intoStaging
  rw [exec_bind, exec_runTool, canStart_compile, carryOut_compile, there]
  unfold compiled
  by_cases starts : b.tools.starts (Compile.compilerFor c a.kind) (compileOptions c p.flags)
  · simp only [starts, if_true]
    generalize state : after b s (Compile.command c a p.flags staging) = t
    have view : t.tree.node? = View.put s.tree.node? (b.place staging) (some (.file
        ((b.tools.compile (Compile.compilerFor c a.kind) (compileOptions c p.flags)
          (some source)).written.getD []) false)) := by
      rw [← state, after, carryOut_compile, there]
      exact staged.put _
    generalize b.tools.compile (Compile.compilerFor c a.kind) (compileOptions c p.flags)
      (some source) = effect at view ⊢
    by_cases success : effect.finish = .ended (.exited 0)
    · have found : content t.tree (b.place staging) = some (effect.written.getD []) := by
        rw [content_of_node?, view, View.put_self]
      simp only [success, outcome, Command.outcomeOf, Status.isSuccess, beq_self_eq_true, if_true,
        exec_bind, exec_monadLift, looksLikeBitcode_run staged.named, found, Option.any_some]
      by_cases magic : isBitcode (effect.written.getD [])
      · obtain ⟨u, moved, after⟩ := rename_ok (by rw [view, View.put_self])
          (show View.writable t.tree.node? (b.place p.irPath) by
            rw [view, View.writable_put staged.noDirectory rfl]
            exact free)
        simp only [magic, Bool.not_true, Bool.false_eq_true, if_false, if_true]
        rw [exec_bind, exec_orFail, run_rename, moved]
        refine ⟨_, _, rfl, rfl, ?_⟩
        show u.node? = _
        rw [after, view, View.put_put]
      · simp only [magic, Bool.not_false, if_true, Bool.false_eq_true, if_false]
        exact ⟨_, _, rfl, ⟨_, rfl⟩, _, view⟩
    · simp only [success, if_false]
      split
      · rename_i completed
        exact absurd (outcome_completed completed) success
      · exact ⟨_, _, rfl, rfl, _, view⟩
      · exact ⟨_, _, rfl, rfl, _, view⟩
  · simp only [starts, Bool.false_eq_true, if_false]
    refine ⟨_, _, rfl, ⟨_, rfl⟩, [], ?_⟩
    exact staged.put none

/-! ## Plans -/

/-- A key has a stem's form, whatever it is made of. -/
theorem key_stem (extraArgs : List String) (outDir : Path) (a : Artifact) (flags : List String)
    (source : Bytes) : Stem (utf8 (Plan.ofContent extraArgs outDir a flags source).key) := by
  have clean := slash_notMem_key extraArgs outDir a flags source
  have digest (message : Bytes) : utf8 (Plan.shortDigest message) ≠ [] := by
    intro none
    have length := shortDigest_length message
    rw [@utf8_injective (Plan.shortDigest message) "" none] at length
    cases length
  refine ⟨?_, ?_, fun found => clean (slash_of_mem_utf8 found)⟩
  all_goals
    rw [VariantKeys.key_eq]
    simp [utf8_dot, digest, List.append_eq_cons_iff]

theorem irPath_of_source {extraArgs : List String} {outDir : Path} {a : Artifact}
    {flags : List String} {source : Bytes} (isSource : a.isSource) :
    (Plan.ofContent extraArgs outDir a flags source).irPath = outDir / Path.ofString
      ((Plan.ofContent extraArgs outDir a flags source).key ++ "." ++ "bc") := by
  simp only [Plan.ofContent, isSource, if_true, toString_text, String.append_assoc]
  rfl

theorem irPath_of_ir {extraArgs : List String} {outDir : Path} {a : Artifact}
    {flags : List String} {source : Bytes} (ir : a.isSource = false) :
    (Plan.ofContent extraArgs outDir a flags source).irPath = a.path := by
  simp [Plan.ofContent, ir]

theorem place_irPath {extraArgs : List String} {outDir : Path} {a : Artifact}
    {flags : List String} {source : Bytes} (isSource : a.isSource) :
    b.place (Plan.ofContent extraArgs outDir a flags source).irPath = b.place outDir ++
      [utf8 ((Plan.ofContent extraArgs outDir a flags source).key ++ "." ++ "bc")] := by
  rw [irPath_of_source isSource]
  apply place_entry
  have proper := (key_stem extraArgs outDir a flags source).proper
    (show Path.slash ∉ utf8 "bc" by decide)
  simpa [utf8_dot] using proper

theorem staging_frames (extraArgs : List String) (outDir : Path) (a : Artifact)
    (flags : List String) (source : Bytes) :
    Frames s!".{(Plan.ofContent extraArgs outDir a flags source).key}." ".bc" := by
  have stem := key_stem extraArgs outDir a flags source
  apply frames
  · simp [utf8_dot, stem.clean, slash_ne_dot]
  · decide
  · have named := List.length_pos_iff.mpr stem.named
    simp [utf8_dot]
    omega

/-! ## Building -/

/-- IR that is there is taken as it is. -/
theorem build_of_there {outDir : Path} {a : Artifact} {p : Plan}
    (there : s.tree.node? (b.place p.irPath) ≠ none) :
    exec b.host s (Compile.build c outDir a p) = (.ok ⟨p, true⟩, s) := by
  have found : Trees.exists s.tree (b.place p.irPath) = true := by
    simpa [Trees.exists, Option.isSome_iff_ne_none] using there
  unfold Compile.build
  by_cases isSource : a.isSource
  · simp only [isSource, Bool.not_true, Bool.false_eq_true, if_false]
    rw [exec_bind, exec_monadLift, run_exists, found]
    rfl
  · simp only [isSource, Bool.not_false, if_true]
    rfl

theorem build_of_ir {outDir : Path} {a : Artifact} {p : Plan} (ir : a.isSource = false) :
    exec b.host s (Compile.build c outDir a p) = (.ok ⟨p, true⟩, s) := by
  simp only [Compile.build, ir, Bool.not_false, if_true]
  rfl

/-- Building goes on from where its directory has been made. -/
theorem build_directories {outDir : Path} {a : Artifact} {p : Plan} {u : FileTree}
    (isSource : a.isSource) (free : s.tree.node? (b.place p.irPath) = none)
    (made : Trees.createDirectories s.tree (b.place outDir) = .ok u)
    (freeAfter : u.node? (b.place p.irPath) = none) :
    exec b.host s (Compile.build c outDir a p) =
      exec b.host { s with tree := u } (Compile.build c outDir a p) := by
  have missing : Trees.exists s.tree (b.place p.irPath) = false := by simp [Trees.exists, free]
  have missingAfter : Trees.exists u (b.place p.irPath) = false := by
    simp [Trees.exists, freeAfter]
  have again := createDirectories_of_directory (createDirectories_spec made).2
  unfold Compile.build
  simp only [isSource, Bool.not_true, Bool.false_eq_true, if_false]
  rw [exec_bind, exec_bind, exec_monadLift, exec_monadLift, run_exists, run_exists, missing,
    missingAfter]
  simp only [Bool.false_eq_true, if_false]
  rw [exec_bind, exec_bind, exec_orFail, exec_orFail, run_createDirectories,
    run_createDirectories, made, again]
  rfl

/-- Nothing comes of building where its directory cannot be made. -/
theorem build_without_directory {outDir : Path} {a : Artifact} {p : Plan} {cause : Failure}
    (isSource : a.isSource) (free : s.tree.node? (b.place p.irPath) = none)
    (refused : Trees.createDirectories s.tree (b.place outDir) = .error cause) :
    exec b.host s (Compile.build c outDir a p) = (.error (.files outDir cause), s) := by
  have missing : Trees.exists s.tree (b.place p.irPath) = false := by simp [Trees.exists, free]
  unfold Compile.build
  simp only [isSource, Bool.not_true, Bool.false_eq_true, if_false]
  rw [exec_bind, exec_monadLift, run_exists, missing]
  simp only [Bool.false_eq_true, if_false]
  rw [exec_bind, exec_orFail, run_createDirectories, refused]
  rfl

/-- Nothing is left of a staging file that did not get its final name. -/
theorem discardStaging_run {v : View} {staging : Path} {bytes : Bytes}
    {result : Except CompileError Bool} (kept : result ≠ .ok true) (fresh : v (b.place staging) = none)
    (view : s.tree.node? = v.put (b.place staging) (some (.file bytes false))) :
    ((Compile.discardStaging staging result).run b.host s).2.tree.node? = v := by
  obtain ⟨u, removed, after⟩ := remove_ok
    (show s.tree.node? (b.place staging) = some (.file bytes false) by rw [view, View.put_self]) rfl
  have same : ((Compile.discardStaging staging result).run b.host s).2 = { s with tree := u } := by
    unfold Compile.discardStaging
    split
    · exact absurd rfl kept
    · rw [run_bind, run_remove, removed]
      rfl
  rw [same, show ({ s with tree := u } : State).tree = u from rfl, after, view, View.put_back fresh]

/-- Building makes the IR of a source if the compiler makes bitcode of it, and leaves nothing else
behind. -/
theorem build_spec {outDir : Path} {a : Artifact} {flags : List String} {source : Bytes} {p : Plan}
    (isPlan : p = Plan.ofContent c.extraArgs outDir a flags source) (isSource : a.isSource)
    (there : content s.tree (b.place a.path) = some source)
    (directory : View.directory s.tree.node? (b.place outDir))
    (free : s.tree.node? (b.place p.irPath) = none) :
    ∃ r t, exec b.host s (Compile.build c outDir a p) = (r, t) ∧
      match compiled b c a.kind flags source with
      | .bitcode bytes => r = .ok ⟨p, true⟩ ∧
          t.tree.node? = View.put s.tree.node? (b.place p.irPath) (some (.file bytes false))
      | .failed => r = .ok ⟨p, false⟩ ∧ t.tree.node? = s.tree.node?
      | .impossible => (∃ e, r = .error e) ∧ t.tree.node? = s.tree.node? := by
  have missing : Trees.exists s.tree (b.place p.irPath) = false := by
    simp [Trees.exists, free]
  have isFlags : p.flags = flags := by simp [isPlan, Plan.ofContent, isSource]
  obtain ⟨staging, name, u, made, named, place, drawn, view⟩ :=
    @run_temporaryFile b s outDir s!".{p.key}." ".bc"
      (isPlan ▸ staging_frames c.extraArgs outDir a flags source) directory
  have fresh : s.tree.node? (b.place staging) = none :=
    drawn.fresh.free (by rw [place]; simp)
  have empty : View.directory s.tree.node? (b.place staging) = false :=
    View.directory_of_none fresh
  have staged : Staged u.node? staging (b.place staging) := by
    refine ⟨named, by rw [view, View.put_self], ?_⟩
    rw [view, View.directory_put empty rfl, place, List.dropLast_concat]
    exact directory
  have still : content u (b.place a.path) = some source := by
    have other : b.place a.path ≠ b.place staging := by
      intro same
      rw [content_of_node?, same, fresh] at there
      cases there
    rw [content_of_node?, view, View.put_other other, ← content_of_node?]
    exact there
  have writable : View.writable u.node? (b.place p.irPath) := by
    rw [view, View.writable_put empty rfl]
    rw [isPlan, place_irPath isSource] at free ⊢
    exact View.writable_entry free directory
  obtain ⟨r, t, ran, result⟩ := @intoStaging_spec b c { s with tree := u } a p staging source
    staged still writable
  rw [isFlags] at result
  unfold Compile.build
  simp only [isSource, Bool.not_true, Bool.false_eq_true, if_false]
  rw [exec_bind, exec_monadLift, run_exists, missing]
  simp only [Bool.false_eq_true, if_false]
  rw [exec_bind, exec_orFail, run_createDirectories, createDirectories_of_directory directory]
  simp only [Bench.change, mapError_ok]
  rw [exec_bind, exec_orFail, made]
  simp only [mapError_ok]
  rw [exec_bind, exec_cleaningUp, ran]
  have back : View.put (View.put s.tree.node? (b.place staging) (some (.file [] false)))
      (b.place staging) none = s.tree.node? := View.put_back fresh
  cases outcome : compiled b c a.kind flags source with
  | bitcode bytes =>
    simp only [outcome] at result ⊢
    obtain ⟨rfl, after⟩ := result
    refine ⟨_, _, rfl, rfl, ?_⟩
    show t.tree.node? = _
    rw [after, view, back]
  | failed =>
    simp only [outcome] at result ⊢
    obtain ⟨rfl, bytes, after⟩ := result
    refine ⟨_, _, rfl, rfl, ?_⟩
    exact discardStaging_run (by simp) fresh (by rw [after, view, View.put_put])
  | impossible =>
    simp only [outcome] at result ⊢
    obtain ⟨⟨e, rfl⟩, bytes, after⟩ := result
    refine ⟨_, _, rfl, ⟨_, rfl⟩, ?_⟩
    exact discardStaging_run (by simp) fresh (by rw [after, view, View.put_put])

end BugHunt.Proofs.Building
