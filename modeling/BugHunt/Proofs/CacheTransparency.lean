import BugHunt.Proofs.Tallying
/-!
A history of calls and edits on one cache. However it goes, markers name the verdict that goes with
their key, and a call that succeeds counts what it would count on an empty cache.
-/

namespace BugHunt.Proofs.CacheTransparency
open Trees Texts Names Places Runs Bench Growth Outcomes Judging Caching Keeping Tallying

variable {b : Bench} {c : Config} {s : State} {told : String → Option Classification}

/-- The calls that use the cache. -/
inductive Call where
  | variants (a : Artifact)
  | program (path : Path)
  | reset

namespace Call

/-- The program that a call checks. -/
def artifact? : Call → Option Artifact
  | variants a => some a
  | program path => Artifact.ofPath? path
  | reset => none

/-- A call from a state. A reset counts nothing. -/
def run (b : Bench) (c : Config) (s : State) : Call → Except PipelineError Summary × State
  | variants a => exec b.host s (Check.variants c (cacheOf c) a)
  | program path => exec b.host s (Check.program c path)
  | reset => exec b.host s do
    (cacheOf c).reset.adapt PipelineError.cache
    return .zero

/-- The keys of the variants that a call checks. -/
def keys (b : Bench) (c : Config) (s : State) (call : Call) : List String :=
  (call.artifact?.map (keysOf b c s)).getD []

end Call

/-- Whether what a call finds out about its variants follows from their keys, as is told. -/
def Follows (b : Bench) (c : Config) (told : String → Option Classification) (s : State)
    (call : Call) : Prop :=
  ∀ a, call.artifact? = some a → ∀ source, b.readAt s a.path = .ok source → Tells b c told a source

/-- The states that a history leads to which starts with an empty cache. Between calls all files
may change but those that a check looks for in the cache. The states between two variants of a call
belong to the history, and so do those after calls that fail. -/
inductive Reached (b : Bench) (c : Config) (told : String → Option Classification) : State → Prop
  | start {s : State} (blank : Blank b c s.tree.node?) (grown : Grown s.tree.node?) : Reached b c told s
  | edit {s t : State} (before : Reached b c told s)
      (spared : ∀ q, Slot b c q → t.tree.node? q = s.tree.node? q) (grown : Grown t.tree.node?) :
      Reached b c told t
  | variant {s : State} (before : Reached b c told s) (a : Artifact) {source : Bytes}
      (isRead : b.readAt s a.path = .ok source) (flags : List String)
      (tells : told (planOf c a source flags).key = reached b c a flags source) (sum : Summary) :
      Reached b c told (exec b.host s (Check.variant c (cacheOf c) a flags sum)).2
  | call {s : State} (before : Reached b c told s) (call : Call) (follows : Follows b c told s call) :
      Reached b c told (call.run b c s).2

/-- A configuration that a history goes well with. -/
structure Settled (b : Bench) (c : Config) : Prop extends Grounds b c where
  plain : ∀ name ∈ b.place c.cacheRoot, ¬ utf8 ".scratch" <:+ name

theorem call_held (settled : Settled b c) (sound : Sound b c told s.tree.node?)
    (grown : Grown s.tree.node?) {call : Call} (follows : Follows b c told s call) :
    Sound b c told (call.run b c s).2.tree.node? ∧ Grown (call.run b c s).2.tree.node? ∧
      Tallied told (call.keys b c s) .zero (call.run b c s).1 := by
  cases call with
  | variants a =>
    obtain ⟨r, t, ran, held, tallied⟩ := variants_held settled.toGrounds sound
      (.inr settled.plain) grown (follows a rfl)
    simp only [Call.run, ran]
    exact ⟨held.sound, exec_grown grown ran, tallied⟩
  | program path =>
    cases isProgram : Artifact.ofPath? path with
    | none =>
      have ran : exec b.host s (Check.program c path) = (.error (.notAProgram path), s) := by
        rw [program_of_none isProgram]
        rfl
      simp only [Call.run, ran]
      exact ⟨sound, grown, .error _⟩
    | some a =>
      obtain ⟨r, t, ran, soundThen, -, tallied⟩ := program_held settled.toGrounds isProgram sound
        grown (follows a isProgram)
      simp only [Call.run, ran, Call.keys, Call.artifact?, isProgram]
      exact ⟨soundThen, exec_grown grown ran, tallied⟩
  | reset =>
    obtain ⟨r, t, ran, leaves⟩ := @reset_spec b c s
    have soundThen : Sound b c told t.tree.node? := by
      rcases leaves with rfl | blank
      · exact sound
      · exact blank.sound
    have grownThen := exec_grown grown ran
    simp only [Call.run]
    rw [exec_bind, exec_adapt, ran]
    cases r with
    | error e => exact ⟨soundThen, grownThen, .error _⟩
    | ok value =>
      refine ⟨soundThen, grownThen, fun sum same => ⟨[], rfl, ?_⟩⟩
      obtain rfl := Except.ok.inj same
      rfl

/-- The cache is true wherever a history leads. -/
theorem reached_sound (settled : Settled b c) (history : Reached b c told s) :
    Sound b c told s.tree.node? ∧ Grown s.tree.node? := by
  induction history with
  | start blank grown => exact ⟨blank.sound, grown⟩
  | edit before spared grown ih => exact ⟨ih.1.of_slots fun q slot => .inl (spared q slot), grown⟩
  | variant before a isRead flags tells sum ih =>
    obtain ⟨r, t, ran, held, -⟩ := variant_held settled.toGrounds ih.1 (.inr settled.plain) ih.2
      isRead tells sum
    rw [ran]
    exact ⟨held.sound, exec_grown ih.2 ran⟩
  | call before call follows ih =>
    obtain ⟨sound, grown, -⟩ := call_held settled ih.1 ih.2 follows
    exact ⟨sound, grown⟩

theorem keys_congr {u : State} {call : Call}
    (same : ∀ a, call.artifact? = some a → b.readAt u a.path = b.readAt s a.path) :
    call.keys b c u = call.keys b c s := by
  unfold Call.keys
  cases isProgram : call.artifact? with
  | none => rfl
  | some a => simp only [Option.map_some, Option.getD_some, keysOf, same a isProgram]

/-- Wherever a history leads, markers stand for the verdict that is told of their key, a call that
succeeds counts the verdicts that are told, which are those that it counts on an empty cache, and
a variant whose key has a marker is answered without starting anything. -/
theorem history_transparent (settled : Settled b c) (history : Reached b c told s) :
    (∀ key ending verdict, Stem (utf8 key) → Cache.markerEnding? verdict = some ending →
      s.tree.node? (markerPlace b c key ending) ≠ none → told key = some verdict) ∧
    (∀ call, Follows b c told s call → ∀ sum, (call.run b c s).1 = .ok sum →
      (∃ verdicts : List Classification, (call.keys b c s).map told = verdicts.map some ∧
        counts sum = counts (verdicts.foldl Summary.record .zero)) ∧
      ∀ u, Blank b c u.tree.node? → Grown u.tree.node? →
        (∀ a, call.artifact? = some a → b.readAt u a.path = b.readAt s a.path) →
        ∀ alone, (call.run b c u).1 = .ok alone → counts sum = counts alone) ∧
    (∀ a source flags ending verdict, b.readAt s a.path = .ok source →
      Cache.markerEnding? verdict = some ending →
      s.tree.node? (markerPlace b c (planOf c a source flags).key ending) ≠ none →
      ∀ sum, exec b.host s (Check.variant c (cacheOf c) a flags sum) =
        (.ok (sum.withCacheHit.record verdict), s)) := by
  obtain ⟨sound, grown⟩ := reached_sound settled history
  refine ⟨fun key ending verdict => sound.marker, ?_, ?_⟩
  · intro call follows sum isOk
    obtain ⟨-, -, tallied⟩ := call_held settled sound grown follows
    refine ⟨tallied sum isOk, fun u blank grownThere same alone isOkAlone => ?_⟩
    have followsThere : Follows b c told u call := by
      intro a isProgram source isRead
      exact follows a isProgram source (same a isProgram ▸ isRead)
    obtain ⟨-, -, talliedThere⟩ := call_held settled blank.sound grownThere followsThere
    rw [keys_congr same] at talliedThere
    exact tallied.unique talliedThere isOk isOkAlone
  · intro a source flags ending verdict isRead ends there sum
    obtain ⟨answer, another, answerEnds, marker, ran⟩ := variant_hit isRead ends there sum
    have stem : Stem (utf8 (planOf c a source flags).key) := Building.key_stem ..
    have same : some answer = some verdict :=
      (sound.marker stem answerEnds marker).symm.trans (sound.marker stem ends there)
    rw [← Option.some.inj same]
    exact ran

/-! ## Two programs on one cache -/

/-- Tools of which the C compiler makes bitcode that the analysis crashes on, and no other makes
anything. -/
def halfTools : Toolbox where
  starts _ _ := true
  streams _ := ([], [])
  compile program _ _ :=
    if program = ⟨utf8 "clang"⟩ then ⟨.ended (.exited 0), some bitcodeMagic⟩
    else ⟨.ended (.exited 1), none⟩
  convert _ _ := ⟨.ended (.exited 1), none⟩
  facts _ _ _ := ⟨.ended (.exited 0), []⟩
  analyse _ _ _ := ⟨.ended (.exited 1), []⟩
  minimizeIr _ _ := (.exited 1, none)
  minimizeSource _ _ := (.exited 1, none)

def cProgram : Path := "/w/prog.c"
def cxxProgram : Artifact := ⟨"/w/interesting-prog.cpp", .cxxSource, by decide +kernel⟩

/-- An empty program in C and one in C++. -/
def twoPrograms : State where
  tree := ⟨[([utf8 "w"], .directory), ([utf8 "tmp"], .directory),
    ([utf8 "w", utf8 "prog.c"], .file [] false),
    ([utf8 "w", utf8 "interesting-prog.cpp"], .file [] false)]⟩
  started := []
  turns := 0

def outside : Config := { VariantKeys.plain with cacheRoot := "/w/cache", outputRoot := "/w/out" }

/-- With this configuration interesting variants are kept where compiled IR is looked for. -/
def inside : Config := { VariantKeys.plain with cacheRoot := "/w/cache", outputRoot := "/w/cache/ir" }

def halfTold (key : String) : Option Classification :=
  some (if key = (planOf outside ⟨cProgram, .cSource, by decide +kernel⟩ [] ["-O0"]).key then
    .interesting else .uncompilable)

theorem outside_settled : Settled (desk halfTools) outside where
  home := by decide
  absolute := by decide
  assertions := by
    intro relation among
    obtain rfl := List.mem_singleton.mp among
    exact ⟨by decide, by decide, by decide, by decide⟩
  output := by decide
  plain := by decide

theorem twoPrograms_grown : Grown twoPrograms.tree.node? := grown_of_nodes (by decide)

theorem twoPrograms_blank : Blank (desk halfTools) outside twoPrograms.tree.node? :=
  blank_of_nodes (by decide)

theorem follows_of_content {a : Artifact} {source : Bytes} (named : endsIdle a.path = false)
    (there : content s.tree (b.place a.path) = some source) (tells : Tells b c told a source) :
    Follows b c told s (.program a.path) := by
  intro other same found readNow
  obtain rfl := Option.some.inj ((ofPath?_path a).symm.trans same)
  obtain rfl := Except.ok.inj ((readAt_of_content named there).symm.trans readNow)
  exact tells

/-- The history of one call for the C++ program, which does not compile. -/
def afterCxx : State := ((Call.program cxxProgram.path).run (desk halfTools) outside twoPrograms).2

theorem afterCxx_reached : Reached (desk halfTools) outside halfTold afterCxx :=
  .call (.start twoPrograms_blank twoPrograms_grown) _
    (@follows_of_content _ _ _ _ cxxProgram [] (by decide) (by decide)
      (by unfold Tells; decide +kernel))

theorem cxx_answered_from_marker :
    Settled (desk halfTools) outside ∧ Reached (desk halfTools) outside halfTold afterCxx ∧
      ∀ sum, exec (desk halfTools).host afterCxx
          (Check.variant outside (cacheOf outside) cxxProgram ["-O0"] sum) =
        (.ok (sum.withCacheHit.record .uncompilable), afterCxx) :=
  ⟨outside_settled, afterCxx_reached,
    (history_transparent outside_settled afterCxx_reached).2.2 cxxProgram [] ["-O0"] "nocompile"
      .uncompilable (readAt_of_content (by decide) (by decide +kernel)) rfl
      (by decide +kernel)⟩

def afterC : State := ((Call.program cProgram).run (desk halfTools) inside twoPrograms).2

/-- Where what is kept of interesting programs lies in the cache, the C++ program is taken for one
that compiles: what is kept of the C program has the name that its own IR would have. -/
theorem kept_variant_answers :
    ¬ ∀ (b : Bench) (c : Config) (told : String → Option Classification) (s u : State) (call : Call)
        (sum alone : Summary), Reached b c told s → Follows b c told s call → Blank b c u.tree.node? →
        Grown u.tree.node? →
        (∀ a, call.artifact? = some a → b.readAt u a.path = b.readAt s a.path) →
        (call.run b c s).1 = .ok sum → (call.run b c u).1 = .ok alone →
        counts sum = counts alone := by
  intro transparent
  have blank : Blank (desk halfTools) inside twoPrograms.tree.node? := blank_of_nodes (by decide)
  have history : Reached (desk halfTools) inside halfTold afterC :=
    .call (.start blank twoPrograms_grown) _
      (@follows_of_content _ _ _ _ ⟨cProgram, .cSource, by decide +kernel⟩ [] (by decide)
        (by decide) (by unfold Tells; decide +kernel))
  have readThen : (desk halfTools).readAt afterC cxxProgram.path = .ok [] :=
    readAt_of_content (by decide) (by decide +kernel)
  have readBefore : (desk halfTools).readAt twoPrograms cxxProgram.path = .ok [] :=
    readAt_of_content (by decide) (by decide)
  have same := transparent (desk halfTools) inside halfTold afterC twoPrograms
    (.program cxxProgram.path) ⟨1, 0, 0, 0, 1⟩ ⟨0, 0, 1, 0, 0⟩ history
    (@follows_of_content _ _ _ _ cxxProgram [] (by decide) (by decide +kernel)
      (by unfold Tells; decide +kernel))
    blank twoPrograms_grown
    (by
      intro a isProgram
      obtain rfl := Option.some.inj ((ofPath?_path cxxProgram).symm.trans isProgram)
      rw [readThen, readBefore])
    (ok_of_toOption (by decide +kernel)) (ok_of_toOption (by decide +kernel))
  exact absurd same (by decide)

end BugHunt.Proofs.CacheTransparency
