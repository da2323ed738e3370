import BugHunt.Proofs.FanOut
import BugHunt.Proofs.Twins
/-!
Crews: programs that take their steps on one bench, each for what it claims. Whichever of them goes
on, each of them goes the way that it would go alone.
-/

namespace BugHunt.Proofs.Crews
open Trees Runs Bench Growth Mirroring Twins FanOut

/-- What a program claims and what it comes to alone. -/
structure Errand (α : Type) where
  claims : Claims
  alone : α × State

/-- A program at work on an errand: what is left of it and what is known of it. -/
structure Member (α : Type) extends Errand α where
  program : Program α
  notes : Notes

/-- Whether the result of a program follows from the result it comes to alone, as `Q` says. -/
abbrev Agreement (α : Type) := Notes → α → α → Prop

variable {α : Type} {b : Bench} {Q : Agreement α} {before : View} {s t : State}
  {m n : Member α} {ms ns others : List (Member α)}

/-- Whether a member goes the way that it would go alone: what would be left of it then goes on as
what is left of it does. -/
structure Follows (b : Bench) (Q : Agreement α) (m : Member α) (t : State) : Prop where
  orderly : Orderly b m.claims
  alone : ∃ p u, Grown u.tree.node? ∧ p.run b.host u = m.alone ∧
    Along b m.claims Q p m.program m.notes u ∧ Mirror b m.claims m.notes u t

/-- Whether a member has nothing to fear from another. -/
structure Beside (m n : Member α) : Prop where
  way : n.claims.way = m.claims.way
  apart : Apart m.claims n.claims
  names : ∀ x y, m.notes.scratch = some x → n.notes.scratch = some y → x.twin ≠ y.twin

/-- Whether members may write to a place, in some step. -/
def Reached (ms : List (Member α)) (q : Place) : Prop :=
  ∃ m ∈ ms, q ∈ m.claims.written ∨ q <+: m.claims.way

/-- Members at work on one bench. Where none of them may write, all is as it was before. -/
structure Crew (b : Bench) (Q : Agreement α) (before : View) (ms : List (Member α)) (t : State) :
    Prop where
  grown : Grown t.tree.node?
  follows : ∀ m ∈ ms, Follows b Q m t
  beside : ms.Pairwise fun m n => Beside m n ∧ Beside n m
  elsewhere : ∀ q, Plain b q → ¬ Reached ms q → t.tree.node? q = before q

theorem Crew.perm (crew : Crew b Q before ms t) (same : ms.Perm ns) : Crew b Q before ns t where
  grown := crew.grown
  follows m among := crew.follows m (same.mem_iff.mpr among)
  beside := (same.pairwise_iff fun h => ⟨h.2, h.1⟩).mp crew.beside
  elsewhere q plain unreached := crew.elsewhere q plain fun ⟨m, among, reaches⟩ =>
    unreached ⟨m, same.mem_iff.mp among, reaches⟩

theorem Mirror.of_tree {k : Claims} {g : Notes} {u : State} (mirror : Mirror b k g u s)
    (tree : t.tree = s.tree) (started : t.started = s.started) : Mirror b k g u t :=
  ⟨tree ▸ mirror.alike, started ▸ mirror.waiting⟩

/-- Requests that leave files and tools alone do not matter. -/
theorem Crew.of_tree (crew : Crew b Q before ms s) (tree : t.tree = s.tree)
    (started : t.started = s.started) : Crew b Q before ms t where
  grown := tree ▸ crew.grown
  follows m among := by
    obtain ⟨orderly, p, u, grown, runs, along, mirror⟩ := crew.follows m among
    exact ⟨orderly, p, u, grown, runs, along, Mirror.of_tree mirror tree started⟩
  beside := crew.beside
  elsewhere := tree ▸ crew.elsewhere

/-! ## One step -/

/-- What a mirrored state knows of the names of a temporary file. -/
theorem Mirror.drawable {k : Claims} {g : Notes} {u : State} (mirror : Mirror b k g u t) {x : Scratch}
    (known : g.scratch = some x) : Drawable b x.twin ∧ x.directory ∈ k.floors :=
  ⟨(mirror.alike.scratch x known).twin, (mirror.alike.scratch x known).level⟩

/-- What a step of a check changes lies where it may write. -/
theorem Step.elsewhere {k : Claims} {f g : Notes} {u u' : State} (step : Step k f g s t)
    (mirror : Mirror b k f u s) (mirrorToo : Mirror b k g u' t) {q : Place} (plain : Plain b q)
    (unwritten : q ∉ k.written) (aside : ¬ q <+: k.way) : t.tree.node? q = s.tree.node? q := by
  by_cases same : t.tree.node? q = s.tree.node? q
  · exact same
  · cases step.changed q same with
    | own claimed => exact absurd (Claims.own_mem claimed) unwritten
    | mark claimed _ => exact absurd (by simp [Claims.written, claimed]) unwritten
    | scratch x known below =>
      have drawable : Drawable b x.twin := by
        rcases known with old | new
        · exact (Mirror.drawable mirror old).1
        · exact (Mirror.drawable mirrorToo new).1
      exact absurd below (not_below (plain _ drawable))
    | way on _ _ => exact absurd on aside

/-- After a step of one member all of them still go their ways. -/
theorem Crew.step {r : Request} {next : r.Answer → Program α} (asks : m.program = .ask r next)
    (crew : Crew b Q before (m :: others) s) :
    ∃ notes, Crew b Q before ({ m with program := next (b.host r s).1, notes } :: others)
      (b.host r s).2 := by
  obtain ⟨orderly, p, u, grown, runs, along, mirror⟩ := crew.follows m List.mem_cons_self
  rw [asks] at along
  cases p with
  | done x =>
    obtain ⟨y, f, isDone, -⟩ := along
    cases isDone
  | ask r' next' =>
    obtain ⟨r'', next'', same, goes⟩ := along
    obtain ⟨rfl, rfl⟩ := Program.ask.inj same
    obtain ⟨f, after, step, rest⟩ := goes s crew.grown mirror
    have apart := List.pairwise_cons.mp crew.beside
    have names (n : Member α) (among : n ∈ others) :
        ∀ x y, n.notes.scratch = some x → f.scratch = some y → x.twin ≠ y.twin := by
      intro x y mine known
      obtain ⟨_, _, _, _, _, _, mirrored⟩ := crew.follows n (List.mem_cons_of_mem _ among)
      exact step.names mirrored mine (.inr known) fun y known => (apart.1 n among).2.names x y mine known
    refine ⟨f, host_grown crew.grown r, ?_, ?_, ?_⟩
    · intro n among
      rcases List.mem_cons.mp among with rfl | among
      · exact ⟨orderly, _, _, host_grown grown r', runs, rest, after⟩
      · obtain ⟨orderlyToo, p, u, grown, runs, along, mirrored⟩ :=
          crew.follows n (List.mem_cons_of_mem _ among)
        have beside := (apart.1 n among).2
        refine ⟨orderlyToo, p, u, grown, runs, along, mirrored.stable step orderlyToo orderly
          beside.way beside.apart ?_ beside.names⟩
        rintro y (old | new)
        · exact Mirror.drawable mirror old
        · exact Mirror.drawable after new
    · refine List.pairwise_cons.mpr ⟨fun n among => ?_, apart.2⟩
      obtain ⟨mine, theirs⟩ := apart.1 n among
      exact ⟨⟨mine.way, mine.apart, fun x y known knownToo => (names n among y x knownToo known).symm⟩,
        theirs.way, theirs.apart, names n among⟩
    · intro q plain unreached
      have same : Reached ({ m with program := next (b.host r s).1, notes := f } :: others) q ↔
          Reached (m :: others) q := by simp [Reached]
      rw [same] at unreached
      rw [← crew.elsewhere q plain unreached]
      exact Step.elsewhere step mirror after plain
        (fun written => unreached ⟨m, List.mem_cons_self, .inl written⟩)
        fun on => unreached ⟨m, List.mem_cons_self, .inr on⟩

/-- A member goes to its end while all others wait. -/
theorem Crew.finish (crew : Crew b Q before (m :: others) s) :
    ∃ notes, Crew b Q before ({ m with program := .done (m.program.run b.host s).1, notes } :: others)
      (m.program.run b.host s).2 := by
  obtain ⟨errand, program, notes⟩ := m
  induction program generalizing notes s with
  | done x => exact ⟨notes, crew⟩
  | ask r next ih =>
    obtain ⟨f, after⟩ := crew.step rfl
    exact ih _ f after

/-! ## Members that are done -/

/-- A member that is done has come to what it comes to alone, and has left what it would have
left. -/
theorem Follows.ended (follows : Follows b Q m t) {y : α} (isDone : m.program = .done y) :
    (∃ f, Q f m.alone.1 y) ∧ Mirror b m.claims m.notes m.alone.2 t := by
  obtain ⟨-, p, u, -, runs, along, mirror⟩ := follows
  rw [isDone] at along
  cases p with
  | ask r next =>
    obtain ⟨r', next', isAsk, -⟩ := along
    cases isAsk
  | done x =>
    obtain ⟨y', f, same, less, holds⟩ := along
    obtain rfl := Program.done.inj same
    rw [← runs]
    exact ⟨⟨f, holds⟩, mirror⟩

/-! ## One after another -/

/-- Members at the beginning of their programs, each by itself. -/
theorem Crew.mapM {job : β → Program α} (items : List β) {pending : List (Member α)}
    (programs : pending.map Member.program = items.map job)
    (crew : Crew b Q before (pending ++ others) s) :
    ∃ finished, finished.map Member.toErrand = pending.map Member.toErrand ∧
      finished.map Member.program = ((items.mapM job).run b.host s).1.map .done ∧
      Crew b Q before (finished ++ others) ((items.mapM job).run b.host s).2 := by
  induction items generalizing pending others s with
  | nil =>
    obtain rfl := List.map_eq_nil_iff.mp programs
    exact ⟨[], rfl, rfl, crew⟩
  | cons item items ih =>
    obtain ⟨m, rest, rfl, first, later⟩ := List.map_eq_cons_iff.mp programs
    obtain ⟨notes, ended⟩ := crew.finish
    rw [first] at ended
    have moved := ended.perm (@List.perm_middle _ _ rest others).symm
    obtain ⟨finished, errands, results, after⟩ := ih later moved
    have split : ((item :: items).mapM job).run b.host s =
        (((job item).run b.host s).1 :: ((items.mapM job).run b.host ((job item).run b.host s).2).1,
          ((items.mapM job).run b.host ((job item).run b.host s).2).2) := by
      rw [List.mapM_cons]
      refine (Program.run_bind ..).trans ?_
      exact (Program.run_bind ..).trans rfl
    rw [split]
    refine ⟨{ m with program := .done ((job item).run b.host s).1, notes } :: finished, ?_, ?_,
      after.perm List.perm_middle⟩
    · rw [List.map_cons, List.map_cons, errands]
    · rw [List.map_cons, List.map_cons, results]

/-! ## A pool -/

section Pools

variable {pool : Pool α} {supply : Supply} {running : List (Program α)} {results parts : List α}
  {spare pending active finished : List (Member α)}

/-- A pool in the middle of its work: members that it will not hand out, those that it still has to
hand out, those at work and those that are done. -/
structure Staffed (b : Bench) (Q : Agreement α) (before : View) (pool : Pool α) (supply : Supply)
    (running : List (Program α)) (results : List α)
    (spare pending active finished : List (Member α)) (t : State) : Prop where
  roots : supply.roots = []
  jobs : pending.map Member.program = supply.ready.map pool.job
  running : active.map Member.program = running
  results : finished.map Member.program = results.map .done
  crew : Crew b Q before (spare ++ (pending ++ (active ++ finished))) t

/-- What has become of the members in the end. All that were to be handed out have been, unless a
result stopped the pool. -/
structure Dismissed (b : Bench) (Q : Agreement α) (before : View) (pool : Pool α) (results : List α)
    (spare members : List (Member α)) (parts : List α) (t : State) : Prop where
  results : results <+: parts
  members : ∃ left done, done.map Member.program = parts.map .done ∧
    ((left ++ done).map Member.toErrand).Perm ((spare ++ members).map Member.toErrand) ∧
    Crew b Q before (left ++ done) t ∧
    (0 < pool.workers → (∀ part ∈ parts, pool.stops part = false) → left = spare)

/-- Members that go on are the same members. -/
theorem Dismissed.congr {results' : List α} {ms ns : List (Member α)}
    (dismissed : Dismissed b Q before pool results' spare ms parts t) (more : results <+: results')
    (errands : (ms.map Member.toErrand).Perm (ns.map Member.toErrand)) :
    Dismissed b Q before pool results spare ns parts t := by
  obtain ⟨results, left, done, programs, members, crew, all⟩ := dismissed
  refine ⟨more.trans results, left, done, programs, members.trans ?_, crew, all⟩
  rw [List.map_append, List.map_append]
  exact errands.append_left _

/-- The member whose program has its turn. -/
theorem exists_member {i : Nat} {p : Program α} (found : (active.map Member.program)[i]? = some p) :
    ∃ ahead m behind, active = ahead ++ m :: behind ∧ m.program = p ∧
      (active.map Member.program).eraseIdx i = (ahead ++ behind).map Member.program ∧
      ∀ n : Member α, (active.map Member.program).set i n.program =
        (ahead ++ n :: behind).map Member.program := by
  obtain ⟨front, back, around, without, replaced⟩ := exists_around found
  obtain ⟨ahead, here, rfl, rfl, isHere⟩ := List.map_eq_append_iff.mp around
  obtain ⟨m, behind, rfl, isProgram, rfl⟩ := List.map_eq_cons_iff.mp isHere
  refine ⟨ahead, m, behind, rfl, isProgram, by rw [without, List.map_append], fun n => ?_⟩
  rw [replaced, List.map_append, List.map_cons]

/-- Members that a pool will not hand out any more, since a result has stopped it. -/
theorem Dismissed.stopped {result : α} {ms : List (Member α)}
    (dismissed : Dismissed b Q before pool (results ++ [result]) (spare ++ pending) ms parts t)
    (stops : pool.stops result) : Dismissed b Q before pool results spare (pending ++ ms) parts t := by
  obtain ⟨results, left, done, programs, members, crew, -⟩ := dismissed
  refine ⟨(List.prefix_append _ _).trans results, left, done, programs, by simpa using members, crew, ?_⟩
  intro _ calm
  have among : result ∈ parts := results.subset (by simp)
  rw [calm result among] at stops
  cases stops

theorem Staffed.run (staffed : Staffed b Q before pool supply running results spare pending active
    finished s) : ∃ parts t, (pool.run supply running results).run b.host s = (parts, t) ∧
      Dismissed b Q before pool results spare (pending ++ (active ++ finished)) parts t := by
  induction supply, running, results using Pool.run.induct pool
    generalizing spare pending active finished s with
  | case1 running results a ready roots room refused handed =>
    obtain ⟨noRoots, programs, rfl, isDone, crew⟩ := staffed
    obtain ⟨m, later, rfl, isJob, jobs⟩ := List.map_eq_cons_iff.mp programs
    have moved : (later ++ (active ++ [m] ++ finished)).Perm (m :: later ++ (active ++ finished)) := by
      simpa using @List.perm_middle _ m (later ++ active) finished
    obtain ⟨parts, t, ran, dismissed⟩ := handed ⟨noRoots, jobs, by simp [isJob], isDone,
      crew.perm (moved.symm.append_left spare)⟩
    refine ⟨parts, t, ?_, dismissed.congr (List.prefix_refl _) (moved.map _)⟩
    rw [Pool.run.eq_def, if_pos room]
    exact ran
  | case2 running results root roots room searched => cases staffed.roots
  | case3 running results room => simp [Supply.isEmpty] at room
  | case4 supply running results full none =>
    obtain ⟨roots, programs, rfl, isDone, crew⟩ := staffed
    obtain rfl : active = [] := by simpa using none
    refine ⟨results, s, ?_, List.prefix_refl _, spare ++ pending, finished, isDone, ?_, ?_, ?_⟩
    · rw [Pool.run.eq_def, if_neg full, dif_pos none]
      rfl
    · simp
    · simpa using crew
    · intro workers _
      have empty : supply.isEmpty := by
        by_cases empty : supply.isEmpty
        · exact empty
        · exact absurd ⟨workers, by simpa using empty⟩ full
      have noMore : supply.ready = [] := by
        simp only [Supply.isEmpty, Bool.and_eq_true, List.isEmpty_iff] at empty
        exact empty.1
      obtain rfl : pending = [] := by simpa [noMore] using programs
      exact List.append_nil _
  | case5 supply running results full some ended stepped =>
    obtain ⟨roots, programs, rfl, isDone, crew⟩ := staffed
    have crew := crew.of_tree (t := { s with turns := s.turns + 1 }) rfl rfl
    rw [Pool.run.eq_def, if_neg full, dif_neg some]
    simp only [Program.run, host]
    split
    · rename_i result taken
      obtain ⟨ahead, m, behind, rfl, isDoneToo, left, -⟩ :=
        exists_member (List.getElem?_eq_some_iff.mpr ⟨_, taken⟩)
      have moved : (ahead ++ behind ++ (finished ++ [m])).Perm (ahead ++ m :: behind ++ finished) := by
        refine ((List.perm_append_singleton m finished).append_left _).trans ?_
        simpa using (@List.perm_middle _ m behind finished).append_left ahead
      have results : (finished ++ [m]).map Member.program = (results ++ [result]).map .done := by
        simp [isDone, isDoneToo]
      have crew := crew.perm ((moved.symm.append_left pending).append_left spare)
      have later := @ended (b.turn s.turns) result
      by_cases stops : pool.stops result
      · simp only [stops, if_true, dif_pos] at later ⊢
        obtain ⟨parts, t, ran, dismissed⟩ := @later _ (spare ++ pending) [] _ _
          ⟨rfl, rfl, left.symm, results, by simpa using crew⟩
        exact ⟨parts, t, ran, (dismissed.stopped stops).congr (List.prefix_refl _)
          ((moved.append_left pending).map _)⟩
      · simp only [stops, Bool.false_eq_true, if_false, dif_neg, not_false_eq_true] at later ⊢
        obtain ⟨parts, t, ran, dismissed⟩ := later ⟨roots, programs, left.symm, results, crew⟩
        exact ⟨parts, t, ran, dismissed.congr (List.prefix_append _ _) ((moved.append_left pending).map _)⟩
    · rename_i request next taken
      obtain ⟨ahead, m, behind, rfl, asks, -, goesOn⟩ :=
        exists_member (List.getElem?_eq_some_iff.mpr ⟨_, taken⟩)
      have first (m : Member α) : (m :: (spare ++ (pending ++ (ahead ++ behind ++ finished)))).Perm
          (spare ++ (pending ++ (ahead ++ m :: behind ++ finished))) := by
        simpa using (@List.perm_middle _ m (spare ++ (pending ++ ahead)) (behind ++ finished)).symm
      obtain ⟨notes, after⟩ := (crew.perm (first m).symm).step asks
      obtain ⟨parts, t, ran, dismissed⟩ := stepped _ request next taken _
        ⟨roots, programs, (goesOn _).symm, isDone, after.perm (first _)⟩
      exact ⟨parts, t, ran, dismissed.congr (List.prefix_refl _) (by simp)⟩

end Pools

end BugHunt.Proofs.Crews
