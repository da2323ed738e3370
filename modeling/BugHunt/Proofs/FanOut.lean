import BugHunt.Pipeline.Scan
import BugHunt.Proofs.Courses
import BugHunt.Proofs.Stages
/-!
How the doings of a pool divide into its own and those of its jobs. Every artifact that is handed
out gets a whole course of its job, and the results of the pool are the results of these courses.
-/

namespace BugHunt.Proofs.FanOut
open Courses Asking Stages

/-- What a pool asks on its own account. -/
def Directing : Request → Prop
  | .isCancelled | .search _ | .choose _ => True
  | .log line => line.level = .warn
  | _ => False

/-- The searches, each with what was found. -/
def searches (xs : List Exchange) : List (Path × List Found) :=
  xs.filterMap fun
    | ⟨.search root, found⟩ => some (root, found)
    | _ => none

/-- The programs that were found by searching. -/
def sought (xs : List Exchange) : List Artifact :=
  (searches xs).flatMap fun search => search.2.filterMap Found.artifact?

/-- That an interrupt was told. -/
def interrupt : Exchange := ⟨.isCancelled, true⟩

variable {α : Type} {pool : Pool α} {supply : Supply} {running front back : List (Program α)}
  {results value : List α} {xs : List Exchange}

/-! ## What a pool may do next -/

/-- `Fanned pool supply running results xs value`: the pool, with the jobs that are running and the
results so far, exchanges `xs` and comes to the results `value`. -/
inductive Fanned (pool : Pool α) :
    Supply → List (Program α) → List α → List Exchange → List α → Prop
  | spent {supply : Supply} {results : List α} (idle : supply.isEmpty ∨ pool.workers = 0) :
    Fanned pool supply [] results [] results
  | refused {a : Artifact} {ready : List Artifact} {roots : List Path}
      {running : List (Program α)} {results value : List α} {xs : List Exchange}
      (rest : Fanned pool .none running results xs value) :
    Fanned pool ⟨a :: ready, roots⟩ running results (interrupt :: xs) value
  | handed {a : Artifact} {ready : List Artifact} {roots : List Path}
      {running : List (Program α)} {results value : List α} {xs : List Exchange}
      (rest : Fanned pool ⟨ready, roots⟩ (running ++ [pool.job a]) results xs value) :
    Fanned pool ⟨a :: ready, roots⟩ running results (⟨.isCancelled, false⟩ :: xs) value
  | searched {root : Path} {roots : List Path} {found : List Found}
      {running : List (Program α)} {results value : List α} {ys xs : List Exchange}
      (complained : Course (Pool.complain found) ys ())
      (rest : Fanned pool ⟨found.filterMap Found.artifact?, roots⟩ running results xs value) :
    Fanned pool ⟨[], root :: roots⟩ running results (⟨.search root, found⟩ :: (ys ++ xs)) value
  | ended {supply : Supply} {front back : List (Program α)} {result : α}
      {results value : List α} {xs : List Exchange} (among turn : Nat)
      (rest : Fanned pool (if pool.stops result then .none else supply) (front ++ back)
        (results ++ [result]) xs value) :
    Fanned pool supply (front ++ .done result :: back) results (⟨.choose among, turn⟩ :: xs) value
  | stepped {supply : Supply} {front back : List (Program α)} {request : Request}
      {next : request.Answer → Program α} {results value : List α} {xs : List Exchange}
      (among turn : Nat) (answer : request.Answer)
      (rest : Fanned pool supply (front ++ next answer :: back) results xs value) :
    Fanned pool supply (front ++ .ask request next :: back) results
      (⟨.choose among, turn⟩ :: ⟨request, answer⟩ :: xs) value

/-- A job that is running stands between others. -/
theorem exists_around {i : Nat} {p : Program α} (found : running[i]? = some p) :
    ∃ front back, running = front ++ p :: back ∧ running.eraseIdx i = front ++ back ∧
      ∀ q, running.set i q = front ++ q :: back := by
  obtain ⟨inRange, rfl⟩ := List.getElem?_eq_some_iff.mp found
  refine ⟨running.take i, running.drop (i + 1), ?_, List.eraseIdx_eq_take_drop_succ .., ?_⟩
  · simp
  · intro q
    exact List.set_eq_take_append_cons_drop.trans (if_pos inRange)

theorem fanned_of_course (course : Course (pool.run supply running results) xs value) :
    Fanned pool supply running results xs value := by
  induction supply, running, results using Pool.run.induct pool generalizing xs value with
  | case1 running results a ready roots room refused handed =>
    rw [Pool.run.eq_def, if_pos room] at course
    cases course with
    | ask cancelled rest =>
      cases cancelled with
      | true => exact .refused (refused rest)
      | false => exact .handed (handed rest)
  | case2 running results root roots room searched =>
    rw [Pool.run.eq_def, if_pos room] at course
    cases course with
    | ask found rest =>
      obtain ⟨ys, zs, told, rfl, complained, rest⟩ := Course.split rest
      exact .searched complained (searched found rest)
  | case3 running results room => simp [Supply.isEmpty] at room
  | case4 supply running results full none =>
    obtain rfl := List.eq_nil_of_length_eq_zero none
    rw [Pool.run.eq_def, if_neg full, dif_pos none] at course
    obtain ⟨rfl, rfl⟩ := course_done course
    refine .spent ?_
    by_cases idle : supply.isEmpty
    · exact .inl idle
    · exact .inr (by simpa [idle] using full)
  | case5 supply running results full some ended stepped =>
    rw [Pool.run.eq_def, if_neg full, dif_neg some] at course
    cases course with
    | ask turn rest =>
      dsimp only at rest
      split at rest
      · rename_i result taken
        have found := List.getElem?_eq_some_iff.mpr ⟨_, taken⟩
        obtain ⟨front, back, around, without, -⟩ := exists_around found
        have later := ended turn result rest
        rw [without] at later
        rw [around]
        exact .ended _ turn later
      · rename_i request next taken
        cases rest with
        | ask answer rest =>
          have found := List.getElem?_eq_some_iff.mpr ⟨_, taken⟩
          obtain ⟨front, back, around, -, replaced⟩ := exists_around found
          have later := stepped turn request next taken answer rest
          rw [replaced] at later
          rw [around]
          exact .stepped _ turn answer later

/-! ## What becomes of the jobs -/

/-- What is left of a job that is running, to its end. -/
structure Going (α : Type) where
  program : Program α
  exchanges : List Exchange
  result : α
  whole : Course program exchanges result

/-- A job of a pool from its beginning to its end. -/
structure Stint (pool : Pool α) where
  artifact : Artifact
  exchanges : List Exchange
  result : α
  whole : Course (pool.job artifact) exchanges result

/-- How exchanges divide into those of the pool itself, those of the jobs that are running already
and those of the jobs on the artifacts that are handed out. -/
structure Divided (pool : Pool α) (results : List α) (xs : List Exchange) (value : List α)
    (own : List Exchange) (goings : List (Going α)) (stints : List (Stint pool)) : Prop where
  directing : ∀ x ∈ own, Directing x.request
  order : own.Sublist xs
  exchanges : xs.Perm (own ++ (goings.map Going.exchanges).flatten ++
    (stints.map Stint.exchanges).flatten)
  value : value.Perm (results ++ goings.map Going.result ++ stints.map Stint.result)

/-- Which artifacts are handed out: the first of the supply, and all of it unless an interrupt is
told or a result stops the pool. -/
structure Handed (pool : Pool α) (supply : Supply) (value : List α) (own : List Exchange)
    (artifacts : List Artifact) : Prop where
  roots : (searches own).map Prod.fst <+: supply.roots
  first : artifacts <+: supply.ready ++ sought own
  all : 0 < pool.workers → interrupt ∉ own → (∀ result ∈ value, pool.stops result = false) →
    (searches own).map Prod.fst = supply.roots ∧ artifacts = supply.ready ++ sought own

variable {own : List Exchange} {goings : List (Going α)} {stints : List (Stint pool)}
  {artifacts : List Artifact}

theorem Divided.directed (divided : Divided pool results xs value own goings stints)
    (ys : List Exchange) (directing : ∀ y ∈ ys, Directing y.request) :
    Divided pool results (ys ++ xs) value (ys ++ own) goings stints where
  directing x among := (List.mem_append.mp among).elim (directing x) (divided.directing x)
  order := divided.order.append_left ys
  exchanges := by simpa [List.append_assoc] using divided.exchanges.append_left ys
  value := divided.value

/-- A job that is handed out is running from then on. -/
theorem Divided.begun {a : Artifact} {last : Going α} (begins : last.program = pool.job a)
    (divided : Divided pool results xs value own (goings ++ [last]) stints) :
    Divided pool results xs value own goings
      (⟨a, last.exchanges, last.result, begins ▸ last.whole⟩ :: stints) where
  directing := divided.directing
  order := divided.order
  exchanges := by simpa [List.append_assoc] using divided.exchanges
  value := by simpa [List.append_assoc] using divided.value

theorem Divided.ended {before after : List (Going α)} {result : α}
    (divided : Divided pool (results ++ [result]) xs value own (before ++ after) stints) :
    Divided pool results xs value own (before ++ ⟨.done result, [], result, .done result⟩ :: after)
      stints where
  directing := divided.directing
  order := divided.order
  exchanges := by simpa [List.append_assoc] using divided.exchanges
  value := by
    refine divided.value.trans ?_
    simpa [List.append_assoc] using List.perm_middle.symm.append_left results

/-- A job that takes a step goes on. -/
theorem Divided.stepped {before after : List (Going α)} {going : Going α} {request : Request}
    {next : request.Answer → Program α} {answer : request.Answer}
    (goesOn : going.program = next answer)
    (divided : Divided pool results xs value own (before ++ going :: after) stints) :
    Divided pool results (⟨request, answer⟩ :: xs) value own
      (before ++ ⟨.ask request next, ⟨request, answer⟩ :: going.exchanges, going.result,
        .ask answer (goesOn ▸ going.whole)⟩ :: after) stints where
  directing := divided.directing
  order := divided.order.cons _
  exchanges := by
    have whole : xs.Perm ((own ++ (before.map Going.exchanges).flatten) ++ (going.exchanges ++
        (after.map Going.exchanges).flatten ++ (stints.map Stint.exchanges).flatten)) := by
      simpa [List.append_assoc] using divided.exchanges
    simpa [List.append_assoc] using (whole.cons _).trans List.perm_middle.symm
  value := by simpa using divided.value

/-! ## What is handed out -/

/-- Whether a request is a warning. -/
def Warning : Request → Prop
  | .log line => line.level = .warn
  | _ => False

theorem asks_complain (found : List Found) : Asks Warning (Pool.complain found) := by
  unfold Pool.complain
  induction found.filterMap Found.complaint? with
  | nil => trivial
  | cons complaint rest ih => exact .bind (asks_request rfl) fun _ => ih

theorem directing_of_warning {r : Request} (warning : Warning r) : Directing r := by
  cases r with
  | log line => exact warning
  | _ => exact warning.elim

theorem searches_append (xs ys : List Exchange) : searches (xs ++ ys) = searches xs ++ searches ys :=
  List.filterMap_append

theorem searches_eq_nil (none : ∀ x ∈ xs, ∀ root, x.request ≠ .search root) : searches xs = [] := by
  refine List.filterMap_eq_nil_iff.mpr fun x among => ?_
  obtain ⟨request, answer⟩ := x
  cases request with
  | search root => exact absurd rfl (none _ among root)
  | _ => rfl

theorem Handed.none (handed : Handed pool .none value own artifacts) :
    searches own = [] ∧ artifacts = [] := by
  have silent : searches own = [] := List.map_eq_nil_iff.mp (List.prefix_nil.mp handed.roots)
  refine ⟨silent, ?_⟩
  have first := handed.first
  rw [sought, silent] at first
  exact List.prefix_nil.mp first

theorem Handed.spent (idle : supply.isEmpty ∨ pool.workers = 0) : Handed pool supply value [] [] where
  roots := List.nil_prefix
  first := List.nil_prefix
  all some _ _ := by
    have empty : supply.isEmpty := idle.resolve_right (Nat.ne_of_gt some)
    simp only [Supply.isEmpty, Bool.and_eq_true, List.isEmpty_iff] at empty
    rw [empty.1, empty.2]
    exact ⟨rfl, rfl⟩

/-- Where the supply was dropped, nothing more is handed out. -/
theorem Handed.dropped {x : Exchange} (silent : searches [x] = [])
    (stopped : x = interrupt ∨ ∃ result ∈ value, pool.stops result)
    (handed : Handed pool .none value own artifacts) :
    Handed pool supply value (x :: own) artifacts := by
  obtain ⟨nothing, rfl⟩ := handed.none
  have none : searches (x :: own) = [] := by
    rw [← List.singleton_append, searches_append, silent, nothing, List.append_nil]
  refine ⟨?_, List.nil_prefix, fun _ untold calm => ?_⟩
  · rw [none]
    exact List.nil_prefix
  · rcases stopped with rfl | ⟨result, among, stops⟩
    · exact absurd List.mem_cons_self untold
    · rw [calm result among] at stops
      cases stops

/-- An exchange that is no search changes nothing. -/
theorem Handed.mild {x : Exchange} (silent : searches [x] = [])
    (handed : Handed pool supply value own artifacts) :
    Handed pool supply value (x :: own) artifacts := by
  have same : searches (x :: own) = searches own := by
    rw [← List.singleton_append, searches_append, silent, List.nil_append]
  refine ⟨by rw [same]; exact handed.roots, by rw [sought, same]; exact handed.first, ?_⟩
  intro some never calm
  rw [sought, same]
  exact handed.all some (fun among => never (List.mem_cons_of_mem _ among)) calm

theorem Handed.taken {a : Artifact} {ready : List Artifact} {roots : List Path}
    (handed : Handed pool ⟨ready, roots⟩ value own artifacts) :
    Handed pool ⟨a :: ready, roots⟩ value own (a :: artifacts) where
  roots := handed.roots
  first := List.cons_prefix_cons.mpr ⟨rfl, handed.first⟩
  all some untold calm := by
    obtain ⟨all, rfl⟩ := handed.all some untold calm
    exact ⟨all, rfl⟩

theorem Handed.searched {root : Path} {roots : List Path} {found : List Found} {ys : List Exchange}
    (complained : ∀ y ∈ ys, Warning y.request)
    (handed : Handed pool ⟨found.filterMap Found.artifact?, roots⟩ value own artifacts) :
    Handed pool ⟨[], root :: roots⟩ value (⟨.search root, found⟩ :: (ys ++ own)) artifacts := by
  have silent : searches ys = [] := by
    refine searches_eq_nil fun y among other isSearch => ?_
    have warning := complained y among
    rw [isSearch] at warning
    exact warning
  have more : searches (⟨.search root, found⟩ :: (ys ++ own)) = (root, found) :: searches own := by
    rw [← List.singleton_append, searches_append, searches_append, silent]
    rfl
  have found : sought (⟨.search root, found⟩ :: (ys ++ own)) =
      found.filterMap Found.artifact? ++ sought own := by
    rw [sought, more]
    rfl
  refine ⟨?_, ?_, fun some untold calm => ?_⟩
  · rw [more]
    exact List.cons_prefix_cons.mpr ⟨rfl, handed.roots⟩
  · rw [found]
    exact handed.first
  · obtain ⟨roots, artifacts⟩ := handed.all some
      (fun among => untold (List.mem_cons_of_mem _ (List.mem_append_right _ among))) calm
    rw [more, found, List.map_cons, roots]
    exact ⟨rfl, artifacts⟩

theorem Fanned.divided (fanned : Fanned pool supply running results xs value) :
    ∃ own goings stints, goings.map Going.program = running ∧
      Divided pool results xs value own goings stints ∧
      Handed pool supply value own (stints.map Stint.artifact) := by
  induction fanned with
  | spent idle =>
    exact ⟨[], [], [], rfl, ⟨by simp, .slnil, .nil, by simp⟩, .spent idle⟩
  | refused rest ih =>
    obtain ⟨own, goings, stints, rfl, divided, handed⟩ := ih
    exact ⟨interrupt :: own, goings, stints, rfl,
      divided.directed [interrupt] (by simp [interrupt, Directing]),
      handed.dropped rfl (.inl rfl)⟩
  | handed rest ih =>
    obtain ⟨own, goings, stints, running, divided, handed⟩ := ih
    obtain ⟨goings, lasts, rfl, rfl, isLast⟩ := List.map_eq_append_iff.mp running
    obtain ⟨last, rfl, begins⟩ := List.map_eq_singleton_iff.mp isLast
    exact ⟨⟨.isCancelled, false⟩ :: own, goings, _, rfl,
      (divided.begun begins).directed [⟨.isCancelled, false⟩] (by simp [Directing]),
      handed.taken.mild rfl⟩
  | searched complained rest ih =>
    obtain ⟨own, goings, stints, rfl, divided, handed⟩ := ih
    have warnings := complained.asks (asks_complain _)
    refine ⟨_, goings, stints, rfl, divided.directed (⟨.search _, _⟩ :: _) ?_,
      handed.searched warnings⟩
    exact List.forall_mem_cons.mpr ⟨trivial, fun y among => directing_of_warning (warnings y among)⟩
  | ended among turn rest ih =>
    obtain ⟨own, goings, stints, running, divided, handed⟩ := ih
    obtain ⟨before, after, rfl, rfl, rfl⟩ := List.map_eq_append_iff.mp running
    refine ⟨⟨.choose among, turn⟩ :: own, _, stints, by simp,
      divided.ended.directed [⟨.choose among, turn⟩] (by simp [Directing]), ?_⟩
    split at handed
    · rename_i stops
      refine handed.dropped rfl (.inr ⟨_, divided.value.mem_iff.mpr ?_, stops⟩)
      simp
    · exact handed.mild rfl
  | stepped among turn answer rest ih =>
    obtain ⟨own, goings, stints, running, divided, handed⟩ := ih
    obtain ⟨before, others, rfl, rfl, others⟩ := List.map_eq_append_iff.mp running
    obtain ⟨going, after, rfl, goesOn, rfl⟩ := List.map_eq_cons_iff.mp others
    exact ⟨⟨.choose among, turn⟩ :: own, _, stints, by simp,
      (divided.stepped goesOn).directed [⟨.choose among, turn⟩] (by simp [Directing]),
      handed.mild rfl⟩

/-! ## Serving a supply -/

/-- How a pool serves a supply, from the start to the results: what it exchanges is its own or
belongs to one of its jobs, and it has one result of each of them. -/
structure Served (pool : Pool α) (supply : Supply) (xs : List Exchange) (value : List α)
    (stints : List (Stint pool)) : Prop where
  shared : ∃ own, (∀ x ∈ own, Directing x.request) ∧
    xs.Perm (own ++ (stints.map Stint.exchanges).flatten)
  results : value.Perm (stints.map Stint.result)
  handed : Handed pool supply value xs (stints.map Stint.artifact)

theorem pool_served (working : ∀ a, Asks Working (pool.job a))
    (course : Course (pool.run supply [] []) xs value) :
    ∃ stints, Served pool supply xs value stints := by
  obtain ⟨own, goings, stints, none, divided, handed⟩ := (fanned_of_course course).divided
  obtain rfl := List.map_eq_nil_iff.mp none
  have shared : xs.Perm (own ++ (stints.map Stint.exchanges).flatten) := by
    simpa using divided.exchanges
  -- The jobs search nothing, and the pool's own searches stay in their order.
  have silent : searches (stints.map Stint.exchanges).flatten = [] := by
    refine searches_eq_nil fun x among root isSearch => ?_
    obtain ⟨exchanges, isStint, among⟩ := List.mem_flatten.mp among
    obtain ⟨stint, -, rfl⟩ := List.mem_map.mp isStint
    have working := stint.whole.asks (working stint.artifact) x among
    rw [isSearch] at working
    exact working.elim
  have same : searches own = searches xs := by
    refine (divided.order.filterMap _).eq_of_length ?_
    have all : (searches xs).length = (searches (own ++ _)).length := (shared.filterMap _).length_eq
    rw [searches_append, silent, List.append_nil] at all
    exact all.symm
  refine ⟨stints, ⟨own, divided.directing, shared⟩, by simpa using divided.value, ?_, ?_, ?_⟩
  · rw [← same]
    exact handed.roots
  · rw [sought, ← same]
    exact handed.first
  · intro some untold calm
    rw [sought, ← same]
    exact handed.all some (fun told => untold (divided.order.subset told)) calm

end BugHunt.Proofs.FanOut
