import BugHunt.Proofs.Growth
import BugHunt.Proofs.Mirroring
/-!
Twin programs: from states that mirror each other they ask for the same, are answered alike, and
leave states that mirror each other again, whatever is known of the states to begin with.
-/

namespace BugHunt.Proofs.Twins
open Trees Texts Names Places Runs Bench Growth Outcomes Mirroring

/-- Whether two programs go on alike. Their results are related by what is known in the end. -/
def Twin (b : Bench) (k : Claims) (Q : Notes → α → β → Prop) : Program α → Program β → Notes → Prop
  | .done x, p, g => ∃ y f, p = .done y ∧ f.Less g ∧ Q f x y
  | .ask r next, p, g => ∃ r' next', p = .ask r' next' ∧
      ∀ s t, Grown s.tree.node? → Grown t.tree.node? → Mirror b k g s t →
        ∃ f, Mirror b k f (b.host r s).2 (b.host r' t).2 ∧ Step k g f t (b.host r' t).2 ∧
          Twin b k Q (next (b.host r s).1) (next' (b.host r' t).1) f

/-- Two results: values that are related, or errors that are. -/
def Match (A : Notes → α → β → Prop) (E : Notes → ε → φ → Prop) (g : Notes) :
    Except ε α → Except φ β → Prop
  | .ok x, .ok y => A g x y
  | .error e, .error e' => E g e e'
  | _, _ => False

/-- Whether two actions go on alike. -/
def Paired (b : Bench) (k : Claims) (A : Notes → α → β → Prop) (E : Notes → ε → φ → Prop)
    (a : Action ε α) (a' : Action φ β) (g : Notes) : Prop :=
  Twin b k (Match A E) a.run a'.run g

/-- Results that are related while as much is known as before. -/
def At (g : Notes) (A : α → β → Prop) (f : Notes) (x : α) (y : β) : Prop := f = g ∧ A x y

def Any (_ : α) (_ : β) : Prop := True

section Rules

variable {b : Bench} {k : Claims} {f g : Notes}

theorem Twin.done {Q : Notes → α → β → Prop} {x : α} {y : β} (holds : Q g x y) :
    Twin b k Q (pure x) (pure y) g := ⟨y, g, rfl, .refl g, holds⟩

/-- Knowing more does no harm. -/
theorem Twin.knowing {Q : Notes → α → β → Prop} {p : Program α} {p' : Program β}
    (h : Twin b k Q p p' f) (less : f.Less g) : Twin b k Q p p' g := by
  cases p with
  | done x =>
    obtain ⟨y, e, isDone, lessStill, holds⟩ := h
    exact ⟨y, e, isDone, lessStill.trans less, holds⟩
  | ask r next =>
    obtain ⟨r', next', isAsk, goes⟩ := h
    refine ⟨r', next', isAsk, fun s t grown grownToo mirror => ?_⟩
    obtain ⟨e, after, step, rest⟩ := goes s t grown grownToo (mirror.less less)
    exact ⟨e, after, step.less less, rest⟩

theorem Twin.bind {Q : Notes → α → β → Prop} {R : Notes → γ → δ → Prop} {p : Program α}
    {p' : Program β} {next : α → Program γ} {next' : β → Program δ} (first : Twin b k Q p p' g)
    (second : ∀ f x y, Q f x y → Twin b k R (next x) (next' y) f) :
    Twin b k R (p >>= next) (p' >>= next') g := by
  induction p generalizing p' g with
  | done x =>
    obtain ⟨y, f, rfl, less, holds⟩ := first
    exact (second f x y holds).knowing less
  | ask r rest ih =>
    obtain ⟨r', rest', rfl, goes⟩ := first
    refine ⟨r', fun answer => rest' answer >>= next', rfl, fun s t grown grownToo mirror => ?_⟩
    obtain ⟨f, after, step, more⟩ := goes s t grown grownToo mirror
    exact ⟨f, after, step, ih _ more⟩

theorem Twin.imp {Q R : Notes → α → β → Prop} {p : Program α} {p' : Program β}
    (h : Twin b k Q p p' g) (implies : ∀ f x y, Q f x y → R f x y) : Twin b k R p p' g := by
  have goes : Twin b k R (p >>= pure) (p' >>= pure) g :=
    h.bind fun f x y holds => Twin.done (implies f x y holds)
  rwa [bind_pure, bind_pure] at goes

/-! ### Actions -/

variable {A : Notes → α → β → Prop} {E : Notes → ε → φ → Prop} {a : Action ε α} {a' : Action φ β}

theorem Paired.pure {x : α} {y : β} (related : A g x y) :
    Paired b k A E (pure x : Action ε α) (pure y : Action φ β) g := Twin.done related

theorem Paired.throw {e : ε} {e' : φ} (related : E g e e') :
    Paired b k A E (throw e : Action ε α) (throw e' : Action φ β) g := Twin.done related

theorem Paired.bind {B : Notes → γ → δ → Prop} {F : Notes → ε → φ → Prop} {next : α → Action ε γ}
    {next' : β → Action φ δ} (first : Paired b k A E a a' g)
    (second : ∀ f x y, A f x y → Paired b k B F (next x) (next' y) f)
    (failed : ∀ f e e', E f e e' → F f e e') : Paired b k B F (a >>= next) (a' >>= next') g := by
  unfold Paired
  rw [ExceptT.run_bind, ExceptT.run_bind]
  refine Twin.bind first fun f result result' related => ?_
  match result, result' with
  | .ok x, .ok y => exact second f x y related
  | .error e, .error e' => exact Twin.done (failed f e e' related)
  | .ok x, .error e' => exact related.elim
  | .error e, .ok y => exact related.elim

/-- Going on where nothing more has come to be known. -/
theorem Paired.then {A : α → β → Prop} {E : ε → φ → Prop} {B : Notes → γ → δ → Prop}
    {F : Notes → ε → φ → Prop} {next : α → Action ε γ} {next' : β → Action φ δ}
    (first : Paired b k (At g A) (At g E) a a' g)
    (second : ∀ x y, A x y → Paired b k B F (next x) (next' y) g)
    (failed : ∀ e e', E e e' → F g e e') : Paired b k B F (a >>= next) (a' >>= next') g :=
  first.bind (fun _ x y ⟨same, related⟩ => same ▸ second x y related)
    fun _ e e' ⟨same, related⟩ => same ▸ failed e e' related

theorem Paired.imp {B : Notes → α → β → Prop} {F : Notes → ε → φ → Prop}
    (h : Paired b k A E a a' g) (values : ∀ f x y, A f x y → B f x y)
    (errors : ∀ f e e', E f e e' → F f e e') : Paired b k B F a a' g := by
  refine Twin.imp h fun f result result' related => ?_
  match result, result' with
  | .ok x, .ok y => exact values f x y related
  | .error e, .error e' => exact errors f e e' related
  | .ok x, .error e' => exact related.elim
  | .error e, .ok y => exact related.elim

theorem Paired.lift {p : Program α} {p' : Program β} (h : Twin b k A p p' g) :
    Paired b k A E (monadLift p : Action ε α) (monadLift p' : Action φ β) g :=
  Twin.bind h fun _ _ _ related => Twin.done related

theorem Paired.adapt {toError : ε → ε'} {toError' : φ → φ'} {F : Notes → ε' → φ' → Prop}
    (h : Paired b k A E a a' g) (errors : ∀ f e e', E f e e' → F f (toError e) (toError' e')) :
    Paired b k A F (a.adapt toError) (a'.adapt toError') g := by
  refine Twin.bind h fun f result result' related => Twin.done ?_
  match result, result' with
  | .ok x, .ok y => exact related
  | .error e, .error e' => exact errors f e e' related
  | .ok x, .error e' => exact related.elim
  | .error e, .ok y => exact related.elim

theorem Paired.orFail {p : Program (Except ε' α)} {p' : Program (Except φ' β)}
    {toError : ε' → ε} {toError' : φ' → φ} {F : Notes → ε' → φ' → Prop}
    (h : Twin b k (Match A F) p p' g) (errors : ∀ f e e', F f e e' → E f (toError e) (toError' e')) :
    Paired b k A E (Action.orFail p toError) (Action.orFail p' toError') g := by
  refine Twin.bind h fun f result result' related => ?_
  match result, result' with
  | .ok x, .ok y => exact Twin.done related
  | .error e, .error e' => exact Twin.done (errors f e e' related)
  | .ok x, .error e' => exact related.elim
  | .error e, .ok y => exact related.elim

/-- A request that is answered in the same way. -/
theorem Paired.ask {E : ε → φ → Prop} {p p' : Program (Except ε' α)} {toError : ε' → ε}
    {toError' : ε' → φ} (h : Twin b k (At g Eq) p p' g) (errors : ∀ e, E (toError e) (toError' e)) :
    Paired b k (At g Eq) (At g E) (Action.orFail p toError) (Action.orFail p' toError') g := by
  refine Twin.bind h ?_
  rintro _ result _ ⟨rfl, rfl⟩
  cases result with
  | ok value => exact Twin.done ⟨rfl, rfl⟩
  | error e => exact Twin.done ⟨rfl, errors e⟩

theorem Paired.cleaningUp {cleanup : Except ε α → Program Unit} {cleanup' : Except φ β → Program Unit}
    {B : Notes → α → β → Prop} {F : Notes → ε → φ → Prop} (h : Paired b k A E a a' g)
    (cleaned : ∀ f x y, Match A E f x y →
      Twin b k (fun f _ _ => Match B F f x y) (cleanup x) (cleanup' y) f) :
    Paired b k B F (a.cleaningUp cleanup) (a'.cleaningUp cleanup') g :=
  Twin.bind h fun f x y related => (cleaned f x y related).bind fun _ _ _ after => Twin.done after

/-- An action whose result is looked at as a value. -/
theorem Paired.attempt {F : Notes → ε' → φ' → Prop} (h : Paired b k A E a a' g) :
    Paired b k (Match A E) F (ExceptT.lift a.run : Action ε' (Except ε α))
      (ExceptT.lift a'.run : Action φ' (Except φ β)) g := Paired.lift h

end Rules

/-! ## From a given state -/

section Given

variable {b : Bench} {k : Claims} {f g : Notes} {s : State}

/-- Whether two programs go on alike when the first goes on from a given state. -/
def Along (b : Bench) (k : Claims) (Q : Notes → α → β → Prop) :
    Program α → Program β → Notes → State → Prop
  | .done x, p, g, _ => ∃ y f, p = .done y ∧ f.Less g ∧ Q f x y
  | .ask r next, p, g, s => ∃ r' next', p = .ask r' next' ∧
      ∀ t, Grown t.tree.node? → Mirror b k g s t →
        ∃ f, Mirror b k f (b.host r s).2 (b.host r' t).2 ∧ Step k g f t (b.host r' t).2 ∧
          Along b k Q (next (b.host r s).1) (next' (b.host r' t).1) f (b.host r s).2

theorem Twin.along {Q : Notes → α → β → Prop} {p : Program α} {p' : Program β}
    (h : Twin b k Q p p' g) (grown : Grown s.tree.node?) : Along b k Q p p' g s := by
  induction p generalizing p' g s with
  | done x => exact h
  | ask r next ih =>
    obtain ⟨r', next', isAsk, goes⟩ := h
    refine ⟨r', next', isAsk, fun t grownToo mirror => ?_⟩
    obtain ⟨f, after, step, rest⟩ := goes s t grown grownToo mirror
    exact ⟨f, after, step, ih _ rest (host_grown grown r)⟩

theorem Along.knowing {Q : Notes → α → β → Prop} {p : Program α} {p' : Program β}
    (h : Along b k Q p p' f s) (less : f.Less g) : Along b k Q p p' g s := by
  cases p with
  | done x =>
    obtain ⟨y, e, isDone, lessStill, holds⟩ := h
    exact ⟨y, e, isDone, lessStill.trans less, holds⟩
  | ask r next =>
    obtain ⟨r', next', isAsk, goes⟩ := h
    refine ⟨r', next', isAsk, fun t grown mirror => ?_⟩
    obtain ⟨e, after, step, rest⟩ := goes t grown (mirror.less less)
    exact ⟨e, after, step.less less, rest⟩

theorem Along.bind {Q : Notes → α → β → Prop} {R : Notes → γ → δ → Prop} {p : Program α}
    {p' : Program β} {next : α → Program γ} {next' : β → Program δ} (first : Along b k Q p p' g s)
    (second : ∀ f y, Q f (p.run b.host s).1 y →
      Along b k R (next (p.run b.host s).1) (next' y) f (p.run b.host s).2) :
    Along b k R (p >>= next) (p' >>= next') g s := by
  induction p generalizing p' g s with
  | done x =>
    obtain ⟨y, f, rfl, less, holds⟩ := first
    exact (second f y holds).knowing less
  | ask r rest ih =>
    obtain ⟨r', rest', rfl, goes⟩ := first
    refine ⟨r', fun answer => rest' answer >>= next', rfl, fun t grown mirror => ?_⟩
    obtain ⟨f, after, step, more⟩ := goes t grown mirror
    exact ⟨f, after, step, ih _ more second⟩

/-- Whether two actions go on alike when the first goes on from a given state. -/
def Alongside (b : Bench) (k : Claims) (A : Notes → α → β → Prop) (E : Notes → ε → φ → Prop)
    (a : Action ε α) (a' : Action φ β) (g : Notes) (s : State) : Prop :=
  Along b k (Match A E) a.run a'.run g s

variable {A : Notes → α → β → Prop} {E : Notes → ε → φ → Prop} {a : Action ε α} {a' : Action φ β}

theorem Paired.along (h : Paired b k A E a a' g) (grown : Grown s.tree.node?) :
    Alongside b k A E a a' g s := Twin.along h grown

/-- Going on from where the first action ends, if it ends with a value. -/
theorem Alongside.bind {B : Notes → γ → δ → Prop} {F : Notes → ε → φ → Prop}
    {next : α → Action ε γ} {next' : β → Action φ δ} (grown : Grown s.tree.node?)
    (first : Alongside b k A E a a' g s)
    (second : ∀ f x y t, A f x y → Grown t.tree.node? → exec b.host s a = (.ok x, t) →
      Alongside b k B F (next x) (next' y) f t)
    (failed : ∀ f e e', E f e e' → F f e e') : Alongside b k B F (a >>= next) (a' >>= next') g s := by
  unfold Alongside
  rw [ExceptT.run_bind, ExceptT.run_bind]
  refine Along.bind first fun f result' related => ?_
  cases ran : a.run.run b.host s with
  | mk result t =>
    have ranToo : exec b.host s a = (result, t) := ran
    rw [ran] at related
    match result, result' with
    | .ok x, .ok y => exact second f x y t related (exec_grown grown ranToo) ranToo
    | .error e, .error e' => exact ⟨_, f, rfl, .refl f, failed f e e' related⟩
    | .ok x, .error e' => exact related.elim
    | .error e, .ok y => exact related.elim

end Given

/-! ## Single requests -/

/-- Whether a program is one request. -/
def Single (p : Program α) : Prop :=
  ∃ (r : Request) (f : r.Answer → α), p = .ask r fun answer => .done (f answer)

variable {b : Bench} {k : Claims} {f g : Notes}

theorem Twin.once {Q : Notes → α → β → Prop} {p : Program α} {p' : Program β} (one : Single p)
    (other : Single p') (goes : ∀ s t, Grown s.tree.node? → Grown t.tree.node? → Mirror b k g s t →
      ∃ f, Mirror b k f (p.run b.host s).2 (p'.run b.host t).2 ∧ Step k g f t (p'.run b.host t).2 ∧
        Q f (p.run b.host s).1 (p'.run b.host t).1) : Twin b k Q p p' g := by
  obtain ⟨r, h, rfl⟩ := one
  obtain ⟨r', h', rfl⟩ := other
  refine ⟨r', _, rfl, fun s t grown grownToo mirror => ?_⟩
  obtain ⟨f, after, step, related⟩ := goes s t grown grownToo mirror
  exact ⟨f, after, step, Twin.done related⟩

/-- A request that only looks. -/
theorem Twin.look {A : α → β → Prop} {p : Program α} {p' : Program β} (one : Single p)
    (other : Single p') (still : ∀ s, (p.run b.host s).2 = s) (stillToo : ∀ s, (p'.run b.host s).2 = s)
    (answers : ∀ s t, Mirror b k g s t → A (p.run b.host s).1 (p'.run b.host t).1) :
    Twin b k (At g A) p p' g := by
  refine .once one other fun s t _ _ mirror => ⟨g, ?_, ?_, rfl, answers s t mirror⟩
  · rwa [still, stillToo]
  · rw [stillToo]
    exact .still rfl (List.prefix_refl _) rfl

theorem twin_log (level level' : Level) (message message' : String) :
    Twin b k (At g Any) (Program.log level message) (Program.log level' message') g :=
  .look ⟨.log _, id, rfl⟩ ⟨.log _, id, rfl⟩ (fun _ => rfl) (fun _ => rfl) fun _ _ _ => trivial

theorem twin_isCancelled :
    Twin b k (At g fun x y => x = false ∧ y = false) Program.isCancelled Program.isCancelled g :=
  .look ⟨.isCancelled, id, rfl⟩ ⟨.isCancelled, id, rfl⟩ (fun _ => rfl) (fun _ => rfl)
    fun _ _ _ => ⟨rfl, rfl⟩

theorem twin_read {p q : Path} (shown : Shown b k g p q) :
    Twin b k (At g Eq) (Program.read p) (Program.read q) g :=
  .look ⟨.file (.read p), id, rfl⟩ ⟨.file (.read q), id, rfl⟩ (fun _ => rfl) (fun _ => rfl)
    fun _ _ mirror => (mirror.readAt shown).symm

theorem twin_exists {p q : Path} (seen : Seen k g (b.place p) (b.place q)) :
    Twin b k (At g Eq) (Program.exists p) (Program.exists q) g := by
  refine .look ⟨.file (.exists p), id, rfl⟩ ⟨.file (.exists q), id, rfl⟩ (fun _ => rfl) (fun _ => rfl)
    fun s t mirror => ?_
  rw [run_exists, run_exists, Trees.exists, Trees.exists, mirror.alike.node seen]

theorem twin_isFile {p q : Path} (seen : Seen k g (b.place p) (b.place q)) :
    Twin b k (At g Eq) (Program.isFile p) (Program.isFile q) g := by
  refine .look ⟨.file (.isFile p), id, rfl⟩ ⟨.file (.isFile q), id, rfl⟩ (fun _ => rfl) (fun _ => rfl)
    fun s t mirror => ?_
  rw [run_isFile, run_isFile, Trees.isFile, Trees.isFile, mirror.alike.node seen]

/-! ## Requests that change files -/

/-- Two results of operations on trees: trees that are related, or the same failure. -/
def Both (R : FileTree → FileTree → Prop) :
    Except Failure FileTree → Except Failure FileTree → Prop
  | .ok t, .ok u => R t u
  | .error cause, .error cause' => cause = cause'
  | _, _ => False

/-- Two trees of which the second came from a third, by a change at one place. -/
def Changed (b : Bench) (k : Claims) (g : Notes) (place : Place) (before t u : FileTree) : Prop :=
  Alike b k g t.node? u.node? ∧ Change (· = place) before.node? u.node?

theorem Twin.change {p p' : Program (Except Failure Unit)} (one : Single p) (other : Single p')
    {operate operate' : FileTree → Except Failure FileTree} {place : Place}
    (mine : ∀ s, p.run b.host s = Bench.change s (operate s.tree))
    (twin : ∀ s, p'.run b.host s = Bench.change s (operate' s.tree)) (own : Own k g place)
    (both : ∀ t u, Alike b k g t.node? u.node? → Both (Changed b k g place u) (operate t) (operate' u)) :
    Twin b k (At g Eq) p p' g := by
  refine .once one other fun s t _ _ mirror => ?_
  have both := both _ _ mirror.alike
  rw [mine, twin]
  generalize operate s.tree = result at both ⊢
  generalize operate' t.tree = result' at both ⊢
  match result, result' with
  | .ok m, .ok n =>
    exact ⟨g, Mirror.of_alike mirror both.1,
      .of_change (both.2.mono fun q same => same ▸ own) (List.prefix_refl _) rfl, rfl, rfl⟩
  | .error cause, .error cause' =>
    exact ⟨g, mirror, .still rfl (List.prefix_refl _) rfl, rfl, congrArg Except.error both⟩
  | .ok m, .error cause => exact both.elim
  | .error cause, .ok m => exact both.elim

section Operations

variable {t u : FileTree} {q r : Place}

theorem write_both (h : Alike b k g t.node? u.node?) (orderly : Orderly b k) (spot : Spot k g q r)
    (content : Bytes) : Both (Changed b k g r u) (write t q content) (write u r content) := by
  have same := h.writable orderly spot
  by_cases writable : View.writable t.node? q
  · obtain ⟨t', done, view⟩ := write_ok content writable
    obtain ⟨u', doneToo, viewToo⟩ := write_ok content (same.trans writable)
    rw [done, doneToo]
    refine ⟨?_, write_change doneToo⟩
    rw [view, viewToo]
    exact h.put orderly spot (View.writable_iff.mp writable).1 (.inl (by simp))
  · rw [write, write, same, if_neg writable, if_neg writable]
    exact show refusal _ _ = refusal _ _ by rw [refusal, refusal, h.directory spot.seen]

theorem touch_both (h : Alike b k g t.node? u.node?) (orderly : Orderly b k) (spot : Spot k g q r) :
    Both (Changed b k g r u) (touch t q) (touch u r) := by
  rw [touch, touch, h.node spot.seen, h.directory spot.seen]
  split
  · exact ⟨h, .refl _ _⟩
  · exact write_both h orderly spot []

theorem copy_both (h : Alike b k g t.node? u.node?) (orderly : Orderly b k) {p : Place}
    (seen : Seen k g p p) (spot : Spot k g q q) :
    Both (Changed b k g q u) (copy t p q) (copy u p q) := by
  have same : Trees.read u p = Trees.read t p := by rw [Trees.read, Trees.read, h.node seen]
  rw [copy, copy, same]
  cases Trees.read t p with
  | error cause => exact rfl
  | ok content => exact write_both h orderly spot _

theorem remove_both (h : Alike b k g t.node? u.node?) (orderly : Orderly b k) (spot : Spot k g q q)
    (claimed : q ∈ k.written) : Both (Changed b k g q u) (remove t q) (remove u q) := by
  have plain := orderly.plain (Claims.mem_places (List.mem_cons_of_mem _ claimed))
  have stays (x : Scratch) (known : g.scratch = some x) : q ≠ x.root := by
    simpa using ((h.scratch x known).apart plain []).1.symm
  have same := h.node spot.seen
  cases there : t.node? q with
  | none =>
    rw [remove, remove, same, there]
    exact rfl
  | some node =>
    by_cases directory : node.isDirectory
    · rw [remove, remove, same, there]
      simp only [directory, if_true]
      exact rfl
    · have file : node.isDirectory = false := by simpa using directory
      obtain ⟨t', done, view⟩ := remove_ok there file
      obtain ⟨u', doneToo, viewToo⟩ := remove_ok (same.trans there) file
      rw [done, doneToo]
      refine ⟨?_, (remove_change doneToo).1⟩
      rw [view, viewToo]
      exact h.put orderly spot (by rw [View.directory, there]; exact file) (.inr stays)

/-- A directory within a temporary one. -/
theorem createDirectory_both (h : Alike b k g t.node? u.node?) (orderly : Orderly b k) {x : Scratch}
    (known : g.scratch = some x) (name : Bytes) :
    Both (Changed b k g (x.other ++ [name]) u) (createDirectory t (x.root ++ [name]))
      (createDirectory u (x.other ++ [name])) := by
  have spot : Spot k g (x.root ++ [name]) (x.other ++ [name]) := .scratch known [name]
  have same := h.node spot.seen
  have parent : View.directory u.node? x.other = View.directory t.node? x.root := by
    simpa using h.directory (Seen.scratch known [])
  rw [createDirectory, createDirectory, same, List.dropLast_concat, List.dropLast_concat, parent]
  by_cases there : (t.node? (x.root ++ [name])).isSome
  · simp only [there, if_true]
    exact rfl
  · simp only [there, Bool.false_eq_true, if_false]
    have free : t.node? (x.root ++ [name]) = none := by simpa using there
    by_cases directory : View.directory t.node? x.root
    · simp only [directory, if_true]
      refine ⟨?_, ?_⟩
      · rw [node?_set (by simp), node?_set (by simp)]
        exact h.put orderly spot (by rw [View.directory, free]; rfl) (.inl (by simp))
      · rw [node?_set (by simp)]
        refine ⟨fun q other => View.put_other other, fun q there => ?_⟩
        have other : q ≠ x.other ++ [name] := by
          rintro rfl
          rw [View.directory, same, free] at there
          cases there
        rwa [View.directory, View.put_other other]
    · simp only [directory, Bool.false_eq_true, if_false]
      exact rfl

end Operations

theorem twin_write (orderly : Orderly b k) {p q : Path} (spot : Spot k g (b.place p) (b.place q))
    (content : Bytes) : Twin b k (At g Eq) (Program.write p content) (Program.write q content) g :=
  .change ⟨.file (.write p content), id, rfl⟩ ⟨.file (.write q content), id, rfl⟩ (fun _ => rfl)
    (fun _ => rfl) spot.own fun _ _ alike => write_both alike orderly spot content

theorem twin_touch (orderly : Orderly b k) {p q : Path} (spot : Spot k g (b.place p) (b.place q)) :
    Twin b k (At g Eq) (Program.touch p) (Program.touch q) g :=
  .change ⟨.file (.touch p), id, rfl⟩ ⟨.file (.touch q), id, rfl⟩ (fun _ => rfl) (fun _ => rfl)
    spot.own fun _ _ alike => touch_both alike orderly spot

theorem twin_copy (orderly : Orderly b k) {p q : Path} (seen : Seen k g (b.place p) (b.place p))
    (spot : Spot k g (b.place q) (b.place q)) :
    Twin b k (At g Eq) (Program.copy p q) (Program.copy p q) g :=
  .change ⟨.file (.copy p q), id, rfl⟩ ⟨.file (.copy p q), id, rfl⟩ (fun _ => rfl) (fun _ => rfl)
    spot.own fun _ _ alike => copy_both alike orderly seen spot

theorem twin_remove (orderly : Orderly b k) {p : Path} (spot : Spot k g (b.place p) (b.place p))
    (claimed : b.place p ∈ k.written) :
    Twin b k (At g Eq) (Program.remove p) (Program.remove p) g :=
  .change ⟨.file (.remove p), id, rfl⟩ ⟨.file (.remove p), id, rfl⟩ (fun _ => rfl) (fun _ => rfl)
    spot.own fun _ _ alike => remove_both alike orderly spot claimed

theorem twin_createDirectory (orderly : Orderly b k) {x : Scratch} (known : g.scratch = some x)
    {p q : Path} {name : Bytes} (mine : b.place p = x.root ++ [name]) (twin : b.place q = x.other ++ [name]) :
    Twin b k (At g Eq) (Program.createDirectory p) (Program.createDirectory q) g := by
  have own : Own k g (x.other ++ [name]) := .inr ⟨x, known, List.prefix_append _ _⟩
  have both (t u : FileTree) (alike : Alike b k g t.node? u.node?) :
      Both (Changed b k g (x.other ++ [name]) u) (createDirectory t (b.place p))
        (createDirectory u (b.place q)) := by
    rw [mine, twin]
    exact createDirectory_both alike orderly known name
  exact .change ⟨.file (.createDirectory p), id, rfl⟩ ⟨.file (.createDirectory q), id, rfl⟩
    (fun _ => rfl) (fun _ => rfl) own both

theorem twin_makeExecutable {p q : Path} (seen : Seen k g (b.place p) (b.place q)) :
    Twin b k (At g Eq) (Program.makeExecutable p) (Program.makeExecutable q) g := by
  refine .look ⟨.file (.makeExecutable p), id, rfl⟩ ⟨.file (.makeExecutable q), id, rfl⟩
    (fun _ => rfl) (fun _ => rfl) fun s t mirror => ?_
  show (Trees.read s.tree (b.place p)).map (fun _ => ()) =
    (Trees.read t.tree (b.place q)).map fun _ => ()
  rw [Trees.read, Trees.read, mirror.alike.node seen]

/-! ## The way to the output directory -/

/-- Directories that are there are not made. -/
theorem twin_createDirectories {E : Notes → Failure → Failure → Prop} {p q : Path}
    (there : ∀ v w, Alike b k g v w → v.directory (b.place p) ∧ w.directory (b.place q)) :
    Twin b k (Match (At g Any) E) (Program.createDirectories p) (Program.createDirectories q) g := by
  refine .once ⟨.file (.createDirectories p), id, rfl⟩ ⟨.file (.createDirectories q), id, rfl⟩
    fun s t _ _ mirror => ?_
  obtain ⟨mine, twin⟩ := there _ _ mirror.alike
  rw [run_createDirectories, run_createDirectories, createDirectories_of_directory mine,
    createDirectories_of_directory twin]
  exact ⟨g, mirror, .still rfl (List.prefix_refl _) rfl, rfl, trivial⟩

theorem blocked_set {t : FileTree} {place : Place} (named : place ≠ []) (free : t.node? place = none) :
    blocked (t.set place .directory).node? = blocked t.node? := by
  funext q
  rw [node?_set named]
  by_cases same : q = place
  · rw [same, blocked, blocked, View.put_self, free]
    rfl
  · exact blocked_congr (View.put_other same)

/-- A path can be made if nothing on it is in the way. -/
theorem makePath_isOk {t : FileTree} {place : Place} {names : List Bytes} :
    (∃ u, makePath t place names = .ok u) ↔
      ∀ q, q <+: names → q ≠ [] → blocked t.node? (place ++ q) = false := by
  induction names generalizing t place with
  | nil =>
    refine ⟨fun _ q on named => absurd (List.prefix_nil.mp on) named, fun _ => ⟨t, rfl⟩⟩
  | cons name rest ih =>
    have split : (∀ q, q <+: name :: rest → q ≠ [] → blocked t.node? (place ++ q) = false) ↔
        blocked t.node? (place ++ [name]) = false ∧
          ∀ q, q <+: rest → q ≠ [] → blocked t.node? (place ++ [name] ++ q) = false := by
      constructor
      · intro clear
        refine ⟨clear [name] (by simp) (by simp), fun q on _ => ?_⟩
        simpa using clear (name :: q) (by simpa using on) (by simp)
      · rintro ⟨first, later⟩ q on named
        cases q with
        | nil => exact absurd rfl named
        | cons head tail =>
          obtain ⟨rfl, onRest⟩ := List.cons_prefix_cons.mp on
          by_cases short : tail = []
          · rw [short]
            exact first
          · simpa using later tail onRest short
    rw [split, makePath]
    split
    · rename_i free
      rw [ih, blocked_set (by simp) free]
      exact ⟨fun later => ⟨by rw [blocked, free]; rfl, later⟩, fun both => both.2⟩
    · rename_i node found
      by_cases directory : node.isDirectory
      · simp only [directory, if_true]
        rw [ih]
        exact ⟨fun later => ⟨by rw [blocked, found]; simp [directory], later⟩, fun both => both.2⟩
      · simp only [directory, Bool.false_eq_true, if_false]
        constructor
        · rintro ⟨u, impossible⟩
          cases impossible
        · rintro ⟨first, -⟩
          rw [blocked, found] at first
          simp [directory] at first

/-- What leads to a directory is one. -/
theorem Grown.above {v : View} (grown : Grown v) {q place : Place} (on : q <+: place)
    (there : v.directory place) : v.directory q := by
  by_cases whole : q = place
  · exact whole ▸ there
  · have named : place ≠ [] := by
      rintro rfl
      exact whole (List.prefix_nil.mp on)
    rcases List.prefix_concat_iff.mp ((List.dropLast_concat_getLast named).symm ▸ on) with same | short
    · exact absurd (same.trans (List.dropLast_concat_getLast named)) whole
    · exact Grown.above grown short (grown.parent there)
termination_by place.length
decreasing_by
  have := List.length_pos_iff.mpr named
  rw [List.length_dropLast]
  omega

theorem createDirectories_isOk {t : FileTree} (grown : Grown t.node?) (place : Place) :
    (∃ u, createDirectories t place = .ok u) ↔ ∀ q, q <+: place → blocked t.node? q = false := by
  have unblocked {q : Place} (directory : View.directory t.node? q) : blocked t.node? q = false := by
    rw [View.directory] at directory
    rw [blocked]
    cases found : t.node? q with
    | none => rfl
    | some node =>
      rw [found] at directory
      simpa using directory
  unfold createDirectories
  split
  · rename_i there
    exact ⟨fun _ q on => unblocked (Grown.above grown on there), fun _ => ⟨t, rfl⟩⟩
  · rw [makePath_isOk]
    refine ⟨fun clear q on => ?_, fun clear q on _ => clear q on⟩
    by_cases root : q = []
    · exact unblocked (root ▸ View.directory_root t)
    · exact clear q on root

/-- The output directory comes to be there in both states or cannot be made in either. -/
theorem twin_open (orderly : Orderly b k) {p : Path} (way : b.place p = k.way) :
    Twin b k (Match (At { g with opened := true } Any) (At g Any)) (Program.createDirectories p)
      (Program.createDirectories p) g := by
  refine .once ⟨.file (.createDirectories p), id, rfl⟩ ⟨.file (.createDirectories p), id, rfl⟩
    fun s t grown grownToo mirror => ?_
  rw [run_createDirectories, run_createDirectories, way]
  have same : (∃ m, createDirectories s.tree k.way = .ok m) ↔
      ∃ n, createDirectories t.tree k.way = .ok n := by
    rw [createDirectories_isOk grown, createDirectories_isOk grownToo]
    exact forall_congr' fun q => forall_congr' fun on => by rw [mirror.alike.blocked q on]
  cases mine : createDirectories s.tree k.way with
  | ok m =>
    obtain ⟨n, twin⟩ := same.mp ⟨m, mine⟩
    obtain ⟨more, there⟩ := createDirectories_spec mine
    obtain ⟨moreToo, thereToo⟩ := createDirectories_spec twin
    rw [twin]
    refine ⟨{ g with opened := true }, ⟨mirror.alike.reach orderly more moreToo there thereToo,
      mirror.waiting⟩, ?_, rfl, trivial⟩
    refine ⟨fun q differs => .way (moreToo.new q differs).1 ?_ (moreToo.new q differs).2,
      fun q was => .inl (moreToo.change.directories q was), List.prefix_refl _, fun x known => .inl known⟩
    by_cases free : t.tree.node? q = none
    · exact free
    · exact absurd (moreToo.kept q free) differs
  | error cause =>
    cases twin : createDirectories t.tree k.way with
    | ok n =>
      obtain ⟨m, made⟩ := same.mpr ⟨n, twin⟩
      rw [mine] at made
      cases made
    | error cause' => exact ⟨g, mirror, .still rfl (List.prefix_refl _) rfl, rfl, trivial⟩

/-! ## Temporary files -/

/-- What is known after a temporary file has been made. -/
structure Entered (b : Bench) (g f : Notes) (x : Scratch) (p q : Path) : Prop where
  notes : f = { g with scratch := some x }
  mine : b.place p = x.root
  twin : b.place q = x.other
  named : endsIdle p = false
  namedToo : endsIdle q = false

theorem drawable_of_made {s : State} {directory p : Path} {before after : String}
    {make : FileTree → Place → Except Failure FileTree} (frames : Frames before after) {name : Bytes}
    (framing : Framing before after) (made : (b.makeTemporary s directory before after make).1 = .ok p)
    (place : b.place p = b.place directory ++ [name]) : Drawable b name := by
  have isPath : p = directory / Path.ofString (before ++ b.draw s.tree before after ++ after) := by
    unfold makeTemporary at made
    dsimp only at made
    split at made
    · exact (Except.ok.inj made).symm
    · cases made
  rw [isPath, place_entry b directory (frames _ (b.draw_sign s.tree before after))] at place
  exact ⟨s.tree, before, after, framing, (List.singleton_inj.mp (List.append_inj' place rfl).2).symm⟩

theorem Step.enter {t u : State} {x : Scratch} {node : Node} (fresh : Fresh t.tree.node? x.twin)
    (view : u.tree.node? = View.put t.tree.node? x.other (some node)) (started : t.started <+: u.started) :
    Step k g { g with scratch := some x } t u where
  changed := by
    intro q differs
    by_cases here : q = x.other
    · exact .scratch x (.inr rfl) (here ▸ List.prefix_refl _)
    · rw [view, View.put_other here] at differs
      exact absurd rfl differs
  directories := by
    intro q there
    left
    have other : q ≠ x.other := by
      rintro rfl
      rw [View.directory, fresh.free (by simp [Scratch.other])] at there
      cases there
    rwa [view, View.directory, View.put_other other]
  started := started
  new := by
    intro y known
    obtain rfl := Option.some.inj known
    exact .inr fresh

theorem twin_temporaryDirectory (orderly : Orderly b k) {before after : String}
    (frames : Frames before after) (framing : Framing before after)
    (level : b.place b.temporary ∈ k.floors) :
    Twin b k (Match (fun f p q => ∃ x, x.folder = true ∧ Entered b g f x p q ∧ p.isAbsolute ∧ q.isAbsolute)
      (At g Any)) (Program.temporaryDirectory before after) (Program.temporaryDirectory before after) g := by
  refine .once ⟨.temporaryDirectory before after, id, rfl⟩ ⟨.temporaryDirectory before after, id, rfl⟩
    fun s t _ _ mirror => ?_
  have floor := mirror.alike.floors _ level
  obtain ⟨p, name, u, ran, named, absolute, place, drawn, view⟩ := run_temporaryDirectory frames floor.1
  obtain ⟨q, twin, u', ranToo, namedToo, absoluteToo, placeToo, drawnToo, viewToo⟩ :=
    run_temporaryDirectory frames floor.2
  have drawable := drawable_of_made frames framing (congrArg Prod.fst ran) place
  have drawableToo := drawable_of_made frames framing (congrArg Prod.fst ranToo) placeToo
  rw [ran, ranToo]
  let x : Scratch := ⟨b.place b.temporary, name, twin, true⟩
  refine ⟨{ g with scratch := some x }, ⟨?_, mirror.waiting⟩, ?_, x, rfl,
    ⟨rfl, place, placeToo, named, namedToo⟩, absolute, absoluteToo⟩
  · rw [view, viewToo, place, placeToo]
    exact mirror.alike.enter orderly (x := x) level drawable drawableToo drawn.fresh drawnToo.fresh
      fun _ => rfl
  · exact Step.enter (x := x) drawnToo.fresh (placeToo ▸ viewToo) (List.prefix_refl _)

theorem twin_temporaryFile (orderly : Orderly b k) {directory : Path} {before after : String}
    (frames : Frames before after) (framing : Framing before after) (level : b.place directory ∈ k.floors) :
    Twin b k (Match (fun f p q => ∃ x, Entered b g f x p q) (At g Any))
      (Program.temporaryFile directory before after) (Program.temporaryFile directory before after) g := by
  refine .once ⟨.temporaryFile directory before after, id, rfl⟩
    ⟨.temporaryFile directory before after, id, rfl⟩ fun s t _ _ mirror => ?_
  have floor := mirror.alike.floors _ level
  obtain ⟨p, name, u, ran, named, place, drawn, view⟩ := run_temporaryFile frames floor.1
  obtain ⟨q, twin, u', ranToo, namedToo, placeToo, drawnToo, viewToo⟩ := run_temporaryFile frames floor.2
  have made : (b.makeTemporary s directory before after fun t place => write t place []).1 = .ok p :=
    congrArg Prod.fst ran
  have madeToo : (b.makeTemporary t directory before after fun t place => write t place []).1 = .ok q :=
    congrArg Prod.fst ranToo
  have drawable := drawable_of_made frames framing made place
  have drawableToo := drawable_of_made frames framing madeToo placeToo
  rw [ran, ranToo]
  let x : Scratch := ⟨b.place directory, name, twin, false⟩
  refine ⟨{ g with scratch := some x }, ⟨?_, mirror.waiting⟩, ?_, x,
    ⟨rfl, place, placeToo, named, namedToo⟩⟩
  · rw [view, viewToo, place, placeToo]
    exact mirror.alike.enter orderly (x := x) level drawable drawableToo drawn.fresh drawnToo.fresh
      fun folder => by cases folder
  · exact Step.enter (x := x) drawnToo.fresh (placeToo ▸ viewToo) (List.prefix_refl _)

/-- Whether all that changed lies in one place or below it. -/
def Under (place : Place) (v w : View) : Prop := ∀ q, ¬ place <+: q → w q = v q

theorem Step.leave {t u : State} {x : Scratch} (known : g.scratch = some x)
    (under : Under x.other t.tree.node? u.tree.node?) (started : t.started <+: u.started) :
    Step k g { g with scratch := none } t u where
  changed := by
    intro q differs
    by_cases below : x.other <+: q
    · exact .scratch x (.inl known) below
    · exact absurd (under q below) differs
  directories := by
    intro q there
    by_cases below : x.other <+: q
    · exact .inr ⟨x, known, below⟩
    · left
      rwa [directory_congr (under q below)]
  started := started
  new := fun y none => by cases none

/-- Whatever is done to a temporary file last, nothing else is changed. -/
theorem Twin.leave (orderly : Orderly b k) {x : Scratch} (known : g.scratch = some x)
    {p p' : Program (Except Failure Unit)} (one : Single p) (other : Single p')
    {operate operate' : FileTree → Except Failure FileTree}
    (mine : ∀ s, p.run b.host s = Bench.change s (operate s.tree))
    (twin : ∀ s, p'.run b.host s = Bench.change s (operate' s.tree))
    (under : ∀ t u, operate t = .ok u → Under x.root t.node? u.node?)
    (underToo : ∀ t u, operate' t = .ok u → Under x.other t.node? u.node?) :
    Twin b k (At { g with scratch := none } Any) p p' g := by
  have still {place : Place} {operate : FileTree → Except Failure FileTree}
      (under : ∀ t u, operate t = .ok u → Under place t.node? u.node?) (s : State) :
      Under place s.tree.node? (Bench.change s (operate s.tree)).2.tree.node? ∧
        (Bench.change s (operate s.tree)).2.started = s.started := by
    cases done : operate s.tree with
    | ok u => exact ⟨under _ _ done, rfl⟩
    | error cause => exact ⟨fun _ _ => rfl, rfl⟩
  refine .once one other fun s t _ _ mirror => ?_
  rw [mine, twin]
  have left := still under s
  have right := still underToo t
  refine ⟨{ g with scratch := none }, ⟨mirror.alike.drop orderly known left.1 right.1, ?_⟩,
    Step.leave known right.1 (right.2 ▸ List.prefix_refl _), rfl, trivial⟩
  rw [left.2, right.2]
  exact mirror.waiting

theorem remove_under {t u : FileTree} {place : Place} (removed : Trees.remove t place = .ok u) :
    Under place t.node? u.node? := fun q outside =>
  (remove_change removed).1.elsewhere q fun same => outside (same ▸ List.prefix_refl _)

theorem removeTree_under {t u : FileTree} {place : Place} (named : place ≠ [])
    (removed : Trees.removeTree t place = .ok u) : Under place t.node? u.node? := by
  intro q outside
  rw [← removeTree_prune removed, node?_prune named, if_neg outside]

theorem twin_discard (orderly : Orderly b k) {x : Scratch} (known : g.scratch = some x) {p q : Path}
    (mine : b.place p = x.root) (twin : b.place q = x.other) :
    Twin b k (At { g with scratch := none } Any) (Program.remove p) (Program.remove q) g :=
  .leave orderly known ⟨.file (.remove p), id, rfl⟩ ⟨.file (.remove q), id, rfl⟩ (fun _ => rfl)
    (fun _ => rfl) (fun _ _ removed => remove_under (mine ▸ removed))
    fun _ _ removed => remove_under (twin ▸ removed)

theorem twin_removeTree (orderly : Orderly b k) {x : Scratch} (known : g.scratch = some x) {p q : Path}
    (mine : b.place p = x.root) (twin : b.place q = x.other) :
    Twin b k (At { g with scratch := none } Any) (Program.removeTree p) (Program.removeTree q) g :=
  .leave orderly known ⟨.file (.removeTree p), id, rfl⟩ ⟨.file (.removeTree q), id, rfl⟩
    (fun _ => rfl) (fun _ => rfl)
    (fun _ _ removed => removeTree_under (by simp [Scratch.root]) (mine ▸ removed))
    fun _ _ removed => removeTree_under (by simp [Scratch.other]) (twin ▸ removed)

/-- A temporary file gets its final name. -/
theorem twin_rename (orderly : Orderly b k) {x : Scratch} (known : g.scratch = some x) {p q target : Path}
    (mine : b.place p = x.root) (twin : b.place q = x.other) (claimed : b.place target ∈ k.files) :
    Twin b k (Match (At { g with scratch := none } Any) (At g Any)) (Program.rename p target)
      (Program.rename q target) g := by
  refine .once ⟨.file (.rename p target), id, rfl⟩ ⟨.file (.rename q target), id, rfl⟩
    fun s t _ _ mirror => ?_
  rw [run_rename, run_rename, mine, twin]
  have spot : Spot k g (b.place target) (b.place target) := .file claimed
  have same : t.tree.node? x.other = s.tree.node? x.root := by
    simpa using mirror.alike.node (Seen.scratch known [])
  have sameRead : Trees.read t.tree x.other = Trees.read s.tree x.root := by
    rw [Trees.read, Trees.read, same]
  have writable := mirror.alike.writable orderly spot
  cases found : Trees.read s.tree x.root with
  | error cause =>
    rw [rename, rename, sameRead, found]
    exact ⟨g, mirror, .still rfl (List.prefix_refl _) rfl, rfl, trivial⟩
  | ok content =>
    obtain ⟨executable, isFile⟩ := read_eq_ok found
    by_cases free : View.writable s.tree.node? (b.place target)
    · obtain ⟨m, moved, view⟩ := rename_ok isFile free
      obtain ⟨n, movedToo, viewToo⟩ := rename_ok (same.trans isFile) (writable.trans free)
      have put := mirror.alike.put orderly spot (View.writable_iff.mp free).1
        (.inl (Option.some_ne_none (Node.file content false)))
      have under {v : View} {place : Place} :
          Under place (v.put (b.place target) (some (.file content false)))
            ((v.put place none).put (b.place target) (some (.file content false))) := by
        intro q outside
        have other : q ≠ place := fun same => outside (same ▸ List.prefix_refl _)
        by_cases here : q = b.place target
        · rw [here, View.put_self, View.put_self]
        · rw [View.put_other here, View.put_other here, View.put_other other]
      rw [moved, movedToo]
      refine ⟨{ g with scratch := none }, ⟨?_, mirror.waiting⟩, ?_, rfl, trivial⟩
      · show Alike b k _ m.node? n.node?
        rw [view, viewToo]
        exact put.drop orderly known under under
      · have outside {q : Place} (off : ¬ x.other <+: q) : q ≠ x.other := by
          rintro rfl
          exact off (List.prefix_refl _)
        refine ⟨fun q differs => ?_, fun q there => ?_, List.prefix_refl _, fun y none => by cases none⟩
        · by_cases here : q = b.place target
          · exact .own (here ▸ List.mem_append_left _ claimed)
          · by_cases below : x.other <+: q
            · exact .scratch x (.inl known) below
            · refine absurd ?_ differs
              show n.node? q = _
              rw [viewToo, View.put_other here, View.put_other (outside below)]
        · by_cases below : x.other <+: q
          · exact .inr ⟨x, known, below⟩
          · left
            show View.directory n.node? q
            have here : q ≠ b.place target := by
              rintro rfl
              rw [(View.writable_iff.mp (writable.trans free)).1] at there
              cases there
            rw [viewToo, View.directory, View.put_other here, View.put_other (outside below)]
            exact there
    · have refused (tree : FileTree) (place : Place) (isRead : Trees.read tree place = .ok content)
          (no : ¬ View.writable tree.node? (b.place target)) :
          rename tree place (b.place target) = .error (refusal tree.node? (b.place target)) := by
        rw [rename, isRead]
        exact if_neg no
      rw [refused _ _ found free, refused _ _ (sameRead.trans found) (writable ▸ free)]
      exact ⟨g, mirror, .still rfl (List.prefix_refl _) rfl, rfl, trivial⟩

end BugHunt.Proofs.Twins
