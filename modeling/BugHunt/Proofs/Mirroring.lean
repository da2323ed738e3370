import BugHunt.Proofs.Outcomes
/-!
Two states of a bench in which the same check of a program goes on, under other circumstances. They
mirror each other as far as the check can see: what it claims stands at the same places in both,
and what lies in its temporary file in one lies in that of its twin in the other.
-/

namespace BugHunt.Proofs.Mirroring
open Trees Runs Bench Outcomes

/-- The places that a check has to do with, temporary files aside: the program and what stands
there, files that it reads and writes, files that it only writes, entries of the output directory,
and the directories that have to be there. -/
structure Claims where
  source : Place
  origin : Option Node
  files : List Place
  marks : List Place
  outputs : List Place
  floors : List Place
  way : Place

namespace Claims

def written (k : Claims) : List Place := k.files ++ k.marks ++ k.outputs

def places (k : Claims) : List Place := k.source :: k.way :: (k.written ++ k.floors)

end Claims

/-- What stands around the drawn part of the name of a temporary file. -/
inductive Framing : String → String → Prop
  | staging (key : String) : Framing s!".{key}." ".bc"
  | workspace (name : String) : Framing name ".scratch"
  | script : Framing "pareduce-creduce" ""

/-- Whether a name is one that a temporary file can get. -/
def Drawable (b : Bench) (name : Bytes) : Prop :=
  ∃ t before after, Framing before after ∧ name = utf8 (before ++ b.draw t before after ++ after)

/-- Claims that do not get in each other's way, nor in that of directories. -/
structure Orderly (b : Bench) (k : Claims) : Prop where
  readOnly : k.source ∉ k.written
  unread : ∀ q ∈ k.marks, q ∉ k.files ∧ q ∉ k.outputs
  aside : ∀ q ∈ k.source :: k.written, ¬ q <+: k.way
  level : ∀ q ∈ k.files ++ k.marks, q.dropLast ∈ k.floors
  entries : ∀ q ∈ k.outputs, q.dropLast = k.way
  strange : ∀ name, Drawable b name → ∀ q ∈ k.places, name ∉ q

/-- A temporary file or directory, by its name in the one state and in the other. -/
structure Scratch where
  directory : Place
  mine : Bytes
  twin : Bytes
  folder : Bool

namespace Scratch

def root (x : Scratch) : Place := x.directory ++ [x.mine]
def other (x : Scratch) : Place := x.directory ++ [x.twin]

end Scratch

/-- A tool that has been started in both states and not been waited for. -/
structure Waiting where
  child : Nat
  command : Command
  other : Nat
  twin : Command

/-- What is known of the two states at some point of the check. -/
structure Notes where
  scratch : Option Scratch
  opened : Bool
  waiting : Option Waiting

/-- What is known at the start and between the variants. -/
def idle : Notes := ⟨none, false, none⟩

/-- Whether something stands in the way of a directory. -/
def blocked (v : View) (q : Place) : Bool := (v q).any fun node => !node.isDirectory

/-- Whether a temporary file of the one state has its mirror image in the other. -/
structure Reflected (b : Bench) (k : Claims) (x : Scratch) (v w : View) : Prop where
  below : ∀ rest, w (x.other ++ rest) = v (x.root ++ rest)
  there : v x.root ≠ none
  folder : x.folder → v.directory x.root
  level : x.directory ∈ k.floors
  mine : Drawable b x.mine
  twin : Drawable b x.twin

/-- Whether two views look alike to a check. Of files that it only writes it sees whether they are
in its way, and of the way to the output directory what blocks it. -/
structure Alike (b : Bench) (k : Claims) (g : Notes) (v w : View) : Prop where
  origin : v k.source = k.origin
  same : ∀ q ∈ k.source :: (k.files ++ k.outputs), w q = v q
  marks : ∀ q ∈ k.marks, w.directory q = v.directory q
  floors : ∀ d ∈ k.floors, v.directory d ∧ w.directory d
  blocked : ∀ q, q <+: k.way → blocked w q = blocked v q
  opened : g.opened → v.directory k.way ∧ w.directory k.way
  scratch : ∀ x, g.scratch = some x → Reflected b k x v w

/-- Whether two states look alike to a check. -/
structure Mirror (b : Bench) (k : Claims) (g : Notes) (s t : State) : Prop where
  alike : Alike b k g s.tree.node? t.tree.node?
  waiting : ∀ w, g.waiting = some w →
    s.started[w.child]? = some w.command ∧ t.started[w.other]? = some w.twin

/-! ## Knowing less -/

/-- Whether one knows less, or the same. -/
structure Notes.Less (f g : Notes) : Prop where
  scratch : ∀ x, f.scratch = some x → g.scratch = some x
  opened : f.opened → g.opened
  waiting : ∀ w, f.waiting = some w → g.waiting = some w

theorem Notes.Less.refl (g : Notes) : g.Less g := ⟨fun _ h => h, fun h => h, fun _ h => h⟩

theorem Notes.Less.trans {e f g : Notes} (h : e.Less f) (k : f.Less g) : e.Less g :=
  ⟨fun x same => k.scratch x (h.scratch x same), fun same => k.opened (h.opened same),
    fun w same => k.waiting w (h.waiting w same)⟩

variable {b : Bench} {k : Claims} {f g : Notes} {v w : View} {s t u : State}

theorem Alike.less (h : Alike b k g v w) (less : f.Less g) : Alike b k f v w where
  origin := h.origin
  same := h.same
  marks := h.marks
  floors := h.floors
  blocked := h.blocked
  opened := fun isOpen => h.opened (less.opened isOpen)
  scratch := fun x known => h.scratch x (less.scratch x known)

/-- What is waited for does not show in the files. -/
theorem Alike.awaiting (h : Alike b k g v w) (waiting : Option Waiting) :
    Alike b k { g with waiting } v w :=
  ⟨h.origin, h.same, h.marks, h.floors, h.blocked, h.opened, h.scratch⟩

theorem Mirror.less (h : Mirror b k g s t) (less : f.Less g) : Mirror b k f s t :=
  ⟨h.alike.less less, fun w known => h.waiting w (less.waiting w known)⟩

/-! ## Places that correspond -/

/-- The places at which the same stands. -/
inductive Seen (k : Claims) (g : Notes) : Place → Place → Prop
  | source : Seen k g k.source k.source
  | file {q : Place} (claimed : q ∈ k.files) : Seen k g q q
  | output {q : Place} (claimed : q ∈ k.outputs) : Seen k g q q
  | scratch {x : Scratch} (known : g.scratch = some x) (rest : Place) :
    Seen k g (x.root ++ rest) (x.other ++ rest)

/-- The places that the check may write to, and what it writes it reads. -/
inductive Spot (k : Claims) (g : Notes) : Place → Place → Prop
  | file {q : Place} (claimed : q ∈ k.files) : Spot k g q q
  | output {q : Place} (claimed : q ∈ k.outputs) (isOpen : g.opened) : Spot k g q q
  | scratch {x : Scratch} (known : g.scratch = some x) (rest : Place) :
    Spot k g (x.root ++ rest) (x.other ++ rest)

theorem Spot.seen {q r : Place} (h : Spot k g q r) : Seen k g q r := by
  cases h with
  | file claimed => exact .file claimed
  | output claimed _ => exact .output claimed
  | scratch known rest => exact .scratch known rest

theorem Alike.node (h : Alike b k g v w) {q r : Place} (seen : Seen k g q r) : w r = v q := by
  cases seen with
  | source => exact h.same _ (by simp)
  | file claimed => exact h.same _ (by simp [claimed])
  | output claimed => exact h.same _ (by simp [claimed])
  | scratch known rest => exact (h.scratch _ known).below rest

theorem Alike.directory (h : Alike b k g v w) {q r : Place} (seen : Seen k g q r) :
    w.directory r = v.directory q := by
  rw [View.directory, View.directory, h.node seen]

/-- Whether a file can be written does not differ. -/
theorem Alike.writable (h : Alike b k g v w) (orderly : Orderly b k) {q r : Place}
    (spot : Spot k g q r) : w.writable r = v.writable q := by
  have parent : w.directory r.dropLast = v.directory q.dropLast := by
    cases spot with
    | file claimed =>
      have floor := h.floors _ (orderly.level _ (List.mem_append_left _ claimed))
      rw [floor.1, floor.2]
    | output claimed isOpen =>
      rw [orderly.entries _ claimed, (h.opened isOpen).1, (h.opened isOpen).2]
    | @scratch x known rest =>
      by_cases here : rest = []
      · have floor := h.floors _ (h.scratch _ known).level
        subst here
        simp only [Scratch.root, Scratch.other, List.append_nil, List.dropLast_concat]
        rw [floor.1, floor.2]
      · rw [List.dropLast_append_of_ne_nil here, List.dropLast_append_of_ne_nil here]
        exact h.directory (.scratch known rest.dropLast)
  rw [View.writable, View.writable, h.directory spot.seen, parent]

/-- A mark can be made in both or in none. -/
theorem Alike.writable_mark (h : Alike b k g v w) (orderly : Orderly b k) {q : Place}
    (mark : q ∈ k.marks) : w.writable q = v.writable q := by
  have floor := h.floors _ (orderly.level _ (List.mem_append_right _ mark))
  rw [View.writable, View.writable, h.marks q mark, floor.1, floor.2]

section Names

variable {p q r : Place}

theorem ne_below {directory rest : Place} {name : Bytes} (strange : name ∉ p) :
    p ≠ directory ++ [name] ++ rest := by
  rintro rfl
  exact strange (by simp)

theorem not_below {directory : Place} {name : Bytes} (strange : name ∉ p) :
    ¬ directory ++ [name] <+: p :=
  fun below => strange (below.subset (by simp))

theorem Claims.mem_places (claimed : p ∈ k.source :: k.written) : p ∈ k.places := by
  simp only [Claims.places, List.mem_cons, List.mem_append] at claimed ⊢
  rcases claimed with same | among
  · exact .inl same
  · exact .inr (.inr (.inl among))

theorem Claims.way_mem_places : k.way ∈ k.places := by simp [Claims.places]

theorem Claims.floor_mem_places (floor : p ∈ k.floors) : p ∈ k.places := by
  simp [Claims.places, floor]

theorem Claims.read_mem (read : p ∈ k.source :: (k.files ++ k.outputs)) :
    p ∈ k.source :: k.written := by
  simp only [Claims.written, List.mem_cons, List.mem_append] at read ⊢
  rcases read with same | file | output
  · exact .inl same
  · exact .inr (.inl (.inl file))
  · exact .inr (.inr output)

theorem Claims.own_mem (own : p ∈ k.files ++ k.outputs) : p ∈ k.written := by
  simp only [Claims.written, List.mem_append] at own ⊢
  exact own.imp_left .inl

theorem Claims.mark_mem (mark : p ∈ k.marks) : p ∈ k.source :: k.written := by
  simp [Claims.written, mark]

/-- Whether no temporary file can have one of the names that lead to a place. -/
def Plain (b : Bench) (p : Place) : Prop := ∀ name, Drawable b name → name ∉ p

theorem Orderly.plain (orderly : Orderly b k) (claimed : p ∈ k.places) : Plain b p :=
  fun name drawable => orderly.strange name drawable p claimed

theorem Orderly.plain_way (orderly : Orderly b k) (on : p <+: k.way) : Plain b p :=
  fun name drawable found => orderly.strange name drawable _ Claims.way_mem_places (on.subset found)

theorem Reflected.apart {x : Scratch} (h : Reflected b k x v w) (plain : Plain b p) (rest : Place) :
    x.root ++ rest ≠ p ∧ x.other ++ rest ≠ p :=
  ⟨(ne_below (plain _ h.mine)).symm, (ne_below (plain _ h.twin)).symm⟩

/-- What is written is one of the files that are read, or has a name that no other place has. -/
theorem Spot.meets (h : Alike b k g v w) (spot : Spot k g q r) (plain : Plain b p) :
    (p = q ∧ p = r ∧ (p ∈ k.files ∨ p ∈ k.outputs)) ∨ (p ≠ q ∧ p ≠ r) := by
  have own {q : Place} (claimed : q ∈ k.files ∨ q ∈ k.outputs) :
      (p = q ∧ p = q ∧ (p ∈ k.files ∨ p ∈ k.outputs)) ∨ (p ≠ q ∧ p ≠ q) := by
    by_cases same : p = q
    · exact .inl ⟨same, same, same ▸ claimed⟩
    · exact .inr ⟨same, same⟩
  cases spot with
  | file claimed => exact own (.inl claimed)
  | output claimed _ => exact own (.inr claimed)
  | scratch known rest =>
    have reflected := h.scratch _ known
    exact .inr ⟨ne_below (plain _ reflected.mine), ne_below (plain _ reflected.twin)⟩

theorem Spot.ne (h : Alike b k g v w) (spot : Spot k g q r) (plain : Plain b p)
    (unread : p ∉ k.files ∧ p ∉ k.outputs) : p ≠ q ∧ p ≠ r := by
  rcases spot.meets h plain with ⟨-, -, read⟩ | apart
  · exact absurd read (by simpa using unread)
  · exact apart

end Names

/-- Whether two paths lead to places at which the same stands. -/
structure Shown (b : Bench) (k : Claims) (g : Notes) (p q : Path) : Prop where
  seen : Seen k g (b.place p) (b.place q)
  idle : endsIdle p = endsIdle q

theorem Mirror.readAt {s t : State} (h : Mirror b k g s t) {p q : Path} (shown : Shown b k g p q) :
    b.readAt t q = b.readAt s p := by
  unfold Bench.readAt Trees.read
  rw [h.alike.node shown.seen, shown.idle]

theorem Mirror.of_alike {s t : State} (h : Mirror b k g s t) {m n : FileTree}
    (alike : Alike b k g m.node? n.node?) :
    Mirror b k g { s with tree := m } { t with tree := n } := ⟨alike, h.waiting⟩

/-! ## Changes in both views -/

section Changes

variable {q r : Place} {x : Scratch}

/-- Writing the same at places that correspond. -/
theorem Alike.put (h : Alike b k g v w) (orderly : Orderly b k) (spot : Spot k g q r)
    {node : Option Node} (free : v.directory q = false)
    (stays : node ≠ none ∨ ∀ x, g.scratch = some x → q ≠ x.root) :
    Alike b k g (v.put q node) (w.put r node) := by
  have freeToo : w.directory r = false := by rw [h.directory spot.seen, free]
  have kept {u : View} {r d : Place} (free : u.directory r = false) (there : u.directory d) :
      (u.put r node).directory d := by
    have other : d ≠ r := by
      rintro rfl
      rw [free] at there
      cases there
    rwa [View.directory, View.put_other other]
  have source := spot.ne h (orderly.plain (Claims.mem_places (List.mem_cons_self ..)))
    ⟨fun file => orderly.readOnly (by simp [Claims.written, file]),
      fun output => orderly.readOnly (by simp [Claims.written, output])⟩
  constructor
  · rw [View.put_other source.1]
    exact h.origin
  · intro p read
    rcases spot.meets h (orderly.plain (Claims.mem_places (Claims.read_mem read))) with
      ⟨rfl, rfl, -⟩ | ⟨mine, twin⟩
    · rw [View.put_self, View.put_self]
    · rw [View.put_other mine, View.put_other twin]
      exact h.same p read
  · intro p mark
    obtain ⟨mine, twin⟩ := spot.ne h (orderly.plain (Claims.mem_places (Claims.mark_mem mark)))
      (orderly.unread p mark)
    rw [View.directory, View.directory, View.put_other mine, View.put_other twin]
    exact h.marks p mark
  · exact fun d floor => ⟨kept free (h.floors d floor).1, kept freeToo (h.floors d floor).2⟩
  · intro p on
    have aside : p ∉ k.files ∧ p ∉ k.outputs :=
      ⟨fun file => orderly.aside p (by simp [Claims.written, file]) on,
        fun output => orderly.aside p (by simp [Claims.written, output]) on⟩
    obtain ⟨mine, twin⟩ := spot.ne h (orderly.plain_way on) aside
    rw [Mirroring.blocked, Mirroring.blocked, View.put_other mine, View.put_other twin]
    exact h.blocked p on
  · exact fun isOpen => ⟨kept free (h.opened isOpen).1, kept freeToo (h.opened isOpen).2⟩
  · intro x known
    have reflected := h.scratch x known
    refine ⟨fun rest => ?_, ?_, fun folder => kept free (reflected.folder folder), reflected.level,
      reflected.mine, reflected.twin⟩
    · cases spot with
      | file claimed =>
        have plain := orderly.plain (Claims.mem_places (k := k) (p := q)
          (by simp [Claims.written, claimed]))
        rw [View.put_other (reflected.apart plain rest).1, View.put_other (reflected.apart plain rest).2]
        exact reflected.below rest
      | output claimed _ =>
        have plain := orderly.plain (Claims.mem_places (k := k) (p := q)
          (by simp [Claims.written, claimed]))
        rw [View.put_other (reflected.apart plain rest).1, View.put_other (reflected.apart plain rest).2]
        exact reflected.below rest
      | @scratch y knownToo within =>
        obtain rfl : x = y := Option.some.inj (known.symm.trans knownToo)
        by_cases same : rest = within
        · rw [same, View.put_self, View.put_self]
        · rw [View.put_other (by simpa using same), View.put_other (by simpa using same)]
          exact reflected.below rest
    · by_cases here : x.root = q
      · rcases stays with some | other
        · rw [here, View.put_self]
          exact some
        · exact absurd here.symm (other x known)
      · rw [View.put_other here]
        exact reflected.there

/-- Writing something at a place that the check does not read. -/
theorem Alike.mark (h : Alike b k g v w) (orderly : Orderly b k) (mark : q ∈ k.marks)
    {m n : Option Node} (free : v.directory q = false) (mine : m.any Node.isDirectory = false)
    (twin : n.any Node.isDirectory = false) : Alike b k g (v.put q m) (w.put q n) := by
  have freeToo : w.directory q = false := by rw [h.marks q mark, free]
  have claimed : q ∈ k.written := by simp [Claims.written, mark]
  have plain := orderly.plain (Claims.mem_places (Claims.mark_mem mark))
  constructor
  · have other : k.source ≠ q := fun same => orderly.readOnly (same.symm ▸ claimed)
    rw [View.put_other other]
    exact h.origin
  · intro p read
    have other : p ≠ q := by
      rintro rfl
      rcases List.mem_cons.mp read with same | among
      · exact orderly.readOnly (same ▸ claimed)
      · exact absurd (List.mem_append.mp among) (by simpa using orderly.unread p mark)
    rw [View.put_other other, View.put_other other]
    exact h.same p read
  · intro p marked
    rw [View.directory_put free mine, View.directory_put freeToo twin]
    exact h.marks p marked
  · intro d floor
    rw [View.directory_put free mine, View.directory_put freeToo twin]
    exact h.floors d floor
  · intro p on
    have other : p ≠ q := by
      rintro rfl
      exact orderly.aside p (Claims.mark_mem mark) on
    rw [Mirroring.blocked, Mirroring.blocked, View.put_other other, View.put_other other]
    exact h.blocked p on
  · rw [View.directory_put free mine, View.directory_put freeToo twin]
    exact h.opened
  · intro x known
    have reflected := h.scratch x known
    refine ⟨fun rest => ?_, ?_, ?_, reflected.level, reflected.mine, reflected.twin⟩
    · rw [View.put_other (reflected.apart plain rest).1, View.put_other (reflected.apart plain rest).2]
      exact reflected.below rest
    · rw [View.put_other (by simpa using (reflected.apart plain []).1)]
      exact reflected.there
    · rw [View.directory_put free mine]
      exact reflected.folder

/-- Changes in both views that spare what is claimed. -/
theorem Alike.update (h : Alike b k g v w) {v' w' : View}
    (claimed : ∀ p ∈ k.source :: (k.files ++ k.outputs), v' p = v p ∧ w' p = w p)
    (marks : ∀ p ∈ k.marks, v'.directory p = v.directory p ∧ w'.directory p = w.directory p)
    (floors : ∀ d ∈ k.floors, v'.directory d ∧ w'.directory d)
    (unblocked : ∀ p, p <+: k.way →
      Mirroring.blocked v' p = Mirroring.blocked v p ∧ Mirroring.blocked w' p = Mirroring.blocked w p)
    (opened : f.opened → v'.directory k.way ∧ w'.directory k.way)
    (scratch : ∀ x, f.scratch = some x → Reflected b k x v' w') : Alike b k f v' w' where
  origin := by
    rw [(claimed k.source (List.mem_cons_self ..)).1]
    exact h.origin
  same := by
    intro p read
    rw [(claimed p read).1, (claimed p read).2]
    exact h.same p read
  marks := by
    intro p mark
    rw [(marks p mark).1, (marks p mark).2]
    exact h.marks p mark
  floors := floors
  blocked := by
    intro p on
    rw [(unblocked p on).1, (unblocked p on).2]
    exact h.blocked p on
  opened := opened
  scratch := scratch

theorem blocked_congr {u u' : View} {p : Place} (same : u' p = u p) :
    blocked u' p = blocked u p := by
  rw [blocked, blocked, same]

theorem marked {v v' w w' : View} {p : Place} (same : v' p = v p ∧ w' p = w p) :
    v'.directory p = v.directory p ∧ w'.directory p = w.directory p :=
  ⟨directory_congr same.1, directory_congr same.2⟩

/-- What happens in a temporary file that is not looked at any more. -/
theorem Alike.drop (h : Alike b k g v w) (orderly : Orderly b k) (known : g.scratch = some x)
    {v' w' : View} (mine : ∀ q, ¬ x.root <+: q → v' q = v q)
    (twin : ∀ q, ¬ x.other <+: q → w' q = w q) :
    Alike b k { g with scratch := none } v' w' := by
  have reflected := h.scratch x known
  have still {p : Place} (plain : Plain b p) : v' p = v p ∧ w' p = w p :=
    ⟨mine p (not_below (plain _ reflected.mine)), twin p (not_below (plain _ reflected.twin))⟩
  have directory {p : Place} (claimed : p ∈ k.places) (there : v.directory p ∧ w.directory p) :
      v'.directory p ∧ w'.directory p := by
    have same := still (orderly.plain claimed)
    rwa [directory_congr same.1, directory_congr same.2]
  refine h.update (fun p read => still (orderly.plain (Claims.mem_places (Claims.read_mem read))))
    (fun p mark => marked (still (orderly.plain (Claims.mem_places (Claims.mark_mem mark)))))
    (fun d floor => directory (Claims.floor_mem_places floor) (h.floors d floor)) (fun p on => ?_)
    (fun isOpen => directory Claims.way_mem_places (h.opened isOpen)) fun y none => ?_
  · have same := still (orderly.plain_way on)
    exact ⟨blocked_congr same.1, blocked_congr same.2⟩
  · cases none

/-- A new temporary file or directory. -/
theorem Alike.enter (h : Alike b k g v w) (orderly : Orderly b k) {node : Node}
    (level : x.directory ∈ k.floors) (mine : Drawable b x.mine) (twin : Drawable b x.twin)
    (fresh : Fresh v x.mine) (freshToo : Fresh w x.twin) (folder : x.folder → node.isDirectory) :
    Alike b k { g with scratch := some x } (v.put x.root (some node)) (w.put x.other (some node)) := by
  have free : v x.root = none := fresh.free (by simp [Scratch.root])
  have freeToo : w x.other = none := freshToo.free (by simp [Scratch.other])
  have still {p : Place} (plain : Plain b p) :
      v.put x.root (some node) p = v p ∧ w.put x.other (some node) p = w p := by
    have apart {name : Bytes} (drawable : Drawable b name) : p ≠ x.directory ++ [name] := by
      rintro rfl
      exact plain _ drawable (by simp)
    exact ⟨View.put_other (apart mine), View.put_other (apart twin)⟩
  have directory {p : Place} (claimed : p ∈ k.places) (there : v.directory p ∧ w.directory p) :
      (v.put x.root (some node)).directory p ∧ (w.put x.other (some node)).directory p := by
    have same := still (orderly.plain claimed)
    rwa [directory_congr same.1, directory_congr same.2]
  refine h.update (fun p read => still (orderly.plain (Claims.mem_places (Claims.read_mem read))))
    (fun p mark => marked (still (orderly.plain (Claims.mem_places (Claims.mark_mem mark)))))
    (fun d floor => directory (Claims.floor_mem_places floor) (h.floors d floor)) (fun p on => ?_)
    (fun isOpen => directory Claims.way_mem_places (h.opened isOpen)) fun y known => ?_
  · have same := still (orderly.plain_way on)
    exact ⟨blocked_congr same.1, blocked_congr same.2⟩
  · obtain rfl := Option.some.inj known
    refine ⟨fun rest => ?_, by simp, fun isFolder => ?_, level, mine, twin⟩
    · by_cases here : rest = []
      · subst here
        simp only [List.append_nil, View.put_self]
      · rw [View.put_other (by simpa using here), View.put_other (by simpa using here),
          fresh.free (by simp [Scratch.root]), freshToo.free (by simp [Scratch.other])]
    · rw [View.directory, View.put_self]
      exact folder isFolder

theorem Extends.blocked {u u' : View} {place : Place} (more : Extends u u' place) (p : Place) :
    Mirroring.blocked u' p = Mirroring.blocked u p := by
  by_cases same : u' p = u p
  · exact blocked_congr same
  · have free : u p = none := by
      by_cases none : u p = none
      · exact none
      · exact absurd (more.kept p none) same
    rw [Mirroring.blocked, Mirroring.blocked, (more.new p same).2, free]
    rfl

/-- The output directory comes to be there, or is. -/
theorem Alike.reach (h : Alike b k g v w) (orderly : Orderly b k) {v' w' : View}
    (mine : Extends v v' k.way) (twin : Extends w w' k.way) (there : v'.directory k.way)
    (thereToo : w'.directory k.way) : Alike b k { g with opened := true } v' w' := by
  have off {u u' : View} (more : Extends u u' k.way) {p : Place} (aside : ¬ p <+: k.way) :
      u' p = u p := by
    by_cases same : u' p = u p
    · exact same
    · exact absurd (more.new p same).1 aside
  have still {p : Place} (claimed : p ∈ k.source :: k.written) : v' p = v p ∧ w' p = w p :=
    ⟨off mine (orderly.aside p claimed), off twin (orderly.aside p claimed)⟩
  refine h.update (fun p read => still (Claims.read_mem read))
    (fun p mark => marked (still (Claims.mark_mem mark)))
    (fun d floor => ⟨mine.change.directories d (h.floors d floor).1,
      twin.change.directories d (h.floors d floor).2⟩)
    (fun p _ => ⟨Extends.blocked mine p, Extends.blocked twin p⟩) (fun _ => ⟨there, thereToo⟩)
    fun x known => ?_
  have reflected := h.scratch x known
  have aside {directory rest : Place} {name : Bytes} (drawable : Drawable b name) :
      ¬ directory ++ [name] ++ rest <+: k.way := fun on =>
    orderly.strange _ drawable _ Claims.way_mem_places (on.subset (by simp))
  refine ⟨fun rest => ?_, ?_, fun folder => mine.change.directories _ (reflected.folder folder),
    reflected.level, reflected.mine, reflected.twin⟩
  · rw [Scratch.root, Scratch.other, off mine (aside reflected.mine), off twin (aside reflected.twin)]
    exact reflected.below rest
  · rw [mine.kept _ reflected.there]
    exact reflected.there

end Changes

/-! ## What one check does to the state that it shares with others -/

/-- The ways in which a step of a check can change what stands at a place. -/
inductive Touched (k : Claims) (f g : Notes) (v w : View) (q : Place) : Prop
  | own (claimed : q ∈ k.files ++ k.outputs)
  | mark (claimed : q ∈ k.marks) (same : w.directory q = v.directory q)
  | scratch (x : Scratch) (known : f.scratch = some x ∨ g.scratch = some x) (below : x.other <+: q)
  | way (on : q <+: k.way) (free : v q = none) (made : w q = some .directory)

/-- Whether a step of a check changes no more than what it claims, its temporary file and the way
to the output directory. A temporary file that it makes has a new name. -/
structure Step (k : Claims) (f g : Notes) (t u : State) : Prop where
  changed : ∀ q, u.tree.node? q ≠ t.tree.node? q → Touched k f g t.tree.node? u.tree.node? q
  directories : ∀ q, View.directory t.tree.node? q →
    View.directory u.tree.node? q ∨ ∃ x, f.scratch = some x ∧ x.other <+: q
  started : t.started <+: u.started
  new : ∀ x, g.scratch = some x → f.scratch = some x ∨ Fresh t.tree.node? x.twin

theorem Step.still (same : u.tree = t.tree) (started : t.started <+: u.started)
    (scratch : g.scratch = f.scratch) : Step k f g t u where
  changed := fun q differs => absurd (by rw [same]) differs
  directories := fun q there => .inl (same.symm ▸ there)
  started := started
  new := fun x known => .inl (scratch ▸ known)

/-- Whether a place is one that a check may read what it writes at. -/
def Own (k : Claims) (g : Notes) (q : Place) : Prop :=
  q ∈ k.files ++ k.outputs ∨ ∃ x, g.scratch = some x ∧ x.other <+: q

theorem Spot.own {q r : Place} (spot : Spot k g q r) : Own k g r := by
  cases spot with
  | file claimed => exact .inl (List.mem_append_left _ claimed)
  | output claimed _ => exact .inl (List.mem_append_right _ claimed)
  | scratch known rest => exact .inr ⟨_, known, List.prefix_append _ _⟩

theorem Step.of_change {t u : State} (change : Change (Own k g) t.tree.node? u.tree.node?)
    (started : t.started <+: u.started) (scratch : f.scratch = g.scratch) : Step k g f t u where
  changed := by
    intro q differs
    by_cases own : Own k g q
    · rcases own with claimed | ⟨x, known, below⟩
      · exact .own claimed
      · exact .scratch x (.inl known) below
    · exact absurd (change.elsewhere q own) differs
  directories := fun q there => .inl (change.directories q there)
  started := started
  new := fun x known => .inl (scratch ▸ known)

/-- A step after which less is known than before, or from where more was known. -/
theorem Step.less {e : Notes} (h : Step k f g t u) (less : f.Less e) : Step k e g t u where
  changed := by
    intro q differs
    cases h.changed q differs with
    | own claimed => exact .own claimed
    | mark claimed same => exact .mark claimed same
    | scratch x known below => exact .scratch x (known.imp_left (less.scratch x)) below
    | way on free made => exact .way on free made
  directories := by
    intro q there
    rcases h.directories q there with stays | ⟨x, known, below⟩
    · exact .inl stays
    · exact .inr ⟨x, less.scratch x known, below⟩
  started := h.started
  new := fun x known => (h.new x known).imp_left (less.scratch x)

/-- Two temporary files with different names lie apart. -/
theorem other_apart {x y : Scratch} (names : x.twin ≠ y.twin) (mine : x.twin ∉ y.directory)
    (twin : y.twin ∉ x.directory) (rest : Place) : ¬ y.other <+: x.other ++ rest := by
  have last {x y : Scratch} (names : x.twin ≠ y.twin) (twin : y.twin ∉ x.directory) :
      ¬ y.other <+: x.other := by
    intro below
    rcases List.prefix_concat_iff.mp below with same | above
    · exact names (List.singleton_inj.mp (List.append_inj' same rfl).2).symm
    · exact twin (above.subset (by simp [Scratch.other]))
  intro below
  rcases List.prefix_or_prefix_of_prefix below (List.prefix_append x.other rest) with above | under
  · exact last names twin above
  · exact last names.symm mine under

/-- The temporary file of one check is none of those of another. -/
theorem Step.names {j : Claims} {e : Notes} (h : Mirror b k g s t) (step : Step j e f t u)
    {x y : Scratch} (mine : g.scratch = some x) (known : e.scratch = some y ∨ f.scratch = some y)
    (before : ∀ y, e.scratch = some y → x.twin ≠ y.twin) : x.twin ≠ y.twin := by
  have apart (known : e.scratch = some y ∨ Fresh t.tree.node? y.twin) : x.twin ≠ y.twin := by
    rcases known with old | fresh
    · exact before y old
    · have reflected := h.alike.scratch x mine
      have there : t.tree.node? x.other ≠ none := by
        have same := reflected.below []
        rw [List.append_nil, List.append_nil] at same
        rw [same]
        exact reflected.there
      intro same
      exact fresh _ there (by simp [Scratch.other, same])
  rcases known with old | new
  · exact apart (.inl old)
  · exact apart (step.new y new)

/-- Whether a check reads nothing that another writes. What both only write does not matter. -/
structure Apart (k j : Claims) : Prop where
  read : ∀ q ∈ k.source :: (k.files ++ k.outputs), q ∉ j.written
  marks : ∀ q ∈ k.marks, q ∉ j.files ++ j.outputs

/-- What one check knows stays true whatever another does that claims other places. -/
theorem Mirror.stable {j : Claims} {e : Notes} (h : Mirror b k g s t) (step : Step j e f t u)
    (orderly : Orderly b k) (others : Orderly b j) (sameWay : j.way = k.way) (apart : Apart k j)
    (drawable : ∀ y, e.scratch = some y ∨ f.scratch = some y →
      Drawable b y.twin ∧ y.directory ∈ j.floors)
    (names : ∀ x y, g.scratch = some x → e.scratch = some y → x.twin ≠ y.twin) :
    Mirror b k g s u := by
  have strange {p : Place} (plain : Plain b p) {y : Scratch}
      (known : e.scratch = some y ∨ f.scratch = some y) : ¬ y.other <+: p :=
    not_below (plain _ (drawable y known).1)
  have read {p : Place} (read : p ∈ k.source :: (k.files ++ k.outputs)) :
      u.tree.node? p = t.tree.node? p := by
    by_cases same : u.tree.node? p = t.tree.node? p
    · exact same
    · have claimed := Claims.read_mem read
      cases step.changed p same with
      | own own => exact absurd (Claims.own_mem own) (apart.read p read)
      | mark mark _ => exact absurd (by simp [Claims.written, mark]) (apart.read p read)
      | scratch y known below =>
        exact absurd below (strange (orderly.plain (Claims.mem_places claimed)) known)
      | way on _ _ => exact absurd (sameWay ▸ on) (orderly.aside p claimed)
  have marks {p : Place} (mark : p ∈ k.marks) :
      View.directory u.tree.node? p = View.directory t.tree.node? p := by
    by_cases same : u.tree.node? p = t.tree.node? p
    · exact directory_congr same
    · have claimed := Claims.mark_mem mark
      cases step.changed p same with
      | own own => exact absurd own (apart.marks p mark)
      | mark _ same => exact same
      | scratch y known below =>
        exact absurd below (strange (orderly.plain (Claims.mem_places claimed)) known)
      | way on _ _ => exact absurd (sameWay ▸ on) (orderly.aside p claimed)
  have directory {p : Place} (plain : Plain b p) (there : View.directory t.tree.node? p) :
      View.directory u.tree.node? p := by
    rcases step.directories p there with stays | ⟨y, known, below⟩
    · exact stays
    · exact absurd below (strange plain (.inl known))
  refine ⟨h.alike.update (fun p among => ⟨rfl, read among⟩) (fun p mark => ⟨rfl, marks mark⟩)
    (fun d floor => ?_) (fun p on => ?_) (fun isOpen => ?_) fun x known => ?_, fun w known => ?_⟩
  · have plain := orderly.plain (Claims.floor_mem_places floor)
    exact ⟨(h.alike.floors d floor).1, directory plain (h.alike.floors d floor).2⟩
  · refine ⟨rfl, ?_⟩
    by_cases same : u.tree.node? p = t.tree.node? p
    · exact blocked_congr same
    · cases step.changed p same with
      | own own =>
        exact absurd (sameWay.symm ▸ on) (others.aside p (List.mem_cons_of_mem _ (Claims.own_mem own)))
      | mark mark _ => exact absurd (sameWay.symm ▸ on) (others.aside p (Claims.mark_mem mark))
      | scratch y known below => exact absurd below (strange (orderly.plain_way on) known)
      | way _ free made =>
        rw [Mirroring.blocked, Mirroring.blocked, free, made]
        rfl
  · have plain := orderly.plain Claims.way_mem_places
    exact ⟨(h.alike.opened isOpen).1, directory plain (h.alike.opened isOpen).2⟩
  · have reflected := h.alike.scratch x known
    have kept (rest : Place) : u.tree.node? (x.other ++ rest) = t.tree.node? (x.other ++ rest) := by
      have strangeToo {q : Place} (plain : Plain b q) : ¬ q = x.other ++ rest :=
        fun same => (reflected.apart plain rest).2 same.symm
      by_cases same : u.tree.node? (x.other ++ rest) = t.tree.node? (x.other ++ rest)
      · exact same
      · cases step.changed _ same with
        | own own => exact absurd rfl (strangeToo (others.plain
            (Claims.mem_places (List.mem_cons_of_mem _ (Claims.own_mem own)))))
        | mark mark _ =>
          exact absurd rfl (strangeToo (others.plain (Claims.mem_places (Claims.mark_mem mark))))
        | scratch y knownToo below =>
          refine absurd below (other_apart (step.names h known knownToo fun y => names x y known) ?_ ?_ rest)
          · exact others.plain (Claims.floor_mem_places (drawable y knownToo).2) _ reflected.twin
          · exact orderly.plain (Claims.floor_mem_places reflected.level) _ (drawable y knownToo).1
        | way on _ _ => exact absurd rfl (strangeToo (others.plain_way on))
    refine ⟨fun rest => (kept rest).trans (reflected.below rest), reflected.there, reflected.folder,
      reflected.level, reflected.mine, reflected.twin⟩
  · have there := (h.waiting w known).2
    obtain ⟨more, same⟩ := step.started
    refine ⟨(h.waiting w known).1, ?_⟩
    rw [← same, List.getElem?_append_left (List.getElem?_eq_some_iff.mp there).1]
    exact there

end BugHunt.Proofs.Mirroring
