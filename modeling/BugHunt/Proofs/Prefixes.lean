import BugHunt.Proofs.Walking
/-!
What a path leads over. Where a path leads somewhere, so does each path whose components begin it, unless
that one asks by a slash or a dot at its end for a directory that is none.
-/

namespace BugHunt.Proofs.Prefixes
open AbsoluteForms FileTree Names Walking

variable {t u : FileTree} {links : Nat} {here P : Place} {node : Node}

/-- Where a path is followed from. -/
def start (here : Place) (p : Path) : Place := if p.isAbsolute then [] else here

/-- What a path leads to, if it leads to anything. -/
def Finds (t : FileTree) (here : Place) (p : Path) (node : Node) : Prop := t.stat here p = .ok node

theorem finds_iff {p : Path} : Finds t here p node ↔ p.bytes ≠ [] ∧ p.bytes.length ≤ longestPath ∧
    ∃ P, Trail t mostLinks (start here p) p.pieces P node := by
  simp only [trail_iff]
  unfold Finds stat existing find start
  by_cases empty : p.bytes = []
  · simp [empty, bind, Except.bind, Functor.map, Except.map]
  by_cases long : longestPath < p.bytes.length
  · simp [long, Nat.not_le_of_lt long, empty, bind, Except.bind, Functor.map, Except.map]
  rw [if_neg empty, if_neg long]
  cases t.walk true mostLinks (if p.isAbsolute then [] else here) p.pieces with
  | error cause => simp [bind, Except.bind, Functor.map, Except.map]
  | ok target =>
    obtain ⟨Q, found⟩ := target
    cases found <;> simp [empty, Nat.le_of_not_lt long, bind, Except.bind, Functor.map, Except.map]

theorem exists_iff {p : Path} : t.exists here p ↔ ∃ node, Finds t here p node := by
  unfold FileTree.exists Finds
  cases t.stat here p <;> simp [Except.toOption]

theorem Finds.isDirectory {p : Path} (finds : Finds t here p node) :
    t.isDirectory here p = node.isDirectory := by
  rw [FileTree.isDirectory, show t.stat here p = .ok node from finds]
  rfl

/-- Whether the components of a path begin those of another one. -/
def Begins (p q : Path) : Prop := p.components <+: q.components

theorem body_ne_root {ps : List Bytes} : .root ∉ ps.filterMap Path.Component.ofPiece? := by
  intro found
  obtain ⟨piece, -, is⟩ := List.mem_filterMap.mp found
  obtain ⟨-, up⟩ | ⟨-, named⟩ := ofPiece?_eq_some.mp is
  · cases up
  · cases named

theorem isAbsolute_iff {p : Path} : p.isAbsolute ↔ p.components.head? = some .root := by
  unfold Path.components
  dsimp only
  split
  · simp [*]
  · rename_i relative
    refine iff_of_false relative ?_
    split
    · simp
    · exact fun isHead => body_ne_root (List.mem_of_mem_head? isHead)

theorem components_ne_nil {p : Path} (some : p.bytes ≠ []) : p.components ≠ [] := by
  obtain ⟨b, rest, isBytes⟩ := List.exists_cons_of_ne_nil some
  intro none
  unfold Path.components at none
  dsimp only at none
  split at none
  · cases none
  · rename_i relative
    split at none
    · cases none
    · rename_i noDot
      obtain ⟨first, others, pieces⟩ := List.exists_cons_of_ne_nil (splitOn_ne_nil Path.slash p.bytes)
      rw [show p.pieces = first :: others from pieces] at none noDot
      have idle : Path.Component.ofPiece? first = .none := by
        cases is : Path.Component.ofPiece? first with
        | none => rfl
        | some component => simp [is] at none
      have blank : first = [] := by
        unfold Path.Component.ofPiece? at idle
        split at idle
        · rename_i isIdle
          simp only [Bool.or_eq_true, decide_eq_true_eq] at isIdle
          exact isIdle.resolve_right fun isDot => noDot (congrArg Option.some isDot)
        · split at idle <;> cases idle
      rw [isBytes, splitOn_cons] at pieces
      split at pieces
      · rename_i isSlash
        simp [Path.isAbsolute, isBytes, isSlash] at relative
      · split at pieces
        · simp [blank] at pieces
        · simp [blank] at pieces

theorem Begins.start {p q : Path} (begins : Begins p q) (some : p.bytes ≠ []) :
    start here p = start here q := by
  obtain ⟨more, isMore⟩ := begins
  have same : p.isAbsolute = q.isAbsolute := by
    obtain ⟨first, others, isFirst⟩ := List.exists_cons_of_ne_nil (components_ne_nil some)
    rw [Bool.eq_iff_iff, isAbsolute_iff, isAbsolute_iff, ← isMore, isFirst]
    rfl
  rw [Prefixes.start, Prefixes.start, same]

theorem Begins.names {p q : Path} (begins : Begins p q) :
    AbsoluteForms.names p <+: AbsoluteForms.names q := by
  rw [← names_eq, ← names_eq]
  exact (begins.filter _).map _

section Names

variable {p q : Path}

/-- What a path finds, its names find. -/
theorem Finds.trail_names (finds : Finds t here p node) :
    ∃ P, Trail t mostLinks (Prefixes.start here p) (names p) P node := by
  obtain ⟨-, -, P, trail⟩ := finds_iff.mp finds
  exact ⟨P, trail.thinned (thinned_filter _)⟩

/-- What names find, every path of these names finds that does not ask for a directory that is none. -/
theorem finds_of_names (some : p.bytes ≠ []) (short : p.bytes.length ≤ longestPath)
    (closes : Closes node p.pieces) (trail : Trail t mostLinks (start here p) (names p) P node) :
    Finds t here p node :=
  finds_iff.mpr ⟨some, short, P, trail.widened (thinned_filter _) closes⟩

theorem Finds.closes (finds : Finds t here p node) : Closes node p.pieces := by
  obtain ⟨-, -, P, trail⟩ := finds_iff.mp finds
  rcases List.eq_nil_or_concat p.pieces with none | ⟨init, last, isPieces⟩
  · exact .inr (by simp [none])
  · by_cases idle : Path.isIdle last
    · left
      rw [isPieces, List.concat_eq_append] at trail
      obtain ⟨Q, front, before, isDirectory⟩ := trail.front
      have thin : Thinned (init ++ [last]) (init ++ []) := (Thinned.refl init).append (.drop idle .nil)
      have same := trail.thinned thin
      rw [List.append_nil] at same
      obtain rfl := before.unique same
      exact isDirectory (List.cons_ne_nil last [])
    · exact .inr (by simp [isPieces, idle])

variable (begins : Begins p q) (some : p.bytes ≠ [])
include begins some

/-- What a path leads over is there, or it is the path itself and no directory. -/
theorem exists_of_begins (short : p.bytes.length ≤ longestPath) (there : t.exists here q) :
    t.exists here p ∨ names p = names q ∧ t.isDirectory here q = false := by
  obtain ⟨node, finds⟩ := exists_iff.mp there
  obtain ⟨P, trail⟩ := finds.trail_names
  obtain ⟨more, isMore⟩ := begins.names
  rw [← begins.start some, ← isMore] at trail
  obtain ⟨Q, front, led, isDirectory⟩ := trail.front
  by_cases none : more = []
  · rw [none, List.append_nil] at isMore trail
    cases isFile : node.isDirectory with
    | true => exact .inl (exists_iff.mpr ⟨node, finds_of_names some short (.inl isFile) trail⟩)
    | false => exact .inr ⟨isMore, finds.isDirectory.trans isFile⟩
  · exact .inl (exists_iff.mpr ⟨front, finds_of_names some short (.inl (isDirectory none)) led⟩)

/-- Another path that a path of the same names as no directory's begins leads to the same. -/
theorem names_of_begins {r : Path} (begins' : Begins p r) (same : names p = names r)
    (there : t.exists here q) (thereToo : t.exists here r) (isNone : t.isDirectory here r = false) :
    names q = names r ∧ ∀ piece ∈ q.pieces.getLast?, ¬ Path.isIdle piece := by
  obtain ⟨node, finds⟩ := exists_iff.mp there
  obtain ⟨node', finds'⟩ := exists_iff.mp thereToo
  obtain ⟨P, trail⟩ := finds.trail_names
  obtain ⟨P', trail'⟩ := finds'.trail_names
  rw [finds'.isDirectory] at isNone
  obtain ⟨more, isMore⟩ := begins.names
  rw [← begins.start some, ← isMore] at trail
  rw [← begins'.start some, ← same] at trail'
  obtain ⟨Q, front, led, isDirectory⟩ := trail.front
  obtain rfl := led.unique trail'
  by_cases none : more = []
  · rw [none, List.append_nil] at isMore trail
    obtain rfl := trail.unique trail'
    exact ⟨isMore.symm.trans same, finds.closes.resolve_left (by simp [isNone])⟩
  · rw [isDirectory none] at isNone
    cases isNone

end Names

end BugHunt.Proofs.Prefixes
