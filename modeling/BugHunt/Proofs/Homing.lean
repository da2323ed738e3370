import Mathlib.Data.List.Induction
import BugHunt.Proofs.Growth
import BugHunt.Proofs.Ways
/-!
Where the path of a new directory leads. A path that led to a free name leads to the directory that
was made there for as long as outside it only files come and go, and a name below that path leads to
an entry of the directory.
-/

namespace BugHunt.Proofs.Homing
open FileTree Growth Names Places Trees Walking Ways

variable {t u : FileTree} {P q : Place} {here : Place} {links : Nat}

/-! ## Walks from a directory -/

/-- Where a path leads follows from what stands where. -/
theorem find_congr (same : u.node? = t.node?) (p : Path) (followLast : Bool) :
    u.find here p followLast = t.find here p followLast := by
  have walks (links : Nat) (here : Place) (ps : List Bytes) :
      u.walk followLast links here ps = t.walk followLast links here ps := by
    induction links, here, ps using FileTree.walk.induct t followLast with
    | case1 links here => rw [walk, walk, same]
    | _ => rw [walk, walk]; simp_all [FileTree.isDirectoryAt]
  rw [FileTree.find, FileTree.find, walks]

/-- A walk stops at a link that it ends in, unless it is to follow that one, too. -/
theorem walk_stops {followLast : Bool} {piece : Bytes} {rest : List Bytes} {path : Path}
    (there : t.isDirectoryAt here) (busy : ¬ Path.isIdle piece) (named : piece ≠ [Path.dot, Path.dot])
    (short : ¬ longestName < piece.length) (isLink : t.node? (here ++ [piece]) = some (.link path))
    (last : rest = []) (stays : followLast = false) :
    t.walk followLast links here (piece :: rest) = .ok ⟨here ++ [piece], some (.link path)⟩ := by
  subst last stays
  rw [walk]
  simp [there, busy, named, short, isLink]

/-- What a walk may end at: an entry of a directory, and no link where links are followed. -/
structure Sound (t : FileTree) (followLast : Bool) (target : Target) : Prop where
  node : target.node = t.node? target.place
  parent : t.isDirectoryAt target.place.dropLast
  noLink : followLast → ∀ path, target.node ≠ some (.link path)

variable {followLast : Bool}

theorem sound_of_directory (grown : Grown t.node?) (there : t.isDirectoryAt here) :
    Sound t followLast ⟨here, t.node? here⟩ := by
  refine ⟨rfl, grown.parent there, ?_⟩
  intro _ path isLink
  have isLink : t.node? here = some (.link path) := isLink
  simp [FileTree.isDirectoryAt, isLink, Node.isDirectory] at there

theorem sound_entry {piece : Bytes} (there : t.isDirectoryAt here)
    (noLink : followLast → ∀ path, t.node? (here ++ [piece]) ≠ some (.link path)) :
    Sound t followLast ⟨here ++ [piece], t.node? (here ++ [piece])⟩ :=
  ⟨rfl, by rwa [List.dropLast_concat], noLink⟩

theorem walk_sound (grown : Grown t.node?) {ps : List Bytes} {target : Target}
    (start : Sound t followLast ⟨here, t.node? here⟩)
    (found : t.walk followLast links here ps = .ok target) : Sound t followLast target := by
  induction links, here, ps using FileTree.walk.induct t followLast with
  | case1 links here =>
    rw [walk] at found
    obtain rfl := Except.ok.inj found
    exact start
  | case2 links here piece rest nowhere =>
    rw [walk_nowhere (by simpa using nowhere)] at found
    cases found
  | case3 links here piece rest there idle ih =>
    rw [walk_stay (by simpa using there) idle] at found
    exact ih start found
  | case4 links here rest there busy ih =>
    have there : t.isDirectoryAt here := by simpa using there
    rw [walk_back there] at found
    exact ih (sound_of_directory grown (grown.parent there)) found
  | case5 links here piece rest there busy named long =>
    rw [walk_long (by simpa using there) busy named long] at found
    cases found
  | case6 links here piece rest there busy named short free last =>
    have there : t.isDirectoryAt here := by simpa using there
    rw [walk_onto there busy named short (by simp [free]), onto, free] at found
    simp only [last, if_true] at found
    obtain rfl := Except.ok.inj found
    rw [← free]
    exact sound_entry there fun _ => by simp [free]
  | case7 links here piece rest there busy named short free more =>
    rw [walk_onto (by simpa using there) busy named short (by simp [free]), onto, free] at found
    simp [more] at found
  | case8 links here piece rest there busy named short path isLink last =>
    have there : t.isDirectoryAt here := by simpa using there
    have last : rest = [] ∧ followLast = false := by simpa using last
    rw [walk_stops there busy named short isLink last.1 last.2] at found
    obtain rfl := Except.ok.inj found
    rw [← isLink]
    exact sound_entry there fun follows => by simp [last.2] at follows
  | case9 here piece rest there busy named short path isLink more =>
    have more : rest ≠ [] ∨ followLast := by simpa [imp_iff_not_or] using more
    rw [walk_loop (by simpa using there) busy named short isLink more] at found
    cases found
  | case10 here piece rest there busy named short path isLink more links ih =>
    have there : t.isDirectoryAt here := by simpa using there
    have more : rest ≠ [] ∨ followLast := by simpa [imp_iff_not_or] using more
    rw [walk_link there busy named short isLink more] at found
    refine ih ?_ (by simpa only [dite_eq_ite] using found)
    split
    · exact sound_of_directory grown rfl
    · exact sound_of_directory grown there
  | case11 links here piece rest there busy named short node noLink isNode ih =>
    have there : t.isDirectoryAt here := by simpa using there
    have noLink : ∀ path, t.node? (here ++ [piece]) ≠ some (.link path) := by
      intro path isLink
      exact noLink path (Option.some.inj (isNode.symm.trans isLink))
    rw [walk_onto there busy named short noLink, onto, isNode] at found
    exact ih (sound_entry there fun _ => noLink) found

/-- Of a path that is not empty the first piece is looked for in a directory. -/
theorem find_sound (grown : Grown t.node?) {p : Path} {target : Target}
    (found : t.find here p followLast = .ok target) : Sound t followLast target := by
  obtain ⟨-, -, found⟩ := find_eq_ok.mp found
  generalize (if p.isAbsolute then [] else here) = start at found
  cases there : t.isDirectoryAt start with
  | true => exact walk_sound grown (sound_of_directory grown there) found
  | false =>
    cases pieces : p.pieces with
    | nil => exact absurd pieces (splitOn_ne_nil _ _)
    | cons piece rest =>
      rw [pieces, walk_nowhere there] at found
      cases found

/-! ## The way to a new directory -/

/-- Below a free name nothing stands. -/
theorem free_below (grown : Grown t.node?) (free : t.node? P = none) (below : P <+: q) :
    t.node? q = none := by
  obtain ⟨rest, rfl⟩ := below
  induction rest using List.reverseRecOn with
  | nil => rwa [List.append_nil]
  | append_singleton rest name ih =>
    rw [← List.append_assoc]
    cases there : t.node? (P ++ rest ++ [name]) with
    | none => rfl
    | some node =>
      have parent := grown (P ++ rest ++ [name]) (there ▸ Option.some_ne_none node)
      rw [List.dropLast_concat, View.directory, ih] at parent
      cases parent

/-- Two trees with the same directories and links outside a place. -/
def SameOutside (P : Place) (t u : FileTree) : Prop :=
  ∀ q, ¬ P <+: q → u.node? q = t.node? q ∨ Inert (t.node? q) ∧ Inert (u.node? q)

/-- Slashes at the end of a path to a directory lead on to it. -/
theorem walk_blanks (there : u.isDirectoryAt here) {blanks : List Bytes}
    (blank : blanks.all (·.isEmpty)) (more : List Bytes) :
    u.walk followLast links here (blanks ++ more) = u.walk followLast links here more := by
  induction blanks with
  | nil => rfl
  | cons piece rest ih =>
    rw [List.all_cons, Bool.and_eq_true, List.isEmpty_iff] at blank
    rw [List.cons_append, walk_stay there (by simp [blank.1, Path.isIdle]), ih blank.2]

section Home

variable (free : ∀ q, P <+: q → t.node? q = none)
include free

theorem outside_of_node {node : Node} (isNode : t.node? q = some node) : ¬ P <+: q := by
  intro below
  rw [free q below] at isNode
  cases isNode

variable (same : SameOutside P t u)
include same

theorem directory_stays (there : t.isDirectoryAt q) : u.isDirectoryAt q := by
  unfold FileTree.isDirectoryAt at there ⊢
  obtain ⟨node, isNode, isDirectory⟩ := (Option.any_eq_true _ _).mp there
  rcases same q (outside_of_node free isNode) with equal | ⟨inert, -⟩
  · rwa [equal]
  · rw [inert.noDirectory] at there
    cases there

theorem link_stays {path : Path} (isLink : t.node? q = some (.link path)) :
    u.node? q = some (.link path) := by
  rcases same q (outside_of_node free isLink) with equal | ⟨inert, -⟩
  · rw [equal, isLink]
  · exact absurd isLink (inert.noLink path)

/-- What a walk to the free place came over is still there, and so walks come to the place, and go on
from it. -/
theorem walk_home {ps : List Bytes} (made : u.node? P = some .directory)
    (leads : t.walk false links here ps = .ok ⟨P, none⟩) :
    ∃ left, ∀ followLast more,
      u.walk followLast links here (ps ++ more) = u.walk followLast left P more := by
  have stays {q : Place} := directory_stays free same (q := q)
  induction links, here, ps using FileTree.walk.induct t false with
  | case1 links here =>
    rw [walk] at leads
    obtain ⟨rfl, -⟩ := Target.mk.inj (Except.ok.inj leads)
    exact ⟨links, fun _ _ => rfl⟩
  | case2 links here piece rest nowhere =>
    rw [walk_nowhere (by simpa using nowhere)] at leads
    cases leads
  | case3 links here piece rest there idle ih =>
    have there : t.isDirectoryAt here := by simpa using there
    rw [walk_stay there idle] at leads
    simpa only [List.cons_append, walk_stay (stays there) idle] using ih leads
  | case4 links here rest there busy ih =>
    have there : t.isDirectoryAt here := by simpa using there
    rw [walk_back there] at leads
    simpa only [List.cons_append, walk_back (stays there)] using ih leads
  | case5 links here piece rest there busy named long =>
    rw [walk_long (by simpa using there) busy named long] at leads
    cases leads
  | case6 links here piece rest there busy named short isFree last =>
    have there : t.isDirectoryAt here := by simpa using there
    rw [walk_onto there busy named short (by simp [isFree]), onto, isFree] at leads
    simp only [last, if_true] at leads
    obtain ⟨rfl, -⟩ := Target.mk.inj (Except.ok.inj leads)
    refine ⟨links, fun followLast more => ?_⟩
    rw [List.cons_append, walk_onto (stays there) busy named short (by simp [made]), onto, made]
    exact walk_blanks (by simp [FileTree.isDirectoryAt, made, Node.isDirectory]) last more
  | case7 links here piece rest there busy named short isFree more =>
    rw [walk_onto (by simpa using there) busy named short (by simp [isFree]), onto, isFree] at leads
    simp [more] at leads
  | case8 links here piece rest there busy named short path isLink last =>
    have there : t.isDirectoryAt here := by simpa using there
    rw [walk_stops there busy named short isLink (by simpa using last) rfl] at leads
    cases leads
  | case9 here piece rest there busy named short path isLink more =>
    have more : rest ≠ [] := by simpa using more
    rw [walk_loop (by simpa using there) busy named short isLink (.inl more)] at leads
    cases leads
  | case10 here piece rest there busy named short path isLink more links ih =>
    have there : t.isDirectoryAt here := by simpa using there
    have more : rest ≠ [] := by simpa using more
    rw [walk_link there busy named short isLink (.inl more)] at leads
    obtain ⟨left, goesOn⟩ := ih (by simpa only [dite_eq_ite] using leads)
    refine ⟨left, fun followLast further => ?_⟩
    rw [List.cons_append, walk_link (stays there) busy named short (link_stays free same isLink)
      (.inl (by simp [more])), ← goesOn followLast further, List.append_assoc]
    rfl
  | case11 links here piece rest there busy named short node noLink isNode ih =>
    have there : t.isDirectoryAt here := by simpa using there
    have noLink : ∀ path, t.node? (here ++ [piece]) ≠ some (.link path) := by
      intro path isLink
      exact noLink path (Option.some.inj (isNode.symm.trans isLink))
    rw [walk_onto there busy named short noLink, onto, isNode] at leads
    have equal : u.node? (here ++ [piece]) = t.node? (here ++ [piece]) := by
      rcases same _ (outside_of_node free isNode) with equal | ⟨inert, -⟩
      · exact equal
      · cases rest with
        | nil =>
          rw [walk, isNode] at leads
          cases (Target.mk.inj (Except.ok.inj leads)).2
        | cons next rest =>
          rw [walk_inert inert (by simp)] at leads
          cases leads
    obtain ⟨left, goesOn⟩ := ih leads
    refine ⟨left, fun followLast more => ?_⟩
    rw [List.cons_append, walk_onto (stays there) busy named short (equal ▸ noLink), onto, equal, isNode]
    exact goesOn followLast more

end Home

/-! ## Names below a new directory -/

/-- Whether a path leads to a free name, and is such that names below it can be formed. -/
structure Lodging (t : FileTree) (here : Place) (root : Path) (P : Place) : Prop where
  leads : t.find here root false = .ok ⟨P, none⟩
  absolute : root.isAbsolute
  plain : endsInSlash root = false

section Lodging

variable {root : Path} {name : String}

theorem Lodging.free (lodging : Lodging t here root P) (grown : Grown t.node?) :
    ∀ q, P <+: q → t.node? q = none :=
  fun _ => free_below grown (find_sound grown lodging.leads).node.symm

theorem Lodging.named (lodging : Lodging t here root P) (grown : Grown t.node?) : P ≠ [] := by
  rintro rfl
  have free := lodging.free grown [] (List.prefix_refl _)
  rw [node?_root] at free
  cases free

theorem Lodging.entry (lodging : Lodging t here root P) (proper : Proper (utf8 name)) :
    (root / name).isAbsolute ∧ Ends (root / name) root.pieces (utf8 name) := by
  have front : front root = root.bytes ++ [Path.slash] := by
    unfold Names.front
    split
    · rename_i none
      have absolute := lodging.absolute
      simp [Path.isAbsolute, List.getLast?_eq_none_iff.mp none] at absolute
    · rename_i last isLast
      have plain := lodging.plain
      rw [endsInSlash, isLast] at plain
      rw [if_neg (by simpa using plain)]
  refine ⟨isAbsolute_join lodging.absolute, ?_, proper⟩
  rw [show root / name = root / Path.ofString name from rfl, entry_eq _ proper.clean, front,
    List.append_assoc, Path.pieces, List.singleton_append, splitOn_append,
    splitOn_of_notMem proper.clean]
  rfl

/-- The path that led to the free place leads to the directory there, and so do the beginnings of
paths to its entries, wherever they are seen from. -/
theorem Lodging.walk (lodging : Lodging t here root P) (grown : Grown t.node?)
    (same : SameOutside P t u) (made : u.node? P = some .directory) :
    u.find here root false = .ok ⟨P, some .directory⟩ ∧
      ∃ left, ∀ followLast more,
        u.walk followLast mostLinks [] (root.pieces ++ more) = u.walk followLast left P more := by
  obtain ⟨filled, short, leads⟩ := find_eq_ok.mp lodging.leads
  rw [if_pos lodging.absolute] at leads
  obtain ⟨left, goesOn⟩ := walk_home (lodging.free grown) same made leads
  have arrives := goesOn false []
  rw [List.append_nil, FileTree.walk, made] at arrives
  exact ⟨find_eq_ok.mpr ⟨filled, short, by rwa [if_pos lodging.absolute]⟩, left, goesOn⟩

theorem Lodging.home (lodging : Lodging t here root P) (grown : Grown t.node?)
    (same : SameOutside P t u) (made : u.node? P = some .directory) :
    u.find here root false = .ok ⟨P, some .directory⟩ :=
  (lodging.walk grown same made).1

/-- What a name below the path finds is the entry of that name. -/
theorem Lodging.find_entry (lodging : Lodging t here root P) (grown : Grown t.node?)
    (same : SameOutside P t u) (made : u.node? P = some .directory) (proper : Proper (utf8 name))
    {base : Place} {target : Target} (found : u.find base (root / name) followLast = .ok target)
    (stays : followLast → ∀ path, u.node? (P ++ [utf8 name]) ≠ some (.link path)) :
    target = ⟨P ++ [utf8 name], u.node? (P ++ [utf8 name])⟩ := by
  obtain ⟨-, left, goesOn⟩ := lodging.walk grown same made
  obtain ⟨absolute, ends⟩ := lodging.entry proper
  have unfollowed : followLast = false ∨ (u.isDirectoryAt P → ¬ longestName < (utf8 name).length →
      ∀ path, u.node? (P ++ [utf8 name]) ≠ some (.link path)) := by
    cases followLast with
    | false => exact .inl rfl
    | true => exact .inr fun _ _ => stays rfl
  rw [ends.find, ← ends.isAbsolute, if_pos absolute, goesOn, walk_last proper unfollowed] at found
  split at found
  · cases found
  · split at found
    · cases found
    · split at found
      · cases found
      · exact (Except.ok.inj found).symm

end Lodging

end BugHunt.Proofs.Homing
