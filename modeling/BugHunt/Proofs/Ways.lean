import BugHunt.Proofs.Trees
import BugHunt.Proofs.Walking
/-!
Where paths lead in two trees that have the same directories and links. What files there are makes
no difference on the way: a path comes to the same place in both, or finds nothing in either.
-/

namespace BugHunt.Proofs.Ways
open FileTree Names Walking

/-- What no way leads on from: nothing, or a file. -/
structure Inert (node : Option Node) : Prop where
  noDirectory : node.any Node.isDirectory = false
  noLink : ∀ target, node ≠ some (.link target)

theorem inert_none : Inert none := ⟨rfl, nofun⟩

theorem inert_file (content : Bytes) (executable : Bool) :
    Inert (some (.file content executable)) := ⟨rfl, nofun⟩

/-- Two trees with the same directories and links. -/
def SameWays (t u : FileTree) : Prop :=
  ∀ q, u.node? q = t.node? q ∨ Inert (t.node? q) ∧ Inert (u.node? q)

variable {t u : FileTree} {links : Nat} {here : Place} {followLast : Bool}

theorem SameWays.refl (t : FileTree) : SameWays t t := fun _ => .inl rfl

theorem SameWays.symm (same : SameWays t u) : SameWays u t := by
  intro q
  rcases same q with equal | ⟨inert, inertToo⟩
  · exact .inl equal.symm
  · exact .inr ⟨inertToo, inert⟩

theorem SameWays.isDirectoryAt (same : SameWays t u) (q : Place) :
    u.isDirectoryAt q = t.isDirectoryAt q := by
  unfold FileTree.isDirectoryAt
  rcases same q with equal | ⟨inert, inertToo⟩
  · rw [equal]
  · rw [inert.noDirectory, inertToo.noDirectory]

theorem SameWays.link (same : SameWays t u) {q : Place} {target : Path}
    (isLink : t.node? q = some (.link target)) : u.node? q = some (.link target) := by
  rcases same q with equal | ⟨inert, -⟩
  · rw [equal, isLink]
  · exact absurd isLink (inert.noLink target)

theorem SameWays.inert (same : SameWays t u) {q : Place} (inert : Inert (t.node? q)) :
    Inert (u.node? q) := by
  rcases same q with equal | ⟨-, inertToo⟩
  · rwa [equal]
  · exact inertToo

theorem walk_inert (inert : Inert (t.node? here)) {rest : List Bytes} (more : rest ≠ []) :
    t.walk followLast links here rest = .error .notDirectory := by
  cases rest with
  | nil => exact absurd rfl more
  | cons piece rest =>
    have noDirectory : t.isDirectoryAt here = false := inert.noDirectory
    rw [walk]
    simp [noDirectory]

/-! ## Steps -/

/-- What follows on a step onto a place without a link. -/
def onto (t : FileTree) (followLast : Bool) (links : Nat) (q : Place) (rest : List Bytes) :
    Except Errno Target :=
  match t.node? q with
  | none => if rest.all (·.isEmpty) then .ok ⟨q, none⟩ else .error .noEntry
  | some _ => t.walk followLast links q rest

section Steps

variable {piece : Bytes} {rest : List Bytes}

theorem walk_nowhere (nowhere : t.isDirectoryAt here = false) :
    t.walk followLast links here (piece :: rest) = .error .notDirectory := by
  rw [walk]
  simp [nowhere]

variable (there : t.isDirectoryAt here)
include there

theorem walk_stay (idle : Path.isIdle piece) :
    t.walk followLast links here (piece :: rest) = t.walk followLast links here rest := by
  rw [walk]
  simp [there, idle]

theorem walk_back : t.walk followLast links here ([Path.dot, Path.dot] :: rest) =
    t.walk followLast links here.dropLast rest := by
  have busy : Path.isIdle [Path.dot, Path.dot] = false := by decide
  rw [walk]
  simp [there, busy]

variable (busy : ¬ Path.isIdle piece) (named : piece ≠ [Path.dot, Path.dot])
include busy named

theorem walk_long (long : longestName < piece.length) :
    t.walk followLast links here (piece :: rest) = .error .nameTooLong := by
  rw [walk]
  simp [there, busy, named, long]

variable (short : ¬ longestName < piece.length)
include short

theorem walk_onto (noLink : ∀ target, t.node? (here ++ [piece]) ≠ some (.link target)) :
    t.walk followLast links here (piece :: rest) = onto t followLast links (here ++ [piece]) rest := by
  rw [walk, onto]
  cases node : t.node? (here ++ [piece]) with
  | none => simp [there, busy, named, short]
  | some node' =>
    cases node' with
    | link target => exact absurd node (noLink target)
    | _ => simp [there, busy, named, short]

variable {target : Path} (isLink : t.node? (here ++ [piece]) = some (.link target))
  (follows : rest ≠ [] ∨ followLast)
include isLink follows

theorem walk_loop : t.walk followLast 0 here (piece :: rest) = .error .linkLoop := by
  have goesOn : ¬ (rest = [] ∧ followLast = false) := by
    rintro ⟨rfl, stays⟩
    simp [stays] at follows
  rw [walk]
  simp [there, busy, named, short, isLink, goesOn]

theorem walk_link : t.walk followLast (links + 1) here (piece :: rest) =
    t.walk followLast links (if target.isAbsolute then [] else here) (target.pieces ++ rest) := by
  have goesOn : ¬ (rest = [] ∧ followLast = false) := by
    rintro ⟨rfl, stays⟩
    simp [stays] at follows
  rw [walk]
  simp [there, busy, named, short, isLink, goesOn]

end Steps

/-! ## Whole paths -/

/-- Whether nothing was found. -/
def Absent (found : Except Errno Target) : Prop := ∀ target, found = .ok target → target.node = none

theorem absent_error (e : Errno) : Absent (.error e) := nofun

/-- After nothing or a file only the empty ends of a path can follow. -/
theorem absent_onto {q : Place} (inert : Inert (t.node? q)) {rest : List Bytes} (more : rest ≠ []) :
    Absent (onto t followLast links q rest) := by
  unfold onto
  cases node : t.node? q with
  | none =>
    dsimp only
    split
    · rintro target found
      rw [← Except.ok.inj found]
    · exact absent_error _
  | some node' =>
    dsimp only
    rw [walk_inert inert more]
    exact absent_error _

theorem onto_last (q : Place) : onto t followLast links q [] = .ok ⟨q, t.node? q⟩ := by
  unfold onto
  cases node : t.node? q with
  | none => rfl
  | some node' =>
    dsimp only
    rw [walk, node]

/-- What one path comes to in two trees: it finds nothing in either, or it leads to one place. -/
inductive Together (t u : FileTree) : Except Errno Target → Except Errno Target → Prop
  | absent {found foundToo : Except Errno Target} (is : Absent found) (isToo : Absent foundToo) :
    Together t u found foundToo
  | place (q : Place) : Together t u (.ok ⟨q, t.node? q⟩) (.ok ⟨q, u.node? q⟩)

theorem together_onto {q : Place} (inert : Inert (t.node? q)) (inertToo : Inert (u.node? q))
    (rest : List Bytes) :
    Together t u (onto t followLast links q rest) (onto u followLast links q rest) := by
  by_cases last : rest = []
  · subst last
    rw [onto_last, onto_last]
    exact .place q
  · exact .absent (absent_onto inert last) (absent_onto inertToo last)

/-- A step onto a place without a directory or a link. -/
theorem together_step (same : SameWays t u) (there : t.isDirectoryAt here) {piece : Bytes}
    {rest : List Bytes} (busy : ¬ Path.isIdle piece) (named : piece ≠ [Path.dot, Path.dot])
    (short : ¬ longestName < piece.length) (inert : Inert (t.node? (here ++ [piece]))) :
    Together t u (t.walk followLast links here (piece :: rest))
      (u.walk followLast links here (piece :: rest)) := by
  have inertToo := same.inert inert
  rw [walk_onto there busy named short inert.noLink,
    walk_onto ((same.isDirectoryAt here).trans there) busy named short inertToo.noLink]
  exact together_onto inert inertToo rest

theorem walk_together (same : SameWays t u) (links : Nat) (here : Place) (ps : List Bytes) :
    Together t u (t.walk true links here ps) (u.walk true links here ps) := by
  have dirs := same.isDirectoryAt
  induction links, here, ps using FileTree.walk.induct t true with
  | case1 links here =>
    rw [walk, walk]
    exact .place here
  | case2 links here piece rest nowhere =>
    have nowhere : t.isDirectoryAt here = false := by simpa using nowhere
    rw [walk_nowhere nowhere, walk_nowhere ((dirs here).trans nowhere)]
    exact .absent (absent_error _) (absent_error _)
  | case3 links here piece rest there idle ih =>
    have there : t.isDirectoryAt here := by simpa using there
    rwa [walk_stay there idle, walk_stay ((dirs here).trans there) idle]
  | case4 links here rest there busy ih =>
    have there : t.isDirectoryAt here := by simpa using there
    rwa [walk_back there, walk_back ((dirs here).trans there)]
  | case5 links here piece rest there busy named long =>
    have there : t.isDirectoryAt here := by simpa using there
    rw [walk_long there busy named long, walk_long ((dirs here).trans there) busy named long]
    exact .absent (absent_error _) (absent_error _)
  | case6 links here piece rest there busy named short free last =>
    exact together_step same (by simpa using there) busy named short (free ▸ inert_none)
  | case7 links here piece rest there busy named short free more =>
    exact together_step same (by simpa using there) busy named short (free ▸ inert_none)
  | case8 links here piece rest there busy named short target isLink last => simp at last
  | case9 here piece rest there busy named short target isLink more =>
    have there : t.isDirectoryAt here := by simpa using there
    rw [walk_loop there busy named short isLink (.inr rfl),
      walk_loop ((dirs here).trans there) busy named short (same.link isLink) (.inr rfl)]
    exact .absent (absent_error _) (absent_error _)
  | case10 here piece rest there busy named short target isLink more links ih =>
    have there : t.isDirectoryAt here := by simpa using there
    rwa [walk_link there busy named short isLink (.inr rfl),
      walk_link ((dirs here).trans there) busy named short (same.link isLink) (.inr rfl)]
  | case11 links here piece rest there busy named short node noLink isNode ih =>
    have there : t.isDirectoryAt here := by simpa using there
    rcases same (here ++ [piece]) with equal | ⟨inert, -⟩
    · have noLink : ∀ target, t.node? (here ++ [piece]) ≠ some (.link target) := by
        intro target isLink
        exact noLink target (Option.some.inj (isNode.symm.trans isLink))
      rw [walk_onto there busy named short noLink,
        walk_onto ((dirs here).trans there) busy named short (equal ▸ noLink)]
      unfold onto
      rw [equal, isNode]
      exact ih
    · exact together_step same there busy named short inert

theorem find_together (same : SameWays t u) (here : Place) (p : Path) :
    Together t u (t.find here p true) (u.find here p true) := by
  unfold find
  split
  · exact .absent (absent_error _) (absent_error _)
  · split
    · exact .absent (absent_error _) (absent_error _)
    · exact walk_together same _ _ _

theorem exists_iff {p : Path} :
    t.exists here p ↔ ∃ q node, t.find here p true = .ok ⟨q, some node⟩ := by
  unfold FileTree.exists stat existing
  cases t.find here p true with
  | error e => simp [bind, Except.bind, Functor.map, Except.map, Except.toOption]
  | ok target =>
    obtain ⟨q, node⟩ := target
    cases node <;> simp [bind, Except.bind, Functor.map, Except.map, Except.toOption]

/-- What a path finds in one tree it finds in the other, unless it leads to where they differ. -/
theorem exists_congr (same : SameWays t u) {p : Path}
    (elsewhere : ∀ q node, t.find here p true = .ok ⟨q, node⟩ →
      (u.node? q).isSome = (t.node? q).isSome) : u.exists here p = t.exists here p := by
  have together := find_together same here p
  rw [Bool.eq_iff_iff, exists_iff, exists_iff]
  generalize isFound : t.find here p true = found at together elsewhere
  generalize u.find here p true = foundToo at together
  cases together with
  | absent is isToo =>
    constructor
    · rintro ⟨q, node, rfl⟩
      cases isToo _ rfl
    · rintro ⟨q, node, rfl⟩
      cases is _ rfl
  | place q =>
    have equal := elsewhere q _ rfl
    rw [Bool.eq_iff_iff, Option.isSome_iff_exists, Option.isSome_iff_exists] at equal
    simpa using equal

/-! ## Entries of one directory -/

/-- No name is found below nothing or a file. -/
theorem walk_blocked (there : t.isDirectoryAt here) {piece : Bytes} (busy : ¬ Path.isIdle piece)
    (named : piece ≠ [Path.dot, Path.dot]) (short : ¬ longestName < piece.length)
    (inert : Inert (t.node? (here ++ [piece]))) (rest : List Bytes) {name : Bytes}
    (some : name ≠ []) :
    ∃ e, t.walk followLast links here (piece :: rest ++ [name]) = .error e := by
  rw [List.cons_append, walk_onto there busy named short inert.noLink, onto]
  cases node : t.node? (here ++ [piece]) with
  | none => simp [some]
  | some node' => exact ⟨_, walk_inert inert (by simp)⟩

/-- Where the pieces before a last name lead in two trees: nowhere in either, or to one directory,
whatever the name. -/
theorem ways (same : SameWays t u) (links : Nat) (here : Place) (pre : List Bytes) :
    (∀ followLast name, name ≠ [] →
      (∃ e, t.walk followLast links here (pre ++ [name]) = .error e) ∧
        ∃ e, u.walk followLast links here (pre ++ [name]) = .error e) ∨
    ∃ left d, ∀ followLast name, name ≠ [] →
      t.walk followLast links here (pre ++ [name]) = t.walk followLast left d [name] ∧
        u.walk followLast links here (pre ++ [name]) = u.walk followLast left d [name] := by
  have dirs := same.isDirectoryAt
  have blocked {links : Nat} {here : Place} {piece : Bytes} {rest : List Bytes}
      (there : t.isDirectoryAt here) (busy : ¬ Path.isIdle piece)
      (named : piece ≠ [Path.dot, Path.dot]) (short : ¬ longestName < piece.length)
      (inert : Inert (t.node? (here ++ [piece]))) : ∀ followLast name, name ≠ [] →
        (∃ e, t.walk followLast links here (piece :: rest ++ [name]) = .error e) ∧
          ∃ e, u.walk followLast links here (piece :: rest ++ [name]) = .error e :=
    fun _ _ some => ⟨walk_blocked there busy named short inert rest some,
      walk_blocked ((dirs here).trans there) busy named short (same.inert inert) rest some⟩
  induction links, here, pre using FileTree.walk.induct t true with
  | case1 links here => exact .inr ⟨links, here, fun _ _ _ => ⟨rfl, rfl⟩⟩
  | case2 links here piece rest nowhere =>
    have nowhere : t.isDirectoryAt here = false := by simpa using nowhere
    left
    intro followLast name some
    rw [List.cons_append, walk_nowhere nowhere, walk_nowhere ((dirs here).trans nowhere)]
    exact ⟨⟨_, rfl⟩, _, rfl⟩
  | case3 links here piece rest there idle ih =>
    have there : t.isDirectoryAt here := by simpa using there
    simpa only [List.cons_append, walk_stay there idle, walk_stay ((dirs here).trans there) idle]
      using ih
  | case4 links here rest there busy ih =>
    have there : t.isDirectoryAt here := by simpa using there
    simpa only [List.cons_append, walk_back there, walk_back ((dirs here).trans there)] using ih
  | case5 links here piece rest there busy named long =>
    have there : t.isDirectoryAt here := by simpa using there
    left
    intro followLast name some
    rw [List.cons_append, walk_long there busy named long,
      walk_long ((dirs here).trans there) busy named long]
    exact ⟨⟨_, rfl⟩, _, rfl⟩
  | case6 links here piece rest there busy named short free last =>
    have there : t.isDirectoryAt here := by simpa using there
    exact .inl (blocked there busy named short (free ▸ inert_none))
  | case7 links here piece rest there busy named short free more =>
    have there : t.isDirectoryAt here := by simpa using there
    exact .inl (blocked there busy named short (free ▸ inert_none))
  | case8 links here piece rest there busy named short target isLink last => simp at last
  | case9 here piece rest there busy named short target isLink more =>
    have there : t.isDirectoryAt here := by simpa using there
    left
    intro followLast name some
    rw [List.cons_append, walk_loop there busy named short isLink (.inl (by simp)),
      walk_loop ((dirs here).trans there) busy named short (same.link isLink) (.inl (by simp))]
    exact ⟨⟨_, rfl⟩, _, rfl⟩
  | case10 here piece rest there busy named short target isLink more links ih =>
    have there : t.isDirectoryAt here := by simpa using there
    have more (name : Bytes) : rest ++ [name] ≠ [] := by simp
    simpa only [List.cons_append, walk_link there busy named short isLink (.inl (more _)),
      walk_link ((dirs here).trans there) busy named short (same.link isLink) (.inl (more _)),
      List.append_assoc, dite_eq_ite] using ih
  | case11 links here piece rest there busy named short node noLink isNode ih =>
    have there : t.isDirectoryAt here := by simpa using there
    rcases same (here ++ [piece]) with equal | ⟨inert, inertToo⟩
    · have noLink : ∀ target, t.node? (here ++ [piece]) ≠ some (.link target) := by
        intro target isLink
        exact noLink target (Option.some.inj (isNode.symm.trans isLink))
      simpa only [List.cons_append, walk_onto there busy named short noLink,
        walk_onto ((dirs here).trans there) busy named short (equal ▸ noLink), onto, equal, isNode]
        using ih
    · exact .inl (blocked there busy named short inert)

/-- The last name of a path, and the pieces that stand before it. -/
structure Ends (p : Path) (pre : List Bytes) (name : Bytes) : Prop where
  pieces : p.pieces = pre ++ [name]
  proper : Proper name

theorem Ends.ne_nil {p : Path} {pre : List Bytes} {name : Bytes} (ends : Ends p pre name) :
    p.bytes ≠ [] := by
  intro none
  have pieces := ends.pieces
  rw [Path.pieces, none] at pieces
  have last := congrArg List.getLast? pieces
  rw [List.getLast?_concat] at last
  exact ends.proper.ne_nil (Option.some.inj last).symm

/-- Whether a path is absolute shows before its last name. -/
theorem Ends.isAbsolute {p : Path} {pre : List Bytes} {name : Bytes} (ends : Ends p pre name) :
    p.isAbsolute = (pre.head? == some []) := by
  cases pre with
  | nil =>
    rw [Anchoring.isAbsolute_of_pieces (show p.pieces = name :: [] from ends.pieces)]
    simp
  | cons first rest =>
    rw [Anchoring.isAbsolute_of_pieces
      (show p.pieces = first :: (rest ++ [name]) from ends.pieces)]
    cases first <;> simp

/-- What the last name of a path finds in a directory, if it is no link that is followed. -/
def entry (t : FileTree) (d : Place) (p : Path) (name : Bytes) : Except Errno Target :=
  if longestPath < p.bytes.length then .error .nameTooLong
  else if t.isDirectoryAt d = false then .error .notDirectory
  else if longestName < name.length then .error .nameTooLong
  else .ok ⟨d ++ [name], t.node? (d ++ [name])⟩

/-- Whether a path ends at a link. -/
def Unlinked (t : FileTree) (here : Place) (p : Path) : Prop :=
  ∀ q target, t.find here p false ≠ .ok ⟨q, some (.link target)⟩

/-- A walk over one name. -/
theorem walk_last {d : Place} {name : Bytes} (proper : Proper name)
    (stays : followLast = false ∨ (t.isDirectoryAt d → ¬ longestName < name.length →
      ∀ target, t.node? (d ++ [name]) ≠ some (.link target))) :
    t.walk followLast links d [name] =
      if t.isDirectoryAt d = false then .error .notDirectory
      else if longestName < name.length then .error .nameTooLong
      else .ok ⟨d ++ [name], t.node? (d ++ [name])⟩ := by
  have busy := not_isIdle proper
  cases there : t.isDirectoryAt d with
  | false => exact walk_nowhere there
  | true =>
    simp only [Bool.true_eq_false, if_false]
    split
    · rename_i long
      exact walk_long there busy proper.ne_dots long
    · rename_i short
      by_cases linked : ∃ target, t.node? (d ++ [name]) = some (.link target)
      · obtain ⟨target, isLink⟩ := linked
        rcases stays with rfl | noLink
        · rw [walk]
          simp [there, busy, proper.ne_dots, short, isLink]
        · exact absurd isLink (noLink there short target)
      · rw [walk_onto there busy proper.ne_dots short fun target isLink => linked ⟨target, isLink⟩,
          onto_last]

theorem Ends.find {p : Path} {pre : List Bytes} {name : Bytes} (ends : Ends p pre name) :
    t.find here p followLast =
      if longestPath < p.bytes.length then .error .nameTooLong
      else t.walk followLast mostLinks (if pre.head? == some [] then [] else here)
        (pre ++ [name]) := by
  rw [FileTree.find, if_neg ends.ne_nil, ends.isAbsolute, ends.pieces]

/-- What a path finds by its last name, once it is known where the pieces before lead. -/
theorem Ends.find_entry {p : Path} {pre : List Bytes} {name : Bytes} (ends : Ends p pre name)
    {left : Nat} {d : Place} (leads : ∀ followLast,
      t.walk followLast mostLinks (if pre.head? == some [] then [] else here) (pre ++ [name]) =
        t.walk followLast left d [name])
    (stays : followLast = false ∨ Unlinked t here p) :
    t.find here p followLast = entry t d p name := by
  have unfollowed : t.find here p false = entry t d p name := by
    rw [ends.find, leads, walk_last ends.proper (.inl rfl), entry]
  rcases stays with rfl | unlinked
  · exact unfollowed
  · rw [ends.find, leads, entry]
    by_cases long : longestPath < p.bytes.length
    · rw [if_pos long, if_pos long]
    · rw [if_neg long, if_neg long]
      refine walk_last ends.proper (.inr ?_)
      intro there short target isLink
      apply unlinked (d ++ [name]) target
      rw [unfollowed, entry, if_neg long, if_neg (by simp [there]), if_neg short, isLink]

/-- Paths that have what stands before the last name in common lead nowhere in two trees, or to
entries of one directory. -/
theorem find_ends (same : SameWays t u) (here : Place) (pre : List Bytes) :
    (∀ p name followLast, Ends p pre name → (∃ e, t.find here p followLast = .error e) ∧
      ∃ e, u.find here p followLast = .error e) ∨
    ∃ d, ∀ p name followLast, Ends p pre name →
      (followLast = false ∨ Unlinked t here p → t.find here p followLast = entry t d p name) ∧
      (followLast = false ∨ Unlinked u here p → u.find here p followLast = entry u d p name) := by
  rcases ways same mostLinks (if pre.head? == some [] then [] else here) pre with
    nowhere | ⟨left, d, leads⟩
  · left
    intro p name followLast ends
    rw [ends.find, ends.find]
    obtain ⟨failed, failedToo⟩ := nowhere followLast name ends.proper.ne_nil
    split
    · exact ⟨⟨_, rfl⟩, _, rfl⟩
    · exact ⟨failed, failedToo⟩
  · right
    refine ⟨d, ?_⟩
    intro p name followLast ends
    exact ⟨ends.find_entry fun followLast => (leads followLast name ends.proper.ne_nil).1,
      ends.find_entry fun followLast => (leads followLast name ends.proper.ne_nil).2⟩

/-- Where one of these paths leads somewhere, all of them lead to entries of one directory. -/
theorem entries_of_found (same : SameWays t u) {p : Path} {pre : List Bytes} {name : Bytes}
    {followLast : Bool} {target : Target} (ends : Ends p pre name)
    (found : t.find here p followLast = .ok target) :
    ∃ d, ∀ q name followLast, Ends q pre name →
      (followLast = false ∨ Unlinked t here q → t.find here q followLast = entry t d q name) ∧
      (followLast = false ∨ Unlinked u here q → u.find here q followLast = entry u d q name) := by
  rcases find_ends same here pre with nowhere | leads
  · obtain ⟨⟨e, failed⟩, -⟩ := nowhere p name followLast ends
    rw [failed] at found
    cases found
  · exact leads

theorem entry_eq_ok {d : Place} {p : Path} {name : Bytes} {target : Target}
    (found : entry t d p name = .ok target) : target = ⟨d ++ [name], t.node? (d ++ [name])⟩ ∧
      ∀ {u : FileTree}, SameWays t u → entry u d p name = .ok ⟨d ++ [name], u.node? (d ++ [name])⟩ := by
  unfold entry at found
  split at found
  · cases found
  · rename_i short
    split at found
    · cases found
    · rename_i there
      split at found
      · cases found
      · rename_i shortName
        refine ⟨(Except.ok.inj found).symm, ?_⟩
        intro u same
        rw [entry, if_neg short, same.isDirectoryAt, if_neg there, if_neg shortName]

theorem entry_congr (same : SameWays t u) {d : Place} {p : Path} {name : Bytes}
    (equal : u.node? (d ++ [name]) = t.node? (d ++ [name])) : entry u d p name = entry t d p name := by
  rw [entry, entry, same.isDirectoryAt, equal]

theorem exists_of_find {p : Path} (found : u.find here p true = t.find here p true) :
    u.exists here p = t.exists here p := by
  rw [FileTree.exists, FileTree.exists, stat, stat, existing, existing, found]

/-- Links stand at the same places in both trees. -/
theorem unlinked_congr (same : SameWays t u) {p : Path} {pre : List Bytes} {name : Bytes}
    (ends : Ends p pre name) (unlinked : Unlinked t here p) : Unlinked u here p := by
  intro q target found
  obtain ⟨d, leads⟩ := entries_of_found same.symm ends found
  obtain ⟨inSecond, inFirst⟩ := leads p name false ends
  rw [inSecond (.inl rfl)] at found
  obtain ⟨is, elsewhere⟩ := entry_eq_ok found
  have isLink : u.node? (d ++ [name]) = some (.link target) := (congrArg Target.node is).symm
  apply unlinked (d ++ [name]) target
  rw [inFirst (.inl rfl), elsewhere same.symm, same.symm.link isLink]

end BugHunt.Proofs.Ways
