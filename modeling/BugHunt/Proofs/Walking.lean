import BugHunt.FileTree.Operations
import BugHunt.Proofs.Anchoring
/-!
Where absolute forms lead: what a path leads to from a directory, its absolute form leads to from
everywhere. Dots and repeated slashes cost only looks at directories, which succeeded before. A walk
that finds something is told as a trail of its steps.
-/

namespace BugHunt.Proofs.Walking
open Names AbsoluteForms Anchoring FileTree

variable {t : FileTree} {links : Nat} {here : Place}

/-- A path that is neither empty nor too long leads where its pieces do, and no other path leads
anywhere. -/
theorem find_eq_ok {p : Path} {followLast : Bool} {target : Target} :
    t.find here p followLast = .ok target ↔ p.bytes ≠ [] ∧ p.bytes.length ≤ longestPath ∧
      t.walk followLast mostLinks (if p.isAbsolute then [] else here) p.pieces = .ok target := by
  unfold find
  split
  · rename_i empty
    simp [empty]
  · rename_i filled
    split
    · rename_i long
      simp [Nat.not_le_of_lt long]
    · rename_i short
      simp [filled, Nat.le_of_not_lt short]

/-- Some idle pieces are left out. -/
inductive Thinned : List Bytes → List Bytes → Prop
  | nil : Thinned [] []
  | keep (piece : Bytes) (h : Thinned ps qs) : Thinned (piece :: ps) (piece :: qs)
  | drop (idle : Path.isIdle piece) (h : Thinned ps qs) : Thinned (piece :: ps) qs

theorem Thinned.refl (ps : List Bytes) : Thinned ps ps := by
  induction ps with
  | nil => exact .nil
  | cons piece rest ih => exact .keep piece ih

theorem Thinned.append (h : Thinned ps qs) (more : Thinned ps' qs') :
    Thinned (ps ++ ps') (qs ++ qs') := by
  induction h with
  | nil => exact more
  | keep piece _ ih => exact .keep piece ih
  | drop idle _ ih => exact .drop idle ih

theorem thinned_filter (ps : List Bytes) : Thinned ps (ps.filter (!Path.isIdle ·)) := by
  induction ps with
  | nil => exact .nil
  | cons piece rest ih =>
    by_cases idle : Path.isIdle piece
    · rw [List.filter_cons_of_neg (by simpa using idle)]
      exact .drop idle ih
    · rw [List.filter_cons_of_pos (by simpa using idle)]
      exact .keep piece ih

theorem idle_of_thinned {ps : List Bytes} (thin : Thinned ps []) : ∀ piece ∈ ps, Path.isIdle piece := by
  generalize none : ([] : List Bytes) = qs at thin
  induction thin with
  | nil => simp
  | keep piece _ => cases none
  | drop idle _ ih => exact List.forall_mem_cons.mpr ⟨idle, ih none⟩

/-- Before a piece that was kept only idle pieces were left out. -/
theorem Thinned.split {ps qs : List Bytes} {piece : Bytes} (thin : Thinned ps (piece :: qs)) :
    ∃ before rest, ps = before ++ piece :: rest ∧ (∀ other ∈ before, Path.isIdle other) ∧
      Thinned rest qs := by
  generalize whole : piece :: qs = all at thin
  induction thin with
  | nil => cases whole
  | keep piece thin =>
    obtain ⟨rfl, rfl⟩ := List.cons.inj whole
    exact ⟨[], _, rfl, by simp, thin⟩
  | drop idle thin ih =>
    obtain ⟨before, rest, rfl, idles, thin⟩ := ih whole
    exact ⟨_ :: before, rest, rfl, List.forall_mem_cons.mpr ⟨idle, idles⟩, thin⟩

theorem walk_idle (there : t.isDirectoryAt here) {piece : Bytes} (idle : Path.isIdle piece)
    (rest : List Bytes) :
    t.walk true links here (piece :: rest) = t.walk true links here rest := by
  rw [walk]
  simp [there, idle]

/-- A step of a walk into an entry of a directory. -/
theorem walk_busy (there : t.isDirectoryAt here) {piece : Bytes} (busy : ¬ Path.isIdle piece)
    (name : piece ≠ [Path.dot, Path.dot]) (short : ¬ longestName < piece.length)
    (rest : List Bytes) :
    t.walk true links here (piece :: rest) = match t.node? (here ++ [piece]) with
      | none =>
        if rest.all (·.isEmpty) then .ok ⟨here ++ [piece], none⟩ else .error .noEntry
      | some (.link target) =>
        match links with
        | 0 => .error .linkLoop
        | links + 1 =>
          t.walk true links (if target.isAbsolute then [] else here) (target.pieces ++ rest)
      | some _ => t.walk true links (here ++ [piece]) rest := by
  rw [walk, if_neg (by simp [there]), if_neg busy, if_neg name, if_neg short]
  cases t.node? (here ++ [piece]) with
  | none => rfl
  | some node =>
    cases node with
    | link target => cases links <;> simp
    | _ => rfl

theorem walk_into (there : t.isDirectoryAt here) {piece : Bytes} (busy : ¬ Path.isIdle piece)
    (name : piece ≠ [Path.dot, Path.dot]) (short : ¬ longestName < piece.length) {node : Node}
    (isNode : t.node? (here ++ [piece]) = some node) (noLink : ∀ target, node ≠ .link target)
    (rest : List Bytes) :
    t.walk true links here (piece :: rest) = t.walk true links (here ++ [piece]) rest := by
  rw [walk_busy there busy name short, isNode]
  cases node with
  | link target => exact absurd rfl (noLink target)
  | _ => rfl

theorem walk_up (there : t.isDirectoryAt here) (rest : List Bytes) :
    t.walk true links here ([Path.dot, Path.dot] :: rest) =
      t.walk true links here.dropLast rest := by
  have busy : Path.isIdle [Path.dot, Path.dot] = false := by decide
  rw [walk]
  simp [there, busy]

/-! ## Trails -/

/-- A walk that finds something, step by step. -/
inductive Trail (t : FileTree) : Nat → Place → List Bytes → Place → Node → Prop
  | found {links : Nat} {here : Place} {node : Node} (isNode : t.node? here = some node) :
    Trail t links here [] here node
  | idle {links : Nat} {here P : Place} {piece : Bytes} {rest : List Bytes} {node : Node}
    (there : t.isDirectoryAt here) (idle : Path.isIdle piece) (more : Trail t links here rest P node) :
    Trail t links here (piece :: rest) P node
  | up {links : Nat} {here P : Place} {rest : List Bytes} {node : Node} (there : t.isDirectoryAt here)
    (more : Trail t links here.dropLast rest P node) :
    Trail t links here ([Path.dot, Path.dot] :: rest) P node
  | link {links : Nat} {here P : Place} {piece : Bytes} {rest : List Bytes} {node : Node} {target : Path}
    (there : t.isDirectoryAt here) (busy : ¬ Path.isIdle piece) (name : piece ≠ [Path.dot, Path.dot])
    (short : ¬ longestName < piece.length) (isLink : t.node? (here ++ [piece]) = some (.link target))
    (more : Trail t links (if target.isAbsolute then [] else here) (target.pieces ++ rest) P node) :
    Trail t (links + 1) here (piece :: rest) P node
  | into {links : Nat} {here P : Place} {piece : Bytes} {rest : List Bytes} {node entry : Node}
    (there : t.isDirectoryAt here) (busy : ¬ Path.isIdle piece) (name : piece ≠ [Path.dot, Path.dot])
    (short : ¬ longestName < piece.length) (isNode : t.node? (here ++ [piece]) = some entry)
    (noLink : ∀ target, entry ≠ .link target) (more : Trail t links (here ++ [piece]) rest P node) :
    Trail t links here (piece :: rest) P node

theorem Trail.walk {ps : List Bytes} {place : Place} {node : Node}
    (trail : Trail t links here ps place node) :
    t.walk true links here ps = .ok ⟨place, some node⟩ := by
  induction trail with
  | found isNode => rw [FileTree.walk, isNode]
  | idle there idle more ih => rw [walk_idle there idle, ih]
  | up there more ih => rw [walk_up there, ih]
  | link there busy name short isLink more ih => rw [walk_busy there busy name short, isLink, ← ih]
  | into there busy name short isNode noLink more ih => rw [walk_into there busy name short isNode noLink, ih]

theorem trail_of_walk {ps : List Bytes} {place : Place} {node : Node}
    (found : t.walk true links here ps = .ok ⟨place, some node⟩) : Trail t links here ps place node := by
  induction links, here, ps using FileTree.walk.induct t true with
  | case1 links here =>
    rw [walk] at found
    obtain ⟨rfl, isNode⟩ := Target.mk.inj (Except.ok.inj found)
    exact .found isNode
  | case2 links here piece rest noDirectory =>
    rw [walk] at found
    simp [noDirectory] at found
  | case3 links here piece rest there idle ih =>
    have there : t.isDirectoryAt here := by simpa using there
    rw [walk_idle there idle] at found
    exact .idle there idle (ih found)
  | case4 links here rest there busy ih =>
    have there : t.isDirectoryAt here := by simpa using there
    rw [walk_up there] at found
    exact .up there (ih found)
  | case5 links here piece rest there busy name long =>
    rw [walk] at found
    simp [there, busy, name, long] at found
  | case6 links here piece rest there busy name short free last =>
    rw [walk_busy (by simpa using there) busy name short] at found
    simp [free, last] at found
  | case7 links here piece rest there busy name short free more =>
    rw [walk_busy (by simpa using there) busy name short] at found
    simp [free, more] at found
  | case8 links here piece rest there busy name short target isLink last => simp at last
  | case9 here piece rest there busy name short target isLink more =>
    rw [walk_busy (by simpa using there) busy name short] at found
    simp [isLink] at found
  | case10 here piece rest there busy name short target isLink more links ih =>
    have there : t.isDirectoryAt here := by simpa using there
    rw [walk_busy there busy name short, isLink] at found
    exact .link there busy name short isLink (ih found)
  | case11 links here piece rest there busy name short node noLink isNode ih =>
    have there : t.isDirectoryAt here := by simpa using there
    rw [walk_into there busy name short isNode noLink] at found
    exact .into there busy name short isNode noLink (ih found)

theorem trail_iff {ps : List Bytes} {place : Place} {node : Node} :
    Trail t links here ps place node ↔ t.walk true links here ps = .ok ⟨place, some node⟩ :=
  ⟨Trail.walk, trail_of_walk⟩

theorem not_idle_up : ¬ Path.isIdle [Path.dot, Path.dot] := by decide

theorem Trail.thinned {ps qs : List Bytes} {place : Place} {node : Node} (thin : Thinned ps qs)
    (trail : Trail t links here ps place node) : Trail t links here qs place node := by
  induction trail generalizing qs with
  | found isNode =>
    cases thin
    exact .found isNode
  | idle there idle more ih =>
    cases thin with
    | keep _ thin => exact .idle there idle (ih thin)
    | drop _ thin => exact ih thin
  | up there more ih =>
    cases thin with
    | keep _ thin => exact .up there (ih thin)
    | drop idle _ => exact absurd idle not_idle_up
  | link there busy name short isLink more ih =>
    cases thin with
    | keep _ thin => exact .link there busy name short isLink (ih ((Thinned.refl _).append thin))
    | drop idle _ => exact absurd idle busy
  | into there busy name short isNode noLink more ih =>
    cases thin with
    | keep _ thin => exact .into there busy name short isNode noLink (ih thin)
    | drop idle _ => exact absurd idle busy

/-- A trail begins at something, and at a directory if it goes on. -/
theorem Trail.begins {P : Place} {node : Node} {ps : List Bytes} (trail : Trail t links here ps P node) :
    ∃ Q front, Trail t links here [] Q front ∧ (ps ≠ [] → front.isDirectory) := by
  have directory (there : t.isDirectoryAt here) :
      ∃ Q front, Trail t links here [] Q front ∧ (ps ≠ [] → front.isDirectory) := by
    obtain ⟨front, isNode, isDirectory⟩ := (Option.any_eq_true _ _).mp there
    exact ⟨here, front, .found isNode, fun _ => isDirectory⟩
  cases trail with
  | found isNode => exact ⟨here, node, .found isNode, fun more => absurd rfl more⟩
  | idle there => exact directory there
  | up there => exact directory there
  | link there => exact directory there
  | into there => exact directory there

/-- A trail has found something at each step, and a directory if it went on. -/
theorem Trail.front {P : Place} {node : Node} {ps more : List Bytes}
    (trail : Trail t links here (ps ++ more) P node) :
    ∃ Q front, Trail t links here ps Q front ∧ (more ≠ [] → front.isDirectory) := by
  generalize whole : ps ++ more = all at trail
  induction trail generalizing ps with
  | found isNode =>
    obtain ⟨rfl, rfl⟩ := List.append_eq_nil_iff.mp whole
    exact Trail.begins (.found isNode)
  | idle there idle trail ih =>
    cases ps with
    | nil =>
      obtain rfl : more = _ := whole
      exact Trail.begins (.idle there idle trail)
    | cons piece ps =>
      obtain ⟨rfl, rfl⟩ := List.cons.inj whole
      obtain ⟨Q, front, trail, isDirectory⟩ := ih rfl
      exact ⟨Q, front, .idle there idle trail, isDirectory⟩
  | up there trail ih =>
    cases ps with
    | nil =>
      obtain rfl : more = _ := whole
      exact Trail.begins (.up there trail)
    | cons piece ps =>
      obtain ⟨rfl, rfl⟩ := List.cons.inj whole
      obtain ⟨Q, front, trail, isDirectory⟩ := ih rfl
      exact ⟨Q, front, .up there trail, isDirectory⟩
  | link there busy name short isLink trail ih =>
    cases ps with
    | nil =>
      obtain rfl : more = _ := whole
      exact Trail.begins (.link there busy name short isLink trail)
    | cons piece ps =>
      obtain ⟨rfl, rfl⟩ := List.cons.inj whole
      obtain ⟨Q, front, trail, isDirectory⟩ := ih (List.append_assoc ..)
      exact ⟨Q, front, .link there busy name short isLink trail, isDirectory⟩
  | into there busy name short isNode noLink trail ih =>
    cases ps with
    | nil =>
      obtain rfl : more = _ := whole
      exact Trail.begins (.into there busy name short isNode noLink trail)
    | cons piece ps =>
      obtain ⟨rfl, rfl⟩ := List.cons.inj whole
      obtain ⟨Q, front, trail, isDirectory⟩ := ih rfl
      exact ⟨Q, front, .into there busy name short isNode noLink trail, isDirectory⟩

/-- Trails of the same pieces find the same. -/
theorem Trail.unique {P Q : Place} {node other : Node} {ps : List Bytes}
    (trail : Trail t links here ps P node) (also : Trail t links here ps Q other) : node = other := by
  have same := trail.walk.symm.trans also.walk
  exact Option.some.inj (Target.mk.inj (Except.ok.inj same)).2

/-- Idle pieces lead nowhere else. -/
theorem Trail.idles {P : Place} {node : Node} {before ps : List Bytes} (there : t.isDirectoryAt here)
    (idle : ∀ piece ∈ before, Path.isIdle piece) (trail : Trail t links here ps P node) :
    Trail t links here (before ++ ps) P node := by
  induction before with
  | nil => exact trail
  | cons piece before ih =>
    obtain ⟨first, rest⟩ := List.forall_mem_cons.mp idle
    exact .idle there first (ih rest)

/-- Whether a directory is found, or the last piece of a walk is not idle. -/
def Closes (node : Node) (ps : List Bytes) : Prop :=
  node.isDirectory ∨ ∀ piece ∈ ps.getLast?, ¬ Path.isIdle piece

theorem closes_append {node : Node} {before rest : List Bytes} (some : rest ≠ []) :
    Closes node (before ++ rest) ↔ Closes node rest := by
  rw [Closes, Closes, List.getLast?_append, List.getLast?_eq_some_getLast some, Option.some_or]

theorem Closes.rest {node : Node} {piece : Bytes} {before rest : List Bytes}
    (closes : Closes node (before ++ piece :: rest)) : Closes node rest := by
  by_cases none : rest = []
  · exact .inr (by simp [none])
  · rw [List.append_cons] at closes
    exact (closes_append none).mp closes

/-- A trail without idle pieces is one with them, if none of them is the last or a directory is found. -/
theorem Trail.widened {P : Place} {node : Node} {ps qs : List Bytes} (thin : Thinned ps qs)
    (closes : Closes node ps) (trail : Trail t links here qs P node) : Trail t links here ps P node := by
  induction trail generalizing ps with
  | @found links here node isNode =>
    have idle := idle_of_thinned thin
    rcases closes with isDirectory | last
    · have there : t.isDirectoryAt here := by simp [isDirectoryAt, isNode, isDirectory]
      simpa using Trail.idles there idle (.found isNode)
    · cases isLast : ps.getLast? with
      | none =>
        rw [List.getLast?_eq_none_iff.mp isLast]
        exact .found isNode
      | some piece => exact absurd (idle piece (List.mem_of_getLast? isLast)) (last piece isLast)
  | idle there idle trail ih =>
    obtain ⟨before, rest, rfl, idles, thin⟩ := thin.split
    exact .idles there idles (.idle there idle (ih thin closes.rest))
  | up there trail ih =>
    obtain ⟨before, rest, rfl, idles, thin⟩ := thin.split
    exact .idles there idles (.up there (ih thin closes.rest))
  | @link links here P piece rest' node target there busy name short isLink trail ih =>
    obtain ⟨before, rest, rfl, idles, thin⟩ := thin.split
    refine .idles there idles (.link there busy name short isLink ?_)
    -- What the link leads over comes before the rest, so the last piece stays the last if there is a rest.
    cases rest with
    | nil =>
      cases thin
      exact trail
    | cons next rest =>
      refine ih ((Thinned.refl _).append thin) ((closes_append (List.cons_ne_nil next rest)).mpr ?_)
      exact (closes_append (List.cons_ne_nil next rest)).mp (List.append_cons .. ▸ closes)
  | into there busy name short isNode noLink trail ih =>
    obtain ⟨before, rest, rfl, idles, thin⟩ := thin.split
    exact .idles there idles (.into there busy name short isNode noLink (ih thin closes.rest))

/-! ## Absolute paths -/

/-- Whether a place is a directory that is reached over directories with names that are not too
long, as a working directory is. -/
structure Reached (t : FileTree) (place : Place) : Prop where
  directory : ∀ q, q <+: place → t.isDirectoryAt q
  named : ∀ name ∈ place, Proper name ∧ name.length ≤ longestName

theorem noLink_of_isDirectoryAt {place : Place} (there : t.isDirectoryAt place) :
    ∃ node, t.node? place = some node ∧ ∀ target, node ≠ .link target := by
  obtain ⟨node, isNode, isDirectory⟩ := (Option.any_eq_true _ _).mp there
  refine ⟨node, isNode, ?_⟩
  rintro target rfl
  cases isDirectory

theorem not_isIdle {name : Bytes} (h : Proper name) : ¬ Path.isIdle name := by
  simp [Path.isIdle, h.ne_nil, h.ne_dot]

theorem walk_down {place : Place} (named : ∀ name ∈ place, Proper name ∧ name.length ≤ longestName)
    (ways : ∀ q, q <+: place → t.isDirectoryAt (here ++ q)) (rest : List Bytes) :
    t.walk true links here (place ++ rest) = t.walk true links (here ++ place) rest := by
  induction place generalizing here with
  | nil => simp
  | cons name more ih =>
    rw [List.forall_mem_cons] at named
    obtain ⟨node, isNode, noLink⟩ := noLink_of_isDirectoryAt (ways [name] ⟨more, rfl⟩)
    have there : t.isDirectoryAt here := by simpa using ways [] List.nil_prefix
    rw [List.cons_append, walk_into there (not_isIdle named.1.1) named.1.1.ne_dots
      (Nat.not_lt.mpr named.1.2) isNode noLink, ih named.2 ?_, List.append_assoc,
      List.singleton_append]
    intro q within
    have step := ways (name :: q) (List.cons_prefix_cons.mpr ⟨rfl, within⟩)
    rwa [List.append_assoc, List.singleton_append]

/-- The way from the root to a working directory leads there. -/
theorem Reached.walk {place : Place} (reached : Reached t place) (rest : List Bytes) :
    t.walk true links [] (place ++ rest) = t.walk true links place rest :=
  walk_down reached.named (fun q within => by simpa using reached.directory q within) rest

/-- A name leads to an entry of a directory, which may be missing. -/
theorem find_entry (there : t.isDirectoryAt here) {name : Bytes} (proper : Proper name)
    (short : name.length ≤ longestName)
    (noLink : ∀ target, t.node? (here ++ [name]) ≠ some (.link target)) :
    t.find here ⟨name⟩ true = .ok ⟨here ++ [name], t.node? (here ++ [name])⟩ := by
  have relative : (⟨name⟩ : Path).isAbsolute = false := by
    obtain ⟨b, rest, rfl⟩ := List.exists_cons_of_ne_nil proper.ne_nil
    have clean := proper.clean
    rw [List.mem_cons, not_or] at clean
    simpa [Path.isAbsolute] using Ne.symm clean.1
  have fits : ¬ longestPath < name.length := Nat.not_lt.mpr (Nat.le_trans short (by decide))
  have walked : t.walk true mostLinks here [name] =
      .ok ⟨here ++ [name], t.node? (here ++ [name])⟩ := by
    rw [walk_busy there (not_isIdle proper) proper.ne_dots (Nat.not_lt.mpr short)]
    cases isNode : t.node? (here ++ [name]) with
    | none => rfl
    | some node =>
      cases node with
      | link target => exact absurd isNode (noLink target)
      | _ => simp [walk, isNode]
  have pieces : (⟨name⟩ : Path).pieces = [name] := splitOn_of_notMem proper.clean
  simp [find, proper.ne_nil, fits, relative, pieces, walked]

theorem read_entry (there : t.isDirectoryAt here) {name : Bytes} (proper : Proper name)
    (short : name.length ≤ longestName) {content : Bytes} {executable : Bool}
    (isNode : t.node? (here ++ [name]) = some (.file content executable)) :
    t.read here ⟨name⟩ = .ok content := by
  rw [FileTree.read, stat, existing, find_entry there proper short (by simp [isNode]), isNode]
  rfl

theorem exists_entry (there : t.isDirectoryAt here) {name : Bytes} (proper : Proper name)
    (short : name.length ≤ longestName)
    (noLink : ∀ target, t.node? (here ++ [name]) ≠ some (.link target)) :
    t.exists here ⟨name⟩ = (t.node? (here ++ [name])).isSome := by
  rw [FileTree.exists, stat, existing, find_entry there proper short noLink]
  cases t.node? (here ++ [name]) <;> rfl

/-! ## Absolute forms -/

def closing (closed : Bool) : List Bytes := if closed then [[]] else []

theorem thinned_pieces (p : Path) : Thinned p.pieces (names p ++ closing (isClosed p)) := by
  cases closed : isClosed p with
  | false =>
    rw [closing, if_neg (by simp), List.append_nil]
    exact thinned_filter p.pieces
  | true =>
    obtain ⟨init, same⟩ := List.getLast?_eq_some_iff.mp (of_decide_eq_true closed)
    have pieces : p.pieces = Bytes.splitOn Path.slash init ++ [[]] := by
      rw [Path.pieces, same, splitOn_append]
      rfl
    have own : names p = (Bytes.splitOn Path.slash init).filter (!Path.isIdle ·) := by
      rw [names, pieces, List.filter_append]
      simp [Path.isIdle]
    rw [pieces, own, closing, if_pos rfl]
    exact (thinned_filter _).append (.refl _)

theorem splitOn_spelled {ns : List Bytes} {closed : Bool} (some : ns ≠ [])
    (busy : ∀ name ∈ ns, Busy name) :
    Bytes.splitOn Path.slash ([Path.slash].intercalate ns ++
      if closed ∧ ns ≠ [] then [Path.slash] else []) = ns ++ closing closed := by
  have own := splitOn_intercalate some fun name found => (busy name found).clean
  cases closed with
  | false => simpa [closing] using own
  | true =>
    simp only [true_and, if_pos some, closing, if_true]
    rw [splitOn_append, own]
    rfl

/-- A spelled path leads from the root over its names. -/
theorem walk_spelled {l : Bytes} {ns : List Bytes} {closed : Bool} (isLead : IsLead l)
    (busy : ∀ name ∈ ns, Busy name) :
    t.walk true links [] (spelled l ns closed).pieces =
      t.walk true links [] (ns ++ closing closed) := by
  have root : t.isDirectoryAt [] := rfl
  have idle (rest : List Bytes) : t.walk true links [] ([] :: rest) = t.walk true links [] rest :=
    walk_idle root rfl rest
  have led (rest : Bytes) : t.walk true links [] (⟨l ++ rest⟩ : Path).pieces =
      t.walk true links [] (Bytes.splitOn Path.slash rest) := by
    rcases isLead with rfl | rfl
    · rw [Path.pieces, List.singleton_append, splitOn_cons, if_pos rfl, idle]
    · rw [Path.pieces, List.cons_append, List.singleton_append, splitOn_cons, if_pos rfl, splitOn_cons,
        if_pos rfl, idle, idle]
  rw [spelled, List.append_assoc, led]
  by_cases some : ns = []
  · subst some
    cases closed <;> simp [closing, List.intercalate, Bytes.splitOn, idle]
  · rw [splitOn_spelled some busy]

/-- What a path leads to from a working directory, its absolute form leads to from everywhere,
unless that is too long. -/
theorem find_absolute {place : Place} (reached : Reached t place) {p : Path} {q : Place}
    {node : Node} (found : t.find place p true = .ok ⟨q, some node⟩) {start : Path}
    (isStart : start = spelled [Path.slash] place false)
    (short : (Path.absolute start p).bytes.length ≤ longestPath) (elsewhere : Place) :
    t.find elsewhere (Path.absolute start p) true = .ok ⟨q, some node⟩ := by
  have busyPlace : ∀ name ∈ place, Busy name := fun name inside =>
    ⟨by simpa using not_isIdle (reached.named name inside).1, (reached.named name inside).1.clean⟩
  have directory : IsDirectory start := ⟨place, busyPlace, isStart⟩
  obtain ⟨some, -, found⟩ := find_eq_ok.mp found
  have settled := settled_absolute directory some
  have absolute := settled.isAbsolute
  have notEmpty : (Path.absolute start p).bytes ≠ [] := by
    intro none
    simp [Path.isAbsolute, none] at absolute
  have thin := thinned_pieces p
  refine find_eq_ok.mpr ⟨notEmpty, short, ?_⟩
  rw [if_pos absolute]
  cases isAbsolute : p.isAbsolute with
  | true =>
    rw [isAbsolute, if_pos rfl] at found
    rw [absolute_of_isAbsolute isAbsolute, walk_spelled (isLead_lead p) fun _ => busy_of_mem_names]
    exact ((trail_of_walk found).thinned thin).walk
  | false =>
    rw [isAbsolute, if_neg (by simp)] at found
    have busy : ∀ name ∈ place ++ names p, Busy name := fun name inside =>
      (List.mem_append.mp inside).elim (busyPlace name) busy_of_mem_names
    rw [isStart, absolute_of_relative isAbsolute some busyPlace, walk_spelled (.inl rfl) busy,
      List.append_assoc, reached.walk]
    exact ((trail_of_walk found).thinned thin).walk

theorem find_of_read {place : Place} {p : Path} {content : Bytes}
    (isRead : t.read place p = .ok content) :
    ∃ q node, t.find place p true = .ok ⟨q, some node⟩ := by
  cases found : t.find place p true with
  | error e => simp [FileTree.read, stat, existing, found, bind, Except.bind, Functor.map, Except.map] at isRead
  | ok target =>
    obtain ⟨q, node⟩ := target
    cases node with
    | none => simp [FileTree.read, stat, existing, found, bind, Except.bind, Functor.map, Except.map] at isRead
    | some node => exact ⟨q, node, rfl⟩

/-- A file that can be read from a working directory is read by its absolute form from
everywhere. -/
theorem read_absolute {place : Place} (reached : Reached t place) {p : Path} {content : Bytes}
    (isRead : t.read place p = .ok content) {start : Path}
    (isStart : start = spelled [Path.slash] place false)
    (short : (Path.absolute start p).bytes.length ≤ longestPath) (elsewhere : Place) :
    t.existing elsewhere (Path.absolute start p) true = t.existing place p true ∧
      t.read elsewhere (Path.absolute start p) = .ok content := by
  obtain ⟨q, node, found⟩ := find_of_read isRead
  have far := find_absolute reached found isStart short elsewhere
  have same : t.existing elsewhere (Path.absolute start p) true = t.existing place p true := by
    rw [existing, existing, found, far]
  refine ⟨same, ?_⟩
  rw [← isRead, FileTree.read, FileTree.read, stat, stat, same]

end BugHunt.Proofs.Walking
