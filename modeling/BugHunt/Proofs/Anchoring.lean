import BugHunt.Proofs.AbsoluteForms
/-!
Paths in a settings file are seen from the directory that the file lies in. That directory is the
same one however the file was named, and wherever it is named from in full.
-/

namespace BugHunt.Proofs.Anchoring
open Texts Names Places AbsoluteForms

/-! ## Pieces -/

theorem splitOn_intercalate {pieces : List Bytes} (some : pieces ≠ [])
    (clean : ∀ piece ∈ pieces, Path.slash ∉ piece) :
    Bytes.splitOn Path.slash ([Path.slash].intercalate pieces) = pieces := by
  induction pieces with
  | nil => exact absurd rfl some
  | cons first rest ih =>
    rw [List.forall_mem_cons] at clean
    by_cases last : rest = []
    · subst last
      simpa [List.intercalate] using splitOn_of_notMem clean.1
    · rw [intercalate_cons_of_ne_nil first last, splitOn_append, ih last clean.2,
        splitOn_of_notMem clean.1]
      rfl

theorem intercalate_append {before after : List Bytes} (some : before ≠ [])
    (more : after ≠ []) :
    [Path.slash].intercalate (before ++ after) =
      [Path.slash].intercalate before ++ Path.slash :: [Path.slash].intercalate after := by
  induction before with
  | nil => exact absurd rfl some
  | cons first rest ih =>
    by_cases last : rest = []
    · subst last
      simpa [List.intercalate] using intercalate_cons_of_ne_nil first more
    · rw [List.cons_append, intercalate_cons_of_ne_nil first (by simp [last]), ih last,
        intercalate_cons_of_ne_nil first last]
      simp

/-- A path is absolute when a slash follows nothing. -/
theorem isAbsolute_of_pieces {p : Path} {first : Bytes} {more : List Bytes}
    (pieces : p.pieces = first :: more) : p.isAbsolute = (first.isEmpty && !more.isEmpty) := by
  have bytes := intercalate_splitOn p.bytes
  rw [show Bytes.splitOn Path.slash p.bytes = first :: more from pieces] at bytes
  have clean : Path.slash ∉ first := by
    apply @separator_notMem_piece _ p.bytes
    rw [show Bytes.splitOn Path.slash p.bytes = first :: more from pieces]
    exact List.mem_cons_self
  rw [Path.isAbsolute, ← bytes]
  cases first with
  | nil =>
    cases more with
    | nil => rfl
    | cons second rest => rfl
  | cons b rest =>
    rw [List.mem_cons, not_or] at clean
    rw [intercalate_cons_cons]
    simpa using Ne.symm clean.1

/-- A path with names has a byte that is no slash. -/
theorem exists_ne_slash {p : Path} (some : names p ≠ []) : ∃ b ∈ p.bytes, b ≠ Path.slash := by
  obtain ⟨name, found⟩ := List.exists_mem_of_ne_nil _ some
  have busy := busy_of_mem_names found
  obtain ⟨b, inName⟩ := List.exists_mem_of_ne_nil _ busy.some
  exact ⟨b, mem_of_mem_piece (List.mem_filter.mp found).1 inName,
    fun same => busy.clean (same ▸ inName)⟩

/-- What comes after the names of a path does not change its lead. -/
theorem lead_of_append {p : Path} (some : names p ≠ []) (after : Bytes) :
    lead ⟨p.bytes ++ after⟩ = lead p := by
  obtain ⟨b, found, other⟩ := exists_ne_slash some
  obtain ⟨bytes⟩ := p
  match bytes, found with
  | [_], found =>
    obtain rfl := List.mem_singleton.mp found
    simp [lead, twoSlashes, Ne.symm other]
  | [c, d], found =>
    have unlike : ¬ (Path.slash = c ∧ Path.slash = d) := by
      rintro ⟨rfl, rfl⟩
      simp at found
      exact other found
    simp [lead, twoSlashes, unlike]
  | _ :: _ :: _ :: _, _ => simp [lead, twoSlashes, List.isPrefixOf]

/-! ## Parents -/

theorem names_of_fileName {p : Path} {name : Bytes} (named : p.fileName? = some name) :
    names p ≠ [] := by
  intro none
  have found : Path.Component.normal name ∈
      p.components.filter fun c => c != .root && c != .here :=
    List.mem_filter.mpr ⟨component_of_fileName? named, by simp⟩
  have inNames := List.mem_map_of_mem (f := Path.Component.piece) found
  rw [names_eq, none] at inNames
  cases inNames

/-- The pieces of a path with names: what comes before the last name, the name, and idle ones. -/
theorem pieces_of_names {p : Path} (some : names p ≠ []) :
    ∃ before name after, p.pieces = before.reverse ++ name :: after ∧
      p.trimmed = name :: before ∧ Path.isIdle name = false ∧
      names p = before.reverse.filter (!Path.isIdle ·) ++ [name] := by
  have split := List.takeWhile_append_dropWhile (p := Path.isIdle) (l := p.pieces.reverse)
  have allIdle : ∀ piece ∈ p.pieces.reverse.takeWhile Path.isIdle, Path.isIdle piece :=
    List.all_eq_true.mp List.all_takeWhile
  cases tail : p.pieces.reverse.dropWhile Path.isIdle with
  | nil =>
    refine absurd ?_ some
    rw [tail, List.append_nil] at split
    rw [names, List.filter_eq_nil_iff]
    intro piece found
    rw [split] at allIdle
    simp [allIdle piece (List.mem_reverse.mpr found)]
  | cons name before =>
    have busy : Path.isIdle name = false := by
      have := List.head_dropWhile_not Path.isIdle (l := p.pieces.reverse) (by simp [tail])
      simpa [tail] using this
    rw [tail] at split
    have pieces : p.pieces = before.reverse ++
        name :: (p.pieces.reverse.takeWhile Path.isIdle).reverse := by
      simpa using (congrArg List.reverse split).symm
    refine ⟨before, name, _, pieces, by simp [Path.trimmed, tail], busy, ?_⟩
    have none : (p.pieces.reverse.takeWhile Path.isIdle).reverse.filter (!Path.isIdle ·) = [] := by
      rw [List.filter_eq_nil_iff]
      intro piece found
      simp [allIdle piece (List.mem_reverse.mp found)]
    conv => lhs; rw [names, pieces]
    rw [List.filter_append, List.filter_cons_of_pos (by simp [busy]), none]

/-- What a path's parent is: the path without its last name. Only where nothing but slashes is left
of an absolute path, its lead is not kept. -/
structure IsParent (p d : Path) : Prop where
  names : names d = (names p).dropLast
  absolute : p.isAbsolute →
    d = ⟨[Path.slash]⟩ ∨ d.isAbsolute ∧ AbsoluteForms.names d ≠ [] ∧ lead d = lead p
  relative : p.isAbsolute = false → d.isAbsolute = false
  textual : Textual p → Textual d

theorem names_of_isIdle {piece : Bytes} (idle : Path.isIdle piece) (clean : Path.slash ∉ piece) :
    names ⟨piece⟩ = [] := by
  rw [names, Path.pieces, splitOn_of_notMem clean]
  simp [idle]

/-- The last component of a path with names is no root. -/
theorem getLast_of_names {p : Path} (named : names p ≠ []) :
    ∃ component, p.components.getLast? = some component ∧ component ≠ .root := by
  have body : (p.pieces.filterMap Path.Component.ofPiece?).map Path.Component.piece = names p := by
    rw [← named_components, names_eq]
  cases last : (p.pieces.filterMap Path.Component.ofPiece?).getLast? with
  | none =>
    rw [List.getLast?_eq_none_iff.mp last] at body
    exact absurd body.symm named
  | some component =>
    refine ⟨component, ?_, ?_⟩
    · unfold Path.components
      dsimp only
      split
      · simp [List.getLast?_cons, last]
      · split <;> simp [List.getLast?_cons, last]
    · rintro rfl
      have found := List.mem_of_getLast? last
      rw [← named_components, List.mem_filter] at found
      exact absurd found.2 (by decide)

/-- The parent of a path whose last name nothing but idle pieces come before. -/
theorem isParent_idle {p d : Path} {first name : Bytes} {between after : List Bytes}
    (pieces : p.pieces = first :: between ++ name :: after) (none : (names p).dropLast = [])
    (idle : Path.isIdle first) (is : d = if first = [] then ⟨[Path.slash]⟩ else ⟨first⟩) :
    IsParent p d := by
  have absolute := isAbsolute_of_pieces pieces
  have clean : Path.slash ∉ first := by
    apply @separator_notMem_piece _ p.bytes
    rw [show Bytes.splitOn Path.slash p.bytes = first :: between ++ name :: after from pieces]
    exact List.mem_cons_self
  subst is
  by_cases root : first = []
  · subst root
    refine ⟨by rw [none]; decide, fun _ => .inl rfl, fun relative => ?_, fun _ => ⟨"/", by decide⟩⟩
    simp [relative] at absolute
  · rw [if_neg root]
    refine ⟨by rw [none, names_of_isIdle idle clean], fun isAbsolute => ?_, fun _ => ?_,
      fun textual => ?_⟩
    · simp [isAbsolute, root] at absolute
    · obtain ⟨b, rest, rfl⟩ := List.exists_cons_of_ne_nil root
      rw [List.mem_cons, not_or] at clean
      simpa [Path.isAbsolute] using Ne.symm clean.1
    · have inPieces : first ∈ p.pieces := by simp [pieces]
      obtain ⟨text, same⟩ := text_of_piece textual inPieces
      exact ⟨text, congrArg Path.mk same⟩

/-- The parent of a path with pieces that a busy one comes last of, before its last name. -/
theorem isParent_pieces {p : Path} {kept after : List Bytes} {last : Bytes}
    (pieces : p.pieces = kept ++ last :: after) (more : after ≠ [])
    (busy : Path.isIdle last = false)
    (all : (names p).dropLast = (kept ++ [last]).filter (!Path.isIdle ·)) :
    IsParent p (Path.ofPieces (kept ++ [last])) := by
  have some : kept ++ [last] ≠ [] := by simp
  have whole : p.pieces = (kept ++ [last]) ++ after := by simp [pieces]
  have clean : ∀ piece ∈ kept ++ [last], Path.slash ∉ piece := by
    intro piece found
    apply @separator_notMem_piece _ p.bytes
    rw [show Bytes.splitOn Path.slash p.bytes = (kept ++ [last]) ++ after from whole]
    exact List.mem_append_left _ found
  have ownPieces : (Path.ofPieces (kept ++ [last])).pieces = kept ++ [last] :=
    splitOn_intercalate some clean
  have ownNames : names (Path.ofPieces (kept ++ [last])) = (names p).dropLast := by
    rw [names, ownPieces, all]
  have named : names (Path.ofPieces (kept ++ [last])) ≠ [] := by
    rw [ownNames, all, List.filter_append]
    simp [busy]
  have bytes : p.bytes = (Path.ofPieces (kept ++ [last])).bytes ++
      Path.slash :: [Path.slash].intercalate after := by
    rw [← intercalate_splitOn p.bytes,
      show Bytes.splitOn Path.slash p.bytes = (kept ++ [last]) ++ after from whole,
      intercalate_append some more]
    rfl
  have absolute : p.isAbsolute = (Path.ofPieces (kept ++ [last])).isAbsolute := by
    obtain ⟨b, found, -⟩ := exists_ne_slash named
    obtain ⟨c, rest, own⟩ := List.exists_cons_of_ne_nil (List.ne_nil_of_mem found)
    simp [Path.isAbsolute, bytes, own]
  refine ⟨ownNames, fun isAbsolute => .inr ⟨absolute ▸ isAbsolute, named, ?_⟩,
    fun relative => absolute ▸ relative, fun textual => ?_⟩
  · rw [← lead_of_append named (Path.slash :: [Path.slash].intercalate after), ← bytes]
  · obtain ⟨text, same⟩ := text_intercalate fun piece found =>
      text_of_piece textual (whole ▸ List.mem_append_left after found)
    exact ⟨text, congrArg Path.mk same⟩

theorem parent_of_trimmed {p : Path} {component : Path.Component} {name : Bytes}
    {before : List Bytes} (last : p.components.getLast? = some component) (noRoot : component ≠ .root)
    (trimmed : p.trimmed = name :: before) :
    p.parent? = match before.dropWhile Path.isIdle, before.getLast? with
      | [], none => some ⟨[]⟩
      | [], some [] => some ⟨[Path.slash]⟩
      | [], some first => some ⟨first⟩
      | rest, _ => some (Path.ofPieces rest.reverse) := by
  rw [Path.parent?, last, trimmed]
  cases component <;> first | rfl | exact absurd rfl noRoot

theorem parent_of_names {p : Path} (named : names p ≠ []) :
    ∃ d, p.parent? = some d ∧ IsParent p d := by
  obtain ⟨before, name, after, pieces, trimmed, busy, allNames⟩ := pieces_of_names named
  obtain ⟨component, last, noRoot⟩ := getLast_of_names named
  have init : (names p).dropLast = before.reverse.filter (!Path.isIdle ·) := by
    rw [allNames, List.dropLast_concat]
  have split := List.takeWhile_append_dropWhile (p := Path.isIdle) (l := before)
  have idle : ∀ piece ∈ before.takeWhile Path.isIdle, Path.isIdle piece :=
    List.all_eq_true.mp List.all_takeWhile
  have noNames : (before.takeWhile Path.isIdle).reverse.filter (!Path.isIdle ·) = [] := by
    rw [List.filter_eq_nil_iff]
    intro piece found
    simp [idle piece (List.mem_reverse.mp found)]
  rw [parent_of_trimmed last noRoot trimmed]
  cases rest : before.dropWhile Path.isIdle with
  | nil =>
    rw [rest, List.append_nil] at split
    rw [split] at idle noNames
    cases front : before.getLast? with
    | none =>
      obtain rfl := List.getLast?_eq_none_iff.mp front
      have relative : p.isAbsolute = false := by
        rw [isAbsolute_of_pieces pieces]
        have : name ≠ [] := fun none => absurd busy (by rw [none]; decide)
        simp [this]
      exact ⟨_, rfl, by rw [init]; decide, fun isAbsolute => by simp [relative] at isAbsolute,
        fun _ => rfl, fun _ => ⟨"", rfl⟩⟩
    | some first =>
      obtain ⟨between, rfl⟩ := List.getLast?_eq_some_iff.mp front
      have isParent (d : Path) := @isParent_idle p d first name between.reverse after
        (by simpa using pieces) (init.trans noNames) (idle first (by simp))
      cases first with
      | nil => exact ⟨_, rfl, isParent _ rfl⟩
      | cons b more => exact ⟨_, rfl, isParent _ rfl⟩
  | cons first more =>
    have isBusy : Path.isIdle first = false := by
      have := List.head_dropWhile_not Path.isIdle (l := before) (by simp [rest])
      simpa [rest] using this
    rw [rest] at split
    have whole : p.pieces = more.reverse ++ first ::
        ((before.takeWhile Path.isIdle).reverse ++ name :: after) := by
      rw [pieces]
      conv => lhs; rw [← split]
      simp
    have isParent := isParent_pieces whole (by simp) isBusy (by
      rw [init]
      conv => lhs; rw [← split]
      rw [List.reverse_append, List.filter_append, noNames, List.append_nil, List.reverse_cons])
    exact ⟨_, rfl, by simpa using isParent⟩

/-! ## Paths seen from a parent -/

section Joined

variable {d q : Path}

theorem join_eq (relative : q.isAbsolute = false) : d.join q = ⟨front d ++ q.bytes⟩ :=
  congrArg Path.mk (join_bytes relative)

theorem names_join (relative : q.isAbsolute = false) : names (d.join q) = names d ++ names q := by
  rw [join_eq relative]
  cases last : d.bytes.getLast? with
  | none =>
    obtain ⟨own⟩ := d
    obtain rfl : own = [] := List.getLast?_eq_none_iff.mp last
    rw [names_nil]
    rfl
  | some b =>
    rw [front, last]
    by_cases closed : b = Path.slash
    · obtain ⟨init, same⟩ := List.getLast?_eq_some_iff.mp last
      obtain ⟨own⟩ := d
      obtain rfl : own = init ++ [b] := same
      simp only [closed, if_true]
      rw [names_closed, List.append_assoc, List.singleton_append, names_append]
    · simp only [closed, if_false]
      rw [List.append_assoc, List.singleton_append, names_append]

theorem isClosed_join (relative : q.isAbsolute = false) (some : q.bytes ≠ []) :
    isClosed (d.join q) = isClosed q := by
  rw [isClosed, isClosed, join_bytes relative, List.getLast?_append,
    List.getLast?_eq_some_getLast some, Option.some_or]

theorem isAbsolute_join_of_relative (relative : q.isAbsolute = false)
    (alsoRelative : d.isAbsolute = false) : (d.join q).isAbsolute = false := by
  rw [Path.isAbsolute, join_bytes relative]
  cases own : d.bytes with
  | nil => simpa [front, own, Path.isAbsolute] using relative
  | cons b rest =>
    have other : b ≠ Path.slash := by simpa [Path.isAbsolute, own] using alsoRelative
    simp only [front, own]
    split
    · rename_i none
      exact absurd (List.getLast?_eq_none_iff.mp none) (by simp)
    · split <;> simp [other]

theorem lead_join (relative : q.isAbsolute = false) (named : names d ≠ []) :
    lead (d.join q) = lead d := by
  obtain ⟨after, same⟩ : ∃ after, (d.join q).bytes = d.bytes ++ after := by
    rw [join_bytes relative, front]
    split
    · rename_i none
      exact ⟨q.bytes, by rw [List.getLast?_eq_none_iff.mp none]⟩
    · split
      · exact ⟨q.bytes, rfl⟩
      · exact ⟨Path.slash :: q.bytes, by simp⟩
  rw [← lead_of_append named after, ← same]

variable {p : Path}

/-- Seen from the parent of an absolute path, a path is spelled after the names before the last. -/
theorem absolute_join_parent (parent : IsParent p d) (absolute : p.isAbsolute)
    (relative : q.isAbsolute = false) (some : q.bytes ≠ []) (start : Path) :
    Path.absolute start (d.join q) =
      spelled (if (names p).dropLast = [] then [Path.slash] else lead p)
        ((names p).dropLast ++ names q) (isClosed q) := by
  have joined : (d.join q).isAbsolute := by
    rcases parent.absolute absolute with rfl | ⟨isAbsolute, -⟩
    · exact isAbsolute_join rfl
    · exact isAbsolute_join isAbsolute
  have isLead : lead (d.join q) = if (names p).dropLast = [] then [Path.slash] else lead p := by
    rw [← parent.names]
    rcases parent.absolute absolute with rfl | ⟨-, named, same⟩
    · rw [if_pos (by decide), join_eq relative]
      exact lead_append (.inl rfl) (by simpa [Path.isAbsolute] using relative)
    · rw [if_neg named, lead_join relative named, same]
  rw [absolute_of_isAbsolute joined, isLead, names_join relative, parent.names,
    isClosed_join relative some]

theorem absolute_join_relative_parent (parent : IsParent p d) (alsoRelative : p.isAbsolute = false)
    (relative : q.isAbsolute = false) (some : q.bytes ≠ []) {ns : List Bytes}
    (busy : ∀ name ∈ ns, Busy name) :
    Path.absolute (spelled [Path.slash] ns false) (d.join q) =
      spelled [Path.slash] (ns ++ (names p).dropLast ++ names q) (isClosed q) := by
  have joined : (d.join q).bytes ≠ [] := by
    rw [join_bytes relative]
    simp [some]
  rw [absolute_of_relative (isAbsolute_join_of_relative relative (parent.relative alsoRelative))
    joined busy, names_join relative, parent.names, isClosed_join relative some, List.append_assoc]

end Joined

/-- A path in a settings file means the same when the file is named from elsewhere, in full. -/
theorem anchor_settingsDir {start file q : Path} {name : Bytes} (directory : IsDirectory start)
    (named : file.fileName? = some name) (some : q.bytes ≠ []) (elsewhere : Path) :
    Config.anchor elsewhere (Config.settingsDir (Option.some (Path.absolute start file))) q =
      Config.anchor start (Config.settingsDir (Option.some file)) q := by
  have fileNamed := names_of_fileName named
  obtain ⟨d, isParent, parent⟩ := parent_of_names fileNamed
  obtain ⟨ns, busy, rfl⟩ := directory
  cases relative : q.isAbsolute with
  | true =>
    have joined (base : Path) : base.join q = q := by rw [Path.join, if_pos relative]
    simp only [Config.anchor, joined, absolute_of_isAbsolute relative]
  | false =>
    cases absolute : file.isAbsolute with
    | true =>
      have full := absolute_of_isAbsolute absolute (spelled [Path.slash] ns false)
      have isLead := isLead_lead file
      have busyNames : ∀ name ∈ names file, Busy name := fun _ => busy_of_mem_names
      have sameNames := @names_spelled _ _ (isClosed file) isLead busyNames
      obtain ⟨d', isParent', parent'⟩ := @parent_of_names
        (spelled (lead file) (names file) (isClosed file)) (by rwa [sameNames])
      have there := absolute_join_parent parent' (isAbsolute_spelled isLead) relative some elsewhere
      rw [sameNames, lead_spelled isLead busyNames] at there
      simp only [Config.anchor, Config.settingsDir, Option.bind_some, full, isParent, isParent',
        Option.getD_some]
      rw [there, absolute_join_parent parent absolute relative some]
    | false =>
      have full := absolute_of_relative absolute (by
        intro none
        obtain ⟨bytes⟩ := file
        obtain rfl : bytes = [] := none
        exact fileNamed names_nil) busy
      have isLead : IsLead [Path.slash] := .inl rfl
      have busyNames : ∀ name ∈ ns ++ names file, Busy name := fun name found =>
        (List.mem_append.mp found).elim (busy name) busy_of_mem_names
      have sameNames := @names_spelled _ _ (isClosed file) isLead busyNames
      obtain ⟨d', isParent', parent'⟩ := @parent_of_names
        (spelled [Path.slash] (ns ++ names file) (isClosed file)) (by simp [sameNames, fileNamed])
      have there := absolute_join_parent parent' (isAbsolute_spelled isLead) relative some elsewhere
      rw [sameNames, lead_spelled isLead busyNames, ite_self,
        List.dropLast_append_of_ne_nil fileNamed] at there
      simp only [Config.anchor, Config.settingsDir, Option.bind_some, full, isParent, isParent',
        Option.getD_some]
      rw [there, absolute_join_relative_parent parent absolute relative some busy]

end BugHunt.Proofs.Anchoring
