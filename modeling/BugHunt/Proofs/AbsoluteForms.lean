import BugHunt.Config.Bootstrap
import BugHunt.Proofs.Places
/-!
The spelling of absolute paths: a lead, names between single slashes, and perhaps a slash at the
end. Making a path absolute spells it that way, and a path so spelled stays as it is from every
directory.
-/

namespace BugHunt.Proofs.AbsoluteForms
open Texts Names Places

/-- A piece that stands for something: a name, or a step upwards. -/
structure Busy (piece : Bytes) : Prop where
  busy : Path.isIdle piece = false
  clean : Path.slash ∉ piece

/-- The pieces of a path that stand for something. -/
def names (p : Path) : List Bytes := p.pieces.filter (!Path.isIdle ·)

def twoSlashes (p : Path) : Bool :=
  [Path.slash, Path.slash].isPrefixOf p.bytes &&
    !([Path.slash, Path.slash, Path.slash].isPrefixOf p.bytes)

/-- What an absolute path begins with; two slashes and no third may mean something else than one. -/
def lead (p : Path) : Bytes := if twoSlashes p then [Path.slash, Path.slash] else [Path.slash]

/-- Whether a path ends in a slash. -/
def isClosed (p : Path) : Bool := p.bytes.getLast? = some Path.slash

/-- The path of names after a lead, perhaps with a slash at the end. -/
def spelled (lead : Bytes) (names : List Bytes) (closed : Bool) : Path :=
  ⟨lead ++ [Path.slash].intercalate names ++ if closed ∧ names ≠ [] then [Path.slash] else []⟩

/-- The leads that mean something. -/
def IsLead (lead : Bytes) : Prop := lead = [Path.slash] ∨ lead = [Path.slash, Path.slash]

theorem isLead_lead (p : Path) : IsLead (lead p) := by
  unfold lead IsLead
  split <;> simp

/-! ## Names -/

theorem Busy.some {piece : Bytes} (h : Busy piece) : piece ≠ [] := by
  rintro rfl
  exact absurd h.busy (by decide)

theorem Busy.relative {piece : Bytes} (h : Busy piece) : (⟨piece⟩ : Path).isAbsolute = false := by
  obtain ⟨b, rest, rfl⟩ := List.exists_cons_of_ne_nil h.some
  have clean := h.clean
  rw [List.mem_cons, not_or] at clean
  simpa [Path.isAbsolute] using Ne.symm clean.1

theorem twoSlashes_of_relative {p : Path} (relative : p.isAbsolute = false) :
    twoSlashes p = false := by
  cases bytes : p.bytes with
  | nil => simp [twoSlashes, bytes]
  | cons b rest =>
    have other : b ≠ Path.slash := by simpa [Path.isAbsolute, bytes] using relative
    simp [twoSlashes, bytes, Ne.symm other]

theorem busy_of_mem_names {p : Path} {name : Bytes} (found : name ∈ names p) : Busy name := by
  obtain ⟨inPieces, busy⟩ := List.mem_filter.mp found
  exact ⟨by simpa using busy, separator_notMem_piece inPieces⟩

theorem names_nil : names ⟨[]⟩ = [] := by decide

theorem names_busy {piece : Bytes} (h : Busy piece) : names ⟨piece⟩ = [piece] := by
  rw [names, Path.pieces, splitOn_of_notMem h.clean]
  simp [h.busy]

theorem names_append (before after : Bytes) :
    names ⟨before ++ Path.slash :: after⟩ = names ⟨before⟩ ++ names ⟨after⟩ := by
  rw [names, Path.pieces, splitOn_append, List.filter_append]
  rfl

theorem names_intercalate {pieces : List Bytes} (busy : ∀ piece ∈ pieces, Busy piece) :
    names ⟨[Path.slash].intercalate pieces⟩ = pieces := by
  induction pieces with
  | nil => exact names_nil
  | cons first rest ih =>
    rw [List.forall_mem_cons] at busy
    by_cases last : rest = []
    · subst last
      simpa [List.intercalate] using names_busy busy.1
    · rw [intercalate_cons_of_ne_nil first last, names_append, ih busy.2, names_busy busy.1]
      rfl

/-- A slash at the end adds no name. -/
theorem names_closed (bytes : Bytes) : names ⟨bytes ++ [Path.slash]⟩ = names ⟨bytes⟩ := by
  rw [names_append, names_nil, List.append_nil]

section Spelled

variable {l : Bytes} {ns : List Bytes} {closed : Bool}

theorem names_spelled (isLead : IsLead l) (busy : ∀ name ∈ ns, Busy name) :
    names (spelled l ns closed) = ns := by
  have unclosed : names ⟨l ++ [Path.slash].intercalate ns⟩ = ns := by
    rcases isLead with rfl | rfl
    · have cut := names_append [] ([Path.slash].intercalate ns)
      rwa [names_nil, names_intercalate busy] at cut
    · have cut := names_append [Path.slash] ([Path.slash].intercalate ns)
      rwa [show names ⟨[Path.slash]⟩ = [] by decide, names_intercalate busy] at cut
  unfold spelled
  split
  · rw [names_closed, unclosed]
  · rw [List.append_nil, unclosed]

theorem isAbsolute_spelled (isLead : IsLead l) : (spelled l ns closed).isAbsolute := by
  rcases isLead with rfl | rfl <;> rfl

theorem lead_append (isLead : IsLead l) {rest : Bytes} (head : rest.head? ≠ some Path.slash) :
    lead ⟨l ++ rest⟩ = l := by
  cases rest with
  | nil => rcases isLead with rfl | rfl <;> decide
  | cons b more =>
    have other : b ≠ Path.slash := by simpa using head
    rcases isLead with rfl | rfl <;> simp [lead, twoSlashes, Ne.symm other]

theorem lead_spelled (isLead : IsLead l) (busy : ∀ name ∈ ns, Busy name) :
    lead (spelled l ns closed) = l := by
  rw [spelled, List.append_assoc]
  apply lead_append isLead
  cases ns with
  | nil => simp [List.intercalate]
  | cons first rest =>
    have isBusy := busy first List.mem_cons_self
    obtain ⟨b, more, rfl⟩ := List.exists_cons_of_ne_nil isBusy.some
    have clean := isBusy.clean
    rw [List.mem_cons, not_or] at clean
    rw [intercalate_cons_cons]
    simpa using Ne.symm clean.1

theorem intercalate_concat (ns : List Bytes) (last : Bytes) :
    ∃ before, [Path.slash].intercalate (ns ++ [last]) = before ++ last := by
  by_cases none : ns = []
  · exact ⟨[], by simp [none, List.intercalate]⟩
  · exact ⟨[Path.slash].intercalate ns ++ [Path.slash],
      by rw [intercalate_append_single ns none]; simp⟩

/-- A path that ends in a name does not end in a slash. -/
theorem getLast_spelled (busy : ∀ name ∈ ns, Busy name) (some : ns ≠ []) :
    (spelled l ns false).bytes.getLast? ≠ .some Path.slash := by
  obtain ⟨init, last, rfl⟩ : ∃ init last, ns = init ++ [last] :=
    ⟨ns.dropLast, ns.getLast some, (List.dropLast_concat_getLast some).symm⟩
  have isBusy := busy last (by simp)
  obtain ⟨before, same⟩ := intercalate_concat init last
  have ends : (spelled l (init ++ [last]) false).bytes = l ++ before ++ last := by
    simp [spelled, same]
  rw [ends, List.getLast?_append, List.getLast?_eq_some_getLast isBusy.some, Option.some_or]
  rintro slash
  exact isBusy.clean (Option.some.inj slash ▸ List.getLast_mem isBusy.some)

theorem isClosed_spelled (isLead : IsLead l) (busy : ∀ name ∈ ns, Busy name) :
    isClosed (spelled l ns closed) = (closed || ns.isEmpty) := by
  by_cases none : ns = []
  · subst none
    rcases isLead with rfl | rfl <;> simp [isClosed, spelled, List.intercalate]
  · cases closed with
    | false =>
      rw [isClosed, decide_eq_false (getLast_spelled busy none)]
      simp [none]
    | true => simp [isClosed, spelled, none]

/-- What stands before a name that is joined to a spelled path. -/
theorem front_spelled (isLead : IsLead l) (busy : ∀ name ∈ ns, Busy name) :
    front (spelled l ns closed) = (spelled l ns true).bytes := by
  have some : (spelled l ns closed).bytes ≠ [] := by
    rcases isLead with rfl | rfl <;> simp [spelled]
  have ends := @isClosed_spelled _ _ closed isLead busy
  cases last : (spelled l ns closed).bytes.getLast? with
  | none => exact absurd (List.getLast?_eq_none_iff.mp last) some
  | some b =>
    rw [isClosed, last] at ends
    rw [front, last]
    by_cases isSlash : b = Path.slash <;> cases closed <;> cases ns <;> simp_all [spelled]

theorem join_spelled (isLead : IsLead l) (busy : ∀ name ∈ ns, Busy name) {piece : Bytes}
    (isBusy : Busy piece) :
    (spelled l ns closed).join ⟨piece⟩ = spelled l (ns ++ [piece]) false := by
  have bytes := join_bytes (p := spelled l ns closed) isBusy.relative
  rw [front_spelled isLead busy] at bytes
  refine congrArg Path.mk (bytes.trans ?_)
  by_cases none : ns = []
  · simp [spelled, none, List.intercalate]
  · simp [spelled, none, intercalate_append_single ns none]

theorem closed_spelled (isLead : IsLead l) (busy : ∀ name ∈ ns, Busy name) :
    (spelled l ns closed).join ⟨[]⟩ = spelled l ns true := by
  have bytes := @join_bytes (spelled l ns closed) ⟨[]⟩ rfl
  rw [front_spelled isLead busy, List.append_nil] at bytes
  exact congrArg Path.mk bytes

theorem foldl_join_spelled (isLead : IsLead l) {more : List Path.Component}
    (busy : ∀ name ∈ ns, Busy name) (moreBusy : ∀ component ∈ more, Busy component.piece) :
    more.foldl (fun q component => q.join ⟨component.piece⟩) (spelled l ns false) =
      spelled l (ns ++ more.map Path.Component.piece) false := by
  induction more generalizing ns with
  | nil => simp
  | cons component rest ih =>
    rw [List.forall_mem_cons] at moreBusy
    rw [List.foldl_cons, join_spelled isLead busy moreBusy.1, ih ?_ moreBusy.2]
    · simp
    · intro name found
      rcases List.mem_append.mp found with before | last
      · exact busy name before
      · rw [List.mem_singleton.mp last]
        exact moreBusy.1

end Spelled

/-! ## Absolute forms -/

theorem names_eq (p : Path) :
    (p.components.filter fun c => c != .root && c != .here).map Path.Component.piece = names p := by
  rw [named_components, names]
  induction p.pieces with
  | nil => rfl
  | cons piece rest ih =>
    by_cases idle : Path.isIdle piece
    · have none : Path.Component.ofPiece? piece = none := if_pos idle
      rw [List.filterMap_cons, none, List.filter_cons_of_neg (by simpa using idle), ih]
    · obtain ⟨component, is, same⟩ : ∃ component,
          Path.Component.ofPiece? piece = some component ∧ component.piece = piece := by
        rw [show Path.Component.ofPiece? piece = _ from if_neg idle]
        split
        · rename_i dots
          exact ⟨.up, rfl, dots.symm⟩
        · exact ⟨.normal piece, rfl, rfl⟩
      rw [List.filterMap_cons, is, List.filter_cons_of_pos (by simpa using idle), List.map_cons,
        same, ih]

/-- The names of a path, one after the other, from a spelled path on. -/
theorem foldl_components {l : Bytes} {ns : List Bytes} (isLead : IsLead l)
    (busy : ∀ name ∈ ns, Busy name) (p : Path) :
    (p.components.filter fun c => c != .root && c != .here).foldl
      (fun q c => q.join ⟨c.piece⟩) (spelled l ns false) = spelled l (ns ++ names p) false := by
  rw [foldl_join_spelled isLead busy, names_eq]
  intro component found
  refine @busy_of_mem_names p _ ?_
  rw [← names_eq]
  exact List.mem_map_of_mem found

theorem closing {l : Bytes} {ns : List Bytes} (isLead : IsLead l) (busy : ∀ name ∈ ns, Busy name)
    (p : Path) :
    (if p.bytes.getLast? = some Path.slash then (spelled l ns false).join ⟨[]⟩
      else spelled l ns false) = spelled l ns (isClosed p) := by
  unfold isClosed
  split
  · rename_i closed
    rw [closed_spelled isLead busy, decide_eq_true closed]
  · rename_i unclosed
    rw [decide_eq_false unclosed]

/-- An absolute path is spelled the same from everywhere. -/
theorem absolute_of_isAbsolute {p : Path} (absolute : p.isAbsolute) (start : Path) :
    Path.absolute start p = spelled (lead p) (names p) (isClosed p) := by
  have some : p.bytes ≠ [] := by
    intro none
    simp [Path.isAbsolute, none] at absolute
  have base : (if twoSlashes p then (⟨[Path.slash, Path.slash]⟩ : Path)
      else if p.isAbsolute then ⟨[Path.slash]⟩ else start) = spelled (lead p) [] false := by
    rw [if_pos absolute, lead]
    split <;> rfl
  have full := @foldl_components (lead p) [] (isLead_lead p) (by simp) p
  rw [← base, List.nil_append] at full
  rw [Path.absolute, Path.absolute?, if_neg some, Option.getD_some]
  refine Eq.trans ?_ (closing (isLead_lead p) (fun _ => busy_of_mem_names) p)
  rw [← full]
  rfl

/-- A relative path is spelled after the directory that it is seen from. -/
theorem absolute_of_relative {p : Path} (relative : p.isAbsolute = false) (some : p.bytes ≠ [])
    {ns : List Bytes} (busy : ∀ name ∈ ns, Busy name) :
    Path.absolute (spelled [Path.slash] ns false) p =
      spelled [Path.slash] (ns ++ names p) (isClosed p) := by
  have oneSlash : IsLead [Path.slash] := .inl rfl
  have base : (if twoSlashes p then (⟨[Path.slash, Path.slash]⟩ : Path)
      else if p.isAbsolute then ⟨[Path.slash]⟩ else spelled [Path.slash] ns false) =
      spelled [Path.slash] ns false := by
    rw [twoSlashes_of_relative relative, relative]
    rfl
  have full := foldl_components oneSlash busy p
  rw [← base] at full
  have allBusy : ∀ name ∈ ns ++ names p, Busy name := by
    intro name found
    exact (List.mem_append.mp found).elim (busy name) busy_of_mem_names
  rw [Path.absolute, Path.absolute?, if_neg some, Option.getD_some]
  refine Eq.trans ?_ (closing oneSlash allBusy p)
  rw [← full]
  rfl

/-- Whether a path is spelled as absolute paths are. -/
def Settled (p : Path) : Prop :=
  ∃ l ns closed, IsLead l ∧ (∀ name ∈ ns, Busy name) ∧ p = spelled l ns closed

/-- A working directory, as the system tells it: names after one slash. -/
def IsDirectory (p : Path) : Prop :=
  ∃ ns, (∀ name ∈ ns, Busy name) ∧ p = spelled [Path.slash] ns false

theorem Settled.absolute {p : Path} (settled : Settled p) (start : Path) :
    Path.absolute start p = p := by
  obtain ⟨l, ns, closed, isLead, busy, rfl⟩ := settled
  rw [absolute_of_isAbsolute (isAbsolute_spelled isLead), lead_spelled isLead busy,
    names_spelled isLead busy, isClosed_spelled isLead busy]
  cases ns <;> simp [spelled]

theorem Settled.isAbsolute {p : Path} (settled : Settled p) : p.isAbsolute := by
  obtain ⟨l, ns, closed, isLead, busy, rfl⟩ := settled
  exact isAbsolute_spelled isLead

theorem settled_absolute {start : Path} (directory : IsDirectory start) {p : Path}
    (some : p.bytes ≠ []) : Settled (Path.absolute start p) := by
  obtain ⟨ns, busy, rfl⟩ := directory
  cases absolute : p.isAbsolute with
  | true => exact ⟨_, _, _, isLead_lead p, fun _ => busy_of_mem_names, absolute_of_isAbsolute absolute _⟩
  | false =>
    refine ⟨_, _, _, .inl rfl, ?_, absolute_of_relative absolute some busy⟩
    intro name found
    exact (List.mem_append.mp found).elim (busy name) busy_of_mem_names

/-! ## Paths that are text -/

/-- Whether a path is shown as it is. -/
def Textual (p : Path) : Prop := ∃ text, p = Path.ofString text

theorem splitOn_clean_append {before rest piece : Bytes} {others : List Bytes}
    (clean : Path.slash ∉ before) (pieces : Bytes.splitOn Path.slash rest = piece :: others) :
    Bytes.splitOn Path.slash (before ++ rest) = (before ++ piece) :: others := by
  induction before with
  | nil => exact pieces
  | cons b more ih =>
    rw [List.mem_cons, not_or] at clean
    rw [List.cons_append, splitOn_cons, if_neg (Ne.symm clean.1), ih clean.2]
    rfl

theorem chars_of_piece {chars : List Char} {piece : Bytes}
    (found : piece ∈ Bytes.splitOn Path.slash (chars.flatMap String.utf8EncodeChar)) :
    ∃ own : List Char, piece = own.flatMap String.utf8EncodeChar := by
  induction chars generalizing piece with
  | nil => exact ⟨[], by simpa [Bytes.splitOn] using found⟩
  | cons c rest ih =>
    rw [List.flatMap_cons] at found
    by_cases isSlash : c = '/'
    · subst isSlash
      have one : String.utf8EncodeChar '/' = [Path.slash] := by decide
      rw [one, List.singleton_append, splitOn_cons, if_pos rfl] at found
      rcases List.mem_cons.mp found with rfl | later
      · exact ⟨[], rfl⟩
      · exact ih later
    · have clean : Path.slash ∉ String.utf8EncodeChar c := by
        intro inside
        have value := ascii_mem_utf8EncodeChar (by decide) inside
        rw [← Char.ofNat_toNat c, value] at isSlash
        exact isSlash (by decide)
      obtain ⟨first, others, pieces⟩ :=
        List.exists_cons_of_ne_nil (splitOn_ne_nil Path.slash (rest.flatMap String.utf8EncodeChar))
      rw [splitOn_clean_append clean pieces] at found
      rcases List.mem_cons.mp found with rfl | later
      · obtain ⟨own, same⟩ := ih (pieces ▸ List.mem_cons_self)
        exact ⟨c :: own, by rw [List.flatMap_cons, same]⟩
      · exact ih (pieces ▸ List.mem_cons_of_mem _ later)

theorem text_of_piece {p : Path} (textual : Textual p) {piece : Bytes} (found : piece ∈ p.pieces) :
    ∃ text, piece = utf8 text := by
  obtain ⟨text, rfl⟩ := textual
  obtain ⟨own, same⟩ := chars_of_piece found
  exact ⟨String.ofList own, by rw [same, utf8, String.toList_ofList]⟩

theorem text_of_name {p : Path} (textual : Textual p) {name : Bytes} (found : name ∈ names p) :
    ∃ text, name = utf8 text :=
  text_of_piece textual (List.mem_filter.mp found).1

theorem text_intercalate {ns : List Bytes} (texts : ∀ name ∈ ns, ∃ text, name = utf8 text) :
    ∃ text, [Path.slash].intercalate ns = utf8 text := by
  induction ns with
  | nil => exact ⟨"", rfl⟩
  | cons first rest ih =>
    rw [List.forall_mem_cons] at texts
    obtain ⟨⟨text, rfl⟩, more⟩ := texts
    obtain ⟨after, same⟩ := ih more
    by_cases last : rest = []
    · exact ⟨text, by simp [last, List.intercalate]⟩
    · refine ⟨text ++ "/" ++ after, ?_⟩
      rw [intercalate_cons_of_ne_nil _ last, same, utf8_append, utf8_append, List.append_assoc]
      rfl

theorem textual_spelled {l : Bytes} {ns : List Bytes} {closed : Bool} (isLead : IsLead l)
    (texts : ∀ name ∈ ns, ∃ text, name = utf8 text) : Textual (spelled l ns closed) := by
  obtain ⟨text, same⟩ := text_intercalate texts
  obtain ⟨before, isBefore⟩ : ∃ before, l = utf8 before := by
    rcases isLead with rfl | rfl
    · exact ⟨"/", by decide⟩
    · exact ⟨"//", by decide⟩
  unfold spelled
  split
  · exact ⟨before ++ text ++ "/", by rw [same, isBefore, Path.ofString, utf8_append, utf8_append]; rfl⟩
  · exact ⟨before ++ text, by rw [same, isBefore, Path.ofString, utf8_append, List.append_nil]⟩

theorem textual_absolute {start p : Path} (directory : IsDirectory start) (shown : Textual start)
    (textual : Textual p) : Textual (Path.absolute start p) := by
  by_cases none : p.bytes = []
  · rwa [Path.absolute, Path.absolute?_eq_none_iff.mpr none]
  · obtain ⟨ns, busy, rfl⟩ := directory
    have own : names (spelled [Path.slash] ns false) = ns := names_spelled (.inl rfl) busy
    cases absolute : p.isAbsolute with
    | true =>
      rw [absolute_of_isAbsolute absolute]
      exact textual_spelled (isLead_lead p) fun _ => text_of_name textual
    | false =>
      rw [absolute_of_relative absolute none busy]
      refine textual_spelled (.inl rfl) fun name found => ?_
      rcases List.mem_append.mp found with before | after
      · exact text_of_name shown (own.symm ▸ before)
      · exact text_of_name textual after

/-- An entry of a settled directory is settled. -/
theorem settled_entry {p : Path} (settled : Settled p) {name : String} (busy : Busy (utf8 name)) :
    Settled (p / name) := by
  obtain ⟨l, ns, closed, isLead, allBusy, rfl⟩ := settled
  refine ⟨l, ns ++ [utf8 name], false, isLead, ?_, join_spelled isLead allBusy busy⟩
  intro other found
  rcases List.mem_append.mp found with before | last
  · exact allBusy other before
  · rw [List.mem_singleton.mp last]
    exact busy

theorem textual_join {p q : Path} (textual : Textual p) (also : Textual q) :
    Textual (p.join q) := by
  cases absolute : q.isAbsolute with
  | true => rwa [Path.join, if_pos absolute]
  | false =>
    obtain ⟨text, rfl⟩ := textual
    obtain ⟨more, rfl⟩ := also
    obtain ⟨before, isFront⟩ : ∃ before, front (Path.ofString text) = utf8 before := by
      unfold front
      split
      · exact ⟨"", rfl⟩
      · split
        · exact ⟨text, rfl⟩
        · exact ⟨text ++ "/", by rw [utf8_append]; rfl⟩
    have bytes := @join_bytes (Path.ofString text) _ absolute
    rw [isFront] at bytes
    exact ⟨before ++ more, congrArg Path.mk (bytes.trans (utf8_append before more).symm)⟩

theorem display_ofString (text : String) : (Path.ofString text).display = text :=
  lossy_utf8 text

end BugHunt.Proofs.AbsoluteForms
