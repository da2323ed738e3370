import BugHunt.Oracle.Sentinel
import BugHunt.Proofs.Names
import BugHunt.FileTree.Basic
/-!
Where a path leads when there are no links: each name one step down, two dots one step up.
-/

namespace BugHunt.Proofs.Places
open Texts Names

def step (here : Place) : Path.Component → Place
  | .root => []
  | .here => here
  | .up => here.dropLast
  | .normal name => here ++ [name]

/-- The place that a path leads to from `here`. -/
def placeOf (here : Place) (p : Path) : Place := p.components.foldl step here

/-- The place in terms of the pieces between slashes. -/
theorem placeOf_eq (here : Place) (p : Path) :
    placeOf here p = (p.pieces.filterMap Path.Component.ofPiece?).foldl step
      (if p.isAbsolute then [] else here) := by
  unfold placeOf Path.components
  dsimp only
  split
  · rfl
  · split <;> rfl

theorem component_of_proper {name : Bytes} (h : Proper name) :
    Path.Component.ofPiece? name = some (.normal name) := by
  simp [Path.Component.ofPiece?, h.ne_nil, h.ne_dot, h.ne_dots]

theorem isAbsolute_append {before after : Bytes} (some : before ≠ []) :
    (⟨before ++ after⟩ : Path).isAbsolute = (⟨before⟩ : Path).isAbsolute := by
  cases before with
  | nil => exact absurd rfl some
  | cons b rest => rfl

theorem filterMap_single (piece : Bytes) :
    [piece].filterMap Path.Component.ofPiece? = (Path.Component.ofPiece? piece).toList := by
  cases found : Path.Component.ofPiece? piece <;> simp [found]

/-- A piece that is joined to a path leads on from where the path leads. -/
theorem placeOf_join_piece (here : Place) (d : Path) {piece : Bytes}
    (clean : Path.slash ∉ piece) :
    placeOf here (d.join ⟨piece⟩) =
      (Path.Component.ofPiece? piece).toList.foldl step (placeOf here d) := by
  have relative : (⟨piece⟩ : Path).isAbsolute = false := by
    cases piece with
    | nil => rfl
    | cons b rest =>
      rw [List.mem_cons, not_or] at clean
      simpa [Path.isAbsolute] using Ne.symm clean.1
  have alone := splitOn_of_notMem clean
  obtain ⟨bytes⟩ := d
  rw [placeOf_eq, placeOf_eq]
  cases last : bytes.getLast? with
  | none =>
    obtain rfl := List.getLast?_eq_none_iff.mp last
    have same : (⟨[]⟩ : Path).join ⟨piece⟩ = ⟨piece⟩ := by
      simp [Path.join, relative]
    rw [same]
    simp only [Path.pieces, alone, relative, filterMap_single]
    rfl
  | some b =>
    by_cases ends : b = Path.slash
    · obtain ⟨init, rfl⟩ := List.getLast?_eq_some_iff.mp last
      subst ends
      have same : (⟨init ++ [Path.slash]⟩ : Path).join ⟨piece⟩ =
          ⟨init ++ Path.slash :: piece⟩ := by
        simp [Path.join, relative]
      have absolute : (⟨init ++ Path.slash :: piece⟩ : Path).isAbsolute =
          (⟨init ++ [Path.slash]⟩ : Path).isAbsolute := by
        have := @isAbsolute_append (init ++ [Path.slash]) piece (by simp)
        simpa using this
      rw [same, absolute]
      simp only [Path.pieces, splitOn_append, alone, List.filterMap_append, List.foldl_append,
        filterMap_single]
      rfl
    · have some : bytes ≠ [] := by
        rintro rfl
        cases last
      have same : (⟨bytes⟩ : Path).join ⟨piece⟩ = ⟨bytes ++ Path.slash :: piece⟩ := by
        simp [Path.join, relative, last, ends]
      rw [same, isAbsolute_append some]
      simp only [Path.pieces, splitOn_append, alone, List.filterMap_append, List.foldl_append,
        filterMap_single]

/-- A name that is joined to a path leads one step down from where the path leads. -/
theorem placeOf_join (here : Place) (d : Path) {name : Bytes} (h : Proper name) :
    placeOf here (d.join ⟨name⟩) = placeOf here d ++ [name] := by
  rw [placeOf_join_piece here d h.clean, component_of_proper h]
  rfl

theorem placeOf_entry (here : Place) (d : Path) {name : String} (h : Proper (utf8 name)) :
    placeOf here (d / Path.ofString name) = placeOf here d ++ [utf8 name] :=
  placeOf_join here d h

theorem placeOf_name (here : Place) {name : Bytes} (h : Proper name) :
    placeOf here ⟨name⟩ = here ++ [name] := by
  have joined := placeOf_join here ⟨[]⟩ h
  have same : (⟨[]⟩ : Path).join ⟨name⟩ = ⟨name⟩ := by
    simp [Path.join]
  rw [same] at joined
  exact joined

/-- The place of a path with a file name ends in that name. -/
theorem placeOf_fileName (here : Place) {p : Path} {name : Bytes} (named : p.fileName? = some name) :
    ∃ parent, placeOf here p = parent ++ [name] := by
  obtain ⟨init, same⟩ := List.getLast?_eq_some_iff.mp (last_of_fileName? named)
  exact ⟨init.foldl step here, by simp [placeOf, same, step]⟩

/-! ## Entries of a directory -/

theorem intercalate_cons_of_ne_nil (first : Bytes) {rest : List Bytes} (more : rest ≠ []) :
    [Path.slash].intercalate (first :: rest) =
      first ++ Path.slash :: [Path.slash].intercalate rest := by
  cases rest with
  | nil => exact absurd rfl more
  | cons second rest => simp [List.intercalate, List.intersperse]

theorem intercalate_cons_cons (b : UInt8) (piece : Bytes) (rest : List Bytes) :
    [Path.slash].intercalate ((b :: piece) :: rest) =
      b :: [Path.slash].intercalate (piece :: rest) := by
  cases rest with
  | nil => simp [List.intercalate]
  | cons second rest => simp [List.intercalate, List.intersperse]

/-- The pieces between slashes, joined by slashes, are the path again. -/
theorem intercalate_splitOn (bytes : Bytes) :
    [Path.slash].intercalate (Bytes.splitOn Path.slash bytes) = bytes := by
  induction bytes with
  | nil => rfl
  | cons b rest ih =>
    rw [splitOn_cons]
    split
    · rename_i same
      rw [intercalate_cons_of_ne_nil _ (splitOn_ne_nil _ _), ih, same]
      rfl
    · cases pieces : Bytes.splitOn Path.slash rest with
      | nil => exact absurd pieces (splitOn_ne_nil _ _)
      | cons piece others =>
        rw [pieces] at ih
        rw [intercalate_cons_cons, ih]

theorem intercalate_append_single (pieces : List Bytes) (some : pieces ≠ []) (last : Bytes) :
    [Path.slash].intercalate (pieces ++ [last]) =
      [Path.slash].intercalate pieces ++ Path.slash :: last := by
  induction pieces with
  | nil => exact absurd rfl some
  | cons first rest ih =>
    cases rest with
    | nil => simp [List.intercalate, List.intersperse]
    | cons second rest =>
      have more : second :: rest ≠ [] := by simp
      rw [List.cons_append, intercalate_cons_of_ne_nil first (by simp), ih more,
        intercalate_cons_of_ne_nil first more]
      simp

/-- Bytes that end where a name begins: any name after them is a piece of its own. -/
def Lead (lead : Bytes) (before : List Bytes) : Prop :=
  ∀ piece, Path.slash ∉ piece →
    Bytes.splitOn Path.slash (lead ++ piece) = before ++ [piece] ∧
    [Path.slash].intercalate (before ++ [piece]) = lead ++ piece

theorem lead_nil : Lead [] [] :=
  fun _ clean => ⟨splitOn_of_notMem clean, by simp [List.intercalate]⟩

theorem lead_slash (init : Bytes) :
    Lead (init ++ [Path.slash]) (Bytes.splitOn Path.slash init) := by
  refine fun piece clean => ⟨?_, ?_⟩
  · rw [List.append_assoc, List.singleton_append, splitOn_append, splitOn_of_notMem clean]
  · rw [intercalate_append_single _ (splitOn_ne_nil _ _), intercalate_splitOn]
    simp

theorem lead_front (d : Path) : ∃ before, Lead (front d) before := by
  unfold front
  split
  · exact ⟨_, lead_nil⟩
  · rename_i last found
    split
    · rename_i ends
      obtain ⟨init, same⟩ := List.getLast?_eq_some_iff.mp found
      rw [same, ends]
      exact ⟨_, lead_slash init⟩
    · exact ⟨_, lead_slash d.bytes⟩

/-- A path is a lead and the piece that it ends in. -/
theorem lead_of_pieces {p : Path} {before : List Bytes} {name : Bytes}
    (pieces : p.pieces = before ++ [name]) :
    ∃ lead, Lead lead before ∧ p.bytes = lead ++ name := by
  have bytes := intercalate_splitOn p.bytes
  rw [show Bytes.splitOn Path.slash p.bytes = before ++ [name] from pieces] at bytes
  by_cases none : before = []
  · subst none
    exact ⟨[], lead_nil, by simpa [List.intercalate] using bytes.symm⟩
  · refine ⟨[Path.slash].intercalate before ++ [Path.slash], ?_, ?_⟩
    · have init := lead_slash ([Path.slash].intercalate before)
      have same : Bytes.splitOn Path.slash ([Path.slash].intercalate before) = before := by
        rw [intercalate_append_single before none] at bytes
        have split := congrArg (Bytes.splitOn Path.slash) bytes
        rw [splitOn_append, show Bytes.splitOn Path.slash p.bytes = before ++ [name] from pieces]
          at split
        have clean : Path.slash ∉ name :=
          separator_notMem_piece (show name ∈ Bytes.splitOn Path.slash p.bytes from by
            rw [show Bytes.splitOn Path.slash p.bytes = before ++ [name] from pieces]; simp)
        rw [splitOn_of_notMem clean] at split
        exact List.append_cancel_right split
      rwa [same] at init
    · rw [← bytes, intercalate_append_single before none]
      simp

theorem getLast_components {p : Path} {before : List Bytes} {piece : Bytes}
    {component : Path.Component} (pieces : p.pieces = before ++ [piece])
    (is : Path.Component.ofPiece? piece = some component) :
    p.components.getLast? = some component := by
  have body : p.pieces.filterMap Path.Component.ofPiece? =
      before.filterMap Path.Component.ofPiece? ++ [component] := by
    rw [pieces, List.filterMap_append, filterMap_single, is]
    rfl
  unfold Path.components
  rw [body]
  dsimp only
  split
  · rw [← List.cons_append, List.getLast?_concat]
  · split
    · rw [← List.cons_append, List.getLast?_concat]
    · rw [List.getLast?_concat]

theorem fileName_of_pieces {p : Path} {before : List Bytes} {name : Bytes} (h : Proper name)
    (pieces : p.pieces = before ++ [name]) : p.fileName? = some name := by
  simp [Path.fileName?, getLast_components pieces (component_of_proper h)]

theorem entry_fileName (d : Path) {name : String} (h : Proper (utf8 name)) :
    (d / Path.ofString name).fileName? = some (utf8 name) := by
  obtain ⟨before, lead⟩ := lead_front d
  apply fileName_of_pieces h
  rw [Path.pieces, entry_bytes d h.text]
  exact (lead _ h.clean).1

/-- What may stand before the dot of a name with an extension. -/
structure Stem (stem : Bytes) : Prop where
  named : stem ≠ []
  noDot : stem ≠ [Path.dot]
  clean : Path.slash ∉ stem

theorem slash_ne_dot : Path.slash ≠ Path.dot := by decide

theorem utf8_dot : utf8 "." = [Path.dot] := by decide

theorem Stem.dotted_clean {stem extension : Bytes} (h : Stem stem)
    (clean : Path.slash ∉ extension) : Path.slash ∉ stem ++ Path.dot :: extension := by
  simp [h.clean, clean, slash_ne_dot]

theorem Stem.proper {stem extension : Bytes} (h : Stem stem) (clean : Path.slash ∉ extension) :
    Proper (stem ++ Path.dot :: extension) := by
  obtain ⟨b, rest, bytes⟩ := List.exists_cons_of_ne_nil h.named
  refine ⟨by simp [bytes], by simp [bytes], ?_, h.dotted_clean clean⟩
  intro same
  simp only [bytes, List.cons_append] at same
  obtain ⟨rfl, same⟩ := List.cons.inj same
  cases rest with
  | nil => exact h.noDot bytes
  | cons c more => cases more <;> simp at same

theorem extension_of_lead {lead stem extension : Bytes} {before : List Bytes}
    (isLead : Lead lead before) (h : Stem stem) (clean : Path.slash ∉ extension)
    (plain : Path.dot ∉ extension) :
    (⟨lead ++ (stem ++ Path.dot :: extension)⟩ : Path).extension? = some extension := by
  rw [Path.extension?, fileName_of_pieces (h.proper clean) (isLead _ (h.dotted_clean clean)).1,
    Option.bind_some, splitName_dot h.named plain]

/-- Another extension makes another name at the same place of a path. -/
theorem withExtension_of_lead {lead stem old : Bytes} {before : List Bytes} {new : String}
    (isLead : Lead lead before) (h : Stem stem) (clean : Path.slash ∉ old)
    (plain : Path.dot ∉ old) (cleanNew : Path.slash ∉ utf8 new) :
    (⟨lead ++ (stem ++ Path.dot :: old)⟩ : Path).withExtension new =
      ⟨lead ++ (stem ++ Path.dot :: utf8 new)⟩ := by
  have cutDot : Path.slash ∉ stem ++ [Path.dot] := h.dotted_clean (by simp)
  have cut : (lead ++ (stem ++ Path.dot :: old)).take
      ((lead ++ (stem ++ Path.dot :: old)).length - old.length) =
      lead ++ (stem ++ [Path.dot]) := by
    have same : lead ++ (stem ++ Path.dot :: old) = lead ++ (stem ++ [Path.dot]) ++ old := by simp
    rw [same]
    apply List.take_left'
    simp
    omega
  have cutPieces : (⟨lead ++ (stem ++ [Path.dot])⟩ : Path).pieces =
      before ++ [stem ++ [Path.dot]] := (isLead _ cutDot).1
  have trimmed : (⟨lead ++ (stem ++ [Path.dot])⟩ : Path).trimmed =
      (stem ++ [Path.dot]) :: before.reverse := by
    have notIdle : Path.isIdle (stem ++ [Path.dot]) = false := by
      simp [Path.isIdle, h.named]
    simp [Path.trimmed, cutPieces, notIdle]
  have stemOnly : (Path.splitName (stem ++ [Path.dot])).1 = stem := by
    rw [splitName_dot h.named (by simp)]
  rw [Path.withExtension, extension_of_lead isLead h clean plain, Option.getD_some, cut,
    Path.setExtension, fileName_of_pieces (h.proper (by simp)) cutPieces, trimmed]
  simp only [stemOnly, List.reverse_cons, List.reverse_reverse, Path.ofPieces]
  rw [(isLead _ (h.dotted_clean cleanNew)).2]

/-- Nothing but two dots is left of a name that is a dot, a dot and the extension. -/
theorem withExtension_of_dots {lead old : Bytes} {before : List Bytes} {new : String}
    (isLead : Lead lead before) (clean : Path.slash ∉ old) (plain : Path.dot ∉ old)
    (some : old ≠ []) :
    (⟨lead ++ (Path.dot :: Path.dot :: old)⟩ : Path).withExtension new =
      ⟨lead ++ [Path.dot, Path.dot]⟩ := by
  have cleanDots : Path.slash ∉ [Path.dot, Path.dot] := by decide
  have proper : Proper (Path.dot :: Path.dot :: old) := by
    refine ⟨by simp, by simp, by simpa using some, by simp [clean, slash_ne_dot]⟩
  have pieces : (⟨lead ++ (Path.dot :: Path.dot :: old)⟩ : Path).pieces =
      before ++ [Path.dot :: Path.dot :: old] := (isLead _ proper.clean).1
  have extension : (⟨lead ++ (Path.dot :: Path.dot :: old)⟩ : Path).extension? =
      Option.some old := by
    rw [Path.extension?, fileName_of_pieces proper pieces, Option.bind_some]
    have := @splitName_dot [Path.dot] old (by simp) plain
    rw [show Path.dot :: Path.dot :: old = [Path.dot] ++ Path.dot :: old from rfl, this]
  have cut : (lead ++ (Path.dot :: Path.dot :: old)).take
      ((lead ++ (Path.dot :: Path.dot :: old)).length - old.length) =
      lead ++ [Path.dot, Path.dot] := by
    have same : lead ++ (Path.dot :: Path.dot :: old) = lead ++ [Path.dot, Path.dot] ++ old := by
      simp
    rw [same]
    apply List.take_left'
    simp
    omega
  have unnamed : (⟨lead ++ [Path.dot, Path.dot]⟩ : Path).fileName? = none := by
    have last := @getLast_components ⟨lead ++ [Path.dot, Path.dot]⟩ _ _ .up
      (isLead _ cleanDots).1 (by decide)
    simp [Path.fileName?, last]
  rw [Path.withExtension, extension, Option.getD_some, cut, Path.setExtension, unnamed]

/-- The last piece of a path, when it is not idle, is its file name. -/
theorem pieces_of_fileName {p : Path} {name : Bytes} (named : p.fileName? = some name)
    (busy : p.pieces.getLast?.any Path.isIdle = false) : ∃ before, p.pieces = before ++ [name] := by
  cases last : p.pieces.getLast? with
  | none => exact absurd (List.getLast?_eq_none_iff.mp last) (splitOn_ne_nil _ _)
  | some piece =>
    obtain ⟨before, pieces⟩ := List.getLast?_eq_some_iff.mp last
    have busy : Path.isIdle piece = false := by simpa [last] using busy
    refine ⟨before, ?_⟩
    by_cases up : piece = [Path.dot, Path.dot]
    · have isUp : Path.Component.ofPiece? piece = some .up := by
        rw [up]
        decide
      rw [Path.fileName?, getLast_components pieces isUp] at named
      cases named
    · have isName : Path.Component.ofPiece? piece = some (.normal piece) := by
        simp only [Path.isIdle] at busy
        simp [Path.Component.ofPiece?, busy, up]
      rw [Path.fileName?, getLast_components pieces isName] at named
      obtain rfl := Option.some.inj named
      exact pieces

/-- What follows the last dot is the same however a name is cut. -/
theorem extension_unique {stem other extension another : Bytes} (plain : Path.dot ∉ extension)
    (alsoPlain : Path.dot ∉ another)
    (same : stem ++ Path.dot :: extension = other ++ Path.dot :: another) : extension = another := by
  rcases List.append_eq_append_iff.mp same with ⟨rest, -, cut⟩ | ⟨rest, -, cut⟩
  · cases rest with
    | nil => exact (List.cons.inj cut).2
    | cons b rest =>
      obtain ⟨-, rfl⟩ := List.cons.inj cut
      simp at plain
  · cases rest with
    | nil => exact (List.cons.inj cut).2.symm
    | cons b rest =>
      obtain ⟨-, rfl⟩ := List.cons.inj cut
      simp at alsoPlain

/-- The file name of a program: a stem, a dot, and the extension that its kind follows from. -/
structure Programmed (p : Path) (kind : Kind) (stem extension : Bytes) : Prop where
  named : p.fileName? = some (stem ++ Path.dot :: extension)
  stemmed : stem ≠ []
  plain : Path.dot ∉ extension
  known : (Text.decode? extension).bind Kind.ofExtension? = some kind

theorem programmed_of_kind {p : Path} {kind : Kind} (isKind : Kind.ofPath? p = some kind) :
    ∃ stem extension, Programmed p kind stem extension := by
  obtain ⟨extension, hasExtension, text, decoded, known⟩ : ∃ extension,
      p.extension? = some extension ∧ ∃ text, Text.decode? extension = some text ∧
        Kind.ofExtension? text = some kind := by
    simpa [Kind.ofPath?, Option.bind_eq_some_iff] using isKind
  obtain ⟨name, named, cut⟩ := Option.bind_eq_some_iff.mp hasExtension
  rcases splitName_eq name with h | ⟨stem, cutOff, h, some, rfl, plain⟩
  · rw [h] at cut
    cases cut
  · obtain rfl : cutOff = extension := by simpa [h] using cut
    exact ⟨stem, cutOff, named, some, plain, by rw [decoded, Option.bind_some, known]⟩

section Programmed

variable {p : Path} {kind : Kind} {stem extension : Bytes}

theorem Programmed.proper (h : Programmed p kind stem extension) :
    Proper (stem ++ Path.dot :: extension) := proper_of_fileName? h.named

theorem Programmed.clean (h : Programmed p kind stem extension) :
    Path.slash ∉ stem ∧ Path.slash ∉ extension := by
  have clean := h.proper.clean
  simp only [List.mem_append, List.mem_cons, not_or] at clean
  exact ⟨clean.1, clean.2.2⟩

/-- A name with an extension that stands for another kind, or none, is not a program's name. -/
theorem Programmed.ne_ended (h : Programmed p kind stem extension) {other : Bytes} {ending : String}
    (plain : Path.dot ∉ utf8 ending)
    (unlike : (Text.decode? (utf8 ending)).bind Kind.ofExtension? ≠ some kind) :
    stem ++ Path.dot :: extension ≠ other ++ Path.dot :: utf8 ending := by
  intro same
  have := extension_unique h.plain plain same
  rw [← this, h.known] at unlike
  exact unlike rfl

end Programmed

/-- Where the paths lead that begin with one lead. -/
theorem placeOf_lead (here : Place) {lead : Bytes} {before : List Bytes}
    (isLead : Lead lead before) :
    ∃ parent, ∀ piece, Path.slash ∉ piece →
      placeOf here ⟨lead ++ piece⟩ = (Path.Component.ofPiece? piece).toList.foldl step parent := by
  have absolute (piece : Bytes) (clean : Path.slash ∉ piece) :
      (⟨lead ++ piece⟩ : Path).isAbsolute = (⟨lead⟩ : Path).isAbsolute := by
    cases lead with
    | cons b rest => rfl
    | nil =>
      cases piece with
      | nil => rfl
      | cons b rest =>
        rw [List.mem_cons, not_or] at clean
        simpa [Path.isAbsolute] using Ne.symm clean.1
  refine ⟨(before.filterMap Path.Component.ofPiece?).foldl step
    (if (⟨lead⟩ : Path).isAbsolute then [] else here), fun piece clean => ?_⟩
  rw [placeOf_eq, absolute piece clean, show (⟨lead ++ piece⟩ : Path).pieces = before ++ [piece]
    from (isLead piece clean).1, List.filterMap_append, List.foldl_append, filterMap_single]

/-- A program with another extension lies beside it. Only where the name is two dots and the
extension, nothing but the directory above is left. -/
theorem placeOf_withExtension (here : Place) {p : Path} {kind : Kind} {stem extension : Bytes}
    {new : String} (h : Programmed p kind stem extension)
    (busy : p.pieces.getLast?.any Path.isIdle = false) (cleanNew : Path.slash ∉ utf8 new) :
    ∃ parent, placeOf here p = parent ++ [stem ++ Path.dot :: extension] ∧
      placeOf here (p.withExtension new) =
        if stem = [Path.dot] then parent.dropLast else parent ++ [stem ++ Path.dot :: utf8 new] := by
  obtain ⟨before, pieces⟩ := pieces_of_fileName h.named busy
  obtain ⟨lead, isLead, bytes⟩ := lead_of_pieces pieces
  obtain ⟨parent, leads⟩ := placeOf_lead here isLead
  obtain rfl : p = ⟨lead ++ (stem ++ Path.dot :: extension)⟩ := congrArg Path.mk bytes
  refine ⟨parent, ?_, ?_⟩
  · rw [leads _ h.proper.clean, component_of_proper h.proper]
    rfl
  · split
    · rename_i dots
      have some : extension ≠ [] := by
        rintro rfl
        have none : (Text.decode? []).bind Kind.ofExtension? = none := by decide +kernel
        have known := h.known
        rw [none] at known
        cases known
      have cut : (⟨lead ++ (stem ++ Path.dot :: extension)⟩ : Path).withExtension new =
          ⟨lead ++ [Path.dot, Path.dot]⟩ := by
        rw [dots]
        exact withExtension_of_dots isLead h.clean.2 h.plain some
      rw [cut, leads _ (by decide)]
      rfl
    · rename_i noDots
      have isStem : Stem stem := ⟨h.stemmed, noDots, h.clean.1⟩
      rw [withExtension_of_lead isLead isStem h.clean.2 h.plain cleanNew,
        leads _ (isStem.dotted_clean cleanNew), component_of_proper (isStem.proper cleanNew)]
      rfl

theorem entry_eq (d : Path) {name : String} (clean : Path.slash ∉ utf8 name) :
    d / Path.ofString name = ⟨front d ++ utf8 name⟩ := by
  have bytes := entry_bytes d (fun found => clean (slash_mem_utf8 found))
  cases path : d / Path.ofString name
  rw [path] at bytes
  exact congrArg Path.mk bytes

/-- An entry with another extension is another entry of the same directory. -/
theorem entry_withExtension (d : Path) {stem old new : String} (h : Stem (utf8 stem))
    (clean : Path.slash ∉ utf8 old) (plain : Path.dot ∉ utf8 old)
    (cleanNew : Path.slash ∉ utf8 new) :
    (d / Path.ofString (stem ++ "." ++ old)).withExtension new =
      d / Path.ofString (stem ++ "." ++ new) := by
  have bytes (extension : String) :
      utf8 (stem ++ "." ++ extension) = utf8 stem ++ Path.dot :: utf8 extension := by
    simp [utf8_dot]
  obtain ⟨before, isLead⟩ := lead_front d
  rw [entry_eq d (by rw [bytes]; exact h.dotted_clean clean),
    entry_eq d (by rw [bytes]; exact h.dotted_clean cleanNew), bytes, bytes]
  exact withExtension_of_lead isLead h clean plain cleanNew

theorem entry_kind (d : Path) {stem extension : String} (h : Stem (utf8 stem))
    (clean : Path.slash ∉ utf8 extension) (plain : Path.dot ∉ utf8 extension) :
    Kind.ofPath? (d / Path.ofString (stem ++ "." ++ extension)) =
      (Text.decode? (utf8 extension)).bind Kind.ofExtension? := by
  have bytes : utf8 (stem ++ "." ++ extension) = utf8 stem ++ Path.dot :: utf8 extension := by
    simp [utf8_dot]
  obtain ⟨before, isLead⟩ := lead_front d
  rw [entry_eq d (by rw [bytes]; exact h.dotted_clean clean), bytes, Kind.ofPath?,
    extension_of_lead isLead h clean plain]
  rfl

theorem isAbsolute_join {d other : Path} (absolute : d.isAbsolute) :
    (d.join other).isAbsolute := by
  unfold Path.join
  split
  · assumption
  · have some : d.bytes ≠ [] := by
      intro none
      simp [Path.isAbsolute, none] at absolute
    split
    · rename_i none
      exact absurd (List.getLast?_eq_none_iff.mp none) some
    · split <;> exact (isAbsolute_append some).trans absolute

/-- An absolute path leads to the same place from everywhere. -/
theorem placeOf_absolute {here there : Place} {p : Path} (absolute : p.isAbsolute) :
    placeOf here p = placeOf there p := by
  rw [placeOf_eq, placeOf_eq, absolute]
  rfl

/-! ## Absolute forms -/

/-- The named components of a path and its steps upwards are the pieces that stand for something. -/
theorem named_components (p : Path) :
    (p.components.filter fun c => c != .root && c != .here) =
      p.pieces.filterMap Path.Component.ofPiece? := by
  have body : (p.pieces.filterMap Path.Component.ofPiece?).filter
      (fun c => c != .root && c != .here) = p.pieces.filterMap Path.Component.ofPiece? := by
    apply List.filter_eq_self.mpr
    intro component found
    obtain ⟨piece, -, is⟩ := List.mem_filterMap.mp found
    obtain ⟨-, rfl⟩ | ⟨-, rfl⟩ := ofPiece?_eq_some.mp is <;> rfl
  unfold Path.components
  dsimp only
  split
  · rw [List.filter_cons_of_neg (by decide), body]
  · split
    · rw [List.filter_cons_of_neg (by decide), body]
    · exact body

theorem placeOf_foldl_join {here : Place} {components : List Path.Component}
    (clean : ∀ component ∈ components, Path.Component.ofPiece? component.piece = some component ∧
      Path.slash ∉ component.piece) (base : Path) :
    placeOf here (components.foldl (fun q component => q.join ⟨component.piece⟩) base) =
      components.foldl step (placeOf here base) := by
  induction components generalizing base with
  | nil => rfl
  | cons component rest ih =>
    rw [List.forall_mem_cons] at clean
    rw [List.foldl_cons, List.foldl_cons, ih clean.2, placeOf_join_piece here base clean.1.2,
      clean.1.1]
    rfl

theorem component_of_piece {p : Path} {component : Path.Component}
    (found : component ∈ p.pieces.filterMap Path.Component.ofPiece?) :
    Path.Component.ofPiece? component.piece = some component ∧ Path.slash ∉ component.piece := by
  obtain ⟨piece, inPieces, is⟩ := List.mem_filterMap.mp found
  obtain ⟨-, rfl⟩ | ⟨-, rfl⟩ := ofPiece?_eq_some.mp is
  · exact ⟨by decide, by decide⟩
  · exact ⟨is, separator_notMem_piece inPieces⟩

/-- Seen from the directory where runs start, a path and its absolute form lead to one place. -/
theorem placeOf_absoluteForm {here : Place} {start : Path} (home : placeOf here start = here)
    (p : Path) : placeOf here (Path.absolute start p) = placeOf here p := by
  unfold Path.absolute Path.absolute?
  split
  · rfl
  · rw [Option.getD_some, placeOf_eq here p, named_components]
    have full (base : Path) (from' : placeOf here base = if p.isAbsolute then [] else here) :
        placeOf here ((p.pieces.filterMap Path.Component.ofPiece?).foldl
          (fun q component => q.join ⟨component.piece⟩) base) =
        (p.pieces.filterMap Path.Component.ofPiece?).foldl step
          (if p.isAbsolute then [] else here) := by
      rw [placeOf_foldl_join (fun _ found => component_of_piece found), from']
    have base : placeOf here (if ([Path.slash, Path.slash].isPrefixOf p.bytes &&
          !([Path.slash, Path.slash, Path.slash].isPrefixOf p.bytes)) = true
        then ⟨[Path.slash, Path.slash]⟩ else if p.isAbsolute then ⟨[Path.slash]⟩ else start) =
        if p.isAbsolute then [] else here := by
      split
      · rename_i slashes
        have absolute : p.isAbsolute := by
          rw [Bool.and_eq_true, List.isPrefixOf_iff_prefix] at slashes
          obtain ⟨rest, bytes⟩ := slashes.1
          simp [Path.isAbsolute, ← bytes]
        rw [if_pos absolute]
        rfl
      · split
        · rfl
        · exact home
    split
    · rw [placeOf_join_piece here _ (by simp), full _ base]
      rfl
    · exact full _ base

theorem isAbsolute_absoluteForm {start p : Path} (absolute : start.isAbsolute)
    (some : p.bytes ≠ []) : (Path.absolute start p).isAbsolute := by
  have joined (components : List Path.Component) (base : Path) (from' : base.isAbsolute) :
      (components.foldl (fun q component => q.join ⟨component.piece⟩) base).isAbsolute := by
    induction components generalizing base with
    | nil => exact from'
    | cons component rest ih => exact ih _ (isAbsolute_join from')
  unfold Path.absolute Path.absolute?
  rw [if_neg some, Option.getD_some]
  have base : (if ([Path.slash, Path.slash].isPrefixOf p.bytes &&
        !([Path.slash, Path.slash, Path.slash].isPrefixOf p.bytes)) = true
      then (⟨[Path.slash, Path.slash]⟩ : Path)
      else if p.isAbsolute then ⟨[Path.slash]⟩ else start).isAbsolute := by
    split
    · rfl
    · split
      · rfl
      · exact absolute
  split
  · exact isAbsolute_join (joined _ _ base)
  · exact joined _ _ base

/-- A path with another one in its absolute form leads to the same place from the directory that
the absolute form leads to. -/
theorem placeOf_from_absoluteForm {here : Place} {start : Path} (absolute : start.isAbsolute)
    (p other : Path) :
    placeOf (placeOf here (Path.absolute start p)) ((Path.absolute start p).join other) =
      placeOf here ((Path.absolute start p).join other) := by
  by_cases none : p.bytes = []
  · have same : Path.absolute start p = p := by
      rw [Path.absolute, Path.absolute?_eq_none_iff.mpr none, Option.getD_none]
    have leads : placeOf here p = here := by
      obtain ⟨bytes⟩ := p
      obtain rfl : bytes = [] := none
      rfl
    rw [same, leads]
  · exact placeOf_absolute (isAbsolute_join (isAbsolute_absoluteForm absolute none))

end BugHunt.Proofs.Places
