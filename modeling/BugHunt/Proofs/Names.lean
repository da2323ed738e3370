import BugHunt.Proofs.Texts
/-!
The names that paths are made of: how a path is cut into names, and the parts of a key.
-/

namespace BugHunt.Proofs.Names
open Texts

/-! ## The pieces of a path -/

theorem splitOn_ne_nil (separator : UInt8) (bytes : Bytes) : bytes.splitOn separator ≠ [] := by
  cases bytes with
  | nil => simp [Bytes.splitOn]
  | cons b rest =>
    simp only [Bytes.splitOn, List.foldr_cons]
    split
    · simp
    · split <;> simp

theorem splitOn_cons (separator b : UInt8) (rest : Bytes) :
    Bytes.splitOn separator (b :: rest) =
      if b = separator then [] :: Bytes.splitOn separator rest
      else match Bytes.splitOn separator rest with
        | [] => [[b]]
        | piece :: others => (b :: piece) :: others := rfl

/-- Bytes without the separator are one piece. -/
theorem splitOn_of_notMem {separator : UInt8} {bytes : Bytes} (clean : separator ∉ bytes) :
    bytes.splitOn separator = [bytes] := by
  induction bytes with
  | nil => rfl
  | cons b rest ih =>
    rw [List.mem_cons, not_or] at clean
    rw [splitOn_cons, if_neg (Ne.symm clean.1), ih clean.2]

theorem splitOn_append (separator : UInt8) (before after : Bytes) :
    Bytes.splitOn separator (before ++ separator :: after) =
      Bytes.splitOn separator before ++ Bytes.splitOn separator after := by
  induction before with
  | nil => simp [splitOn_cons]; rfl
  | cons b rest ih =>
    rw [List.cons_append, splitOn_cons, splitOn_cons, ih]
    split
    · rfl
    · cases pieces : Bytes.splitOn separator rest with
      | nil => exact absurd pieces (splitOn_ne_nil separator rest)
      | cons piece others => rfl

theorem separator_notMem_piece {separator : UInt8} {bytes piece : Bytes}
    (found : piece ∈ bytes.splitOn separator) : separator ∉ piece := by
  induction bytes generalizing piece with
  | nil =>
    obtain rfl : piece = [] := by simpa [Bytes.splitOn] using found
    simp
  | cons b rest ih =>
    rw [splitOn_cons] at found
    split at found
    · rcases List.mem_cons.mp found with rfl | found
      · simp
      · exact ih found
    · rename_i other
      cases pieces : Bytes.splitOn separator rest with
      | nil => exact absurd pieces (splitOn_ne_nil separator rest)
      | cons first others =>
        simp only [pieces] at found
        rcases List.mem_cons.mp found with rfl | found
        · have clean := ih (pieces ▸ List.mem_cons_self)
          rw [List.mem_cons, not_or]
          exact ⟨Ne.symm other, clean⟩
        · exact ih (pieces ▸ List.mem_cons_of_mem _ found)

theorem mem_of_mem_piece {separator b : UInt8} {bytes piece : Bytes}
    (inPieces : piece ∈ bytes.splitOn separator) (found : b ∈ piece) : b ∈ bytes := by
  induction bytes generalizing piece with
  | nil =>
    obtain rfl : piece = [] := by simpa [Bytes.splitOn] using inPieces
    cases found
  | cons first rest ih =>
    rw [splitOn_cons] at inPieces
    split at inPieces
    · rcases List.mem_cons.mp inPieces with rfl | inPieces
      · cases found
      · exact List.mem_cons_of_mem _ (ih inPieces found)
    · cases pieces : Bytes.splitOn separator rest with
      | nil => exact absurd pieces (splitOn_ne_nil separator rest)
      | cons head others =>
        simp only [pieces] at inPieces
        rcases List.mem_cons.mp inPieces with rfl | inPieces
        · rcases List.mem_cons.mp found with rfl | found
          · exact List.mem_cons_self
          · exact List.mem_cons_of_mem _ (ih (pieces ▸ List.mem_cons_self) found)
        · exact List.mem_cons_of_mem _ (ih (pieces ▸ List.mem_cons_of_mem _ inPieces) found)

/-- What stands before a name that is joined to a path. -/
def front (p : Path) : Bytes :=
  match p.bytes.getLast? with
  | none => []
  | some last => if last = Path.slash then p.bytes else p.bytes ++ [Path.slash]

theorem join_bytes {p other : Path} (relative : other.isAbsolute = false) :
    (p.join other).bytes = front p ++ other.bytes := by
  simp only [Path.join, relative, Bool.false_eq_true, if_false, front]
  cases last : p.bytes.getLast? with
  | none => simp
  | some b => by_cases ends : b = Path.slash <;> simp [ends]

theorem isAbsolute_ofString {name : String} (clean : '/' ∉ name.toList) :
    (Path.ofString name).isAbsolute = false := by
  have noSlash : Path.slash ∉ utf8 name := fun h => clean (slash_of_mem_utf8 h)
  cases bytes : utf8 name with
  | nil => simp [Path.isAbsolute, Path.ofString, bytes]
  | cons b rest =>
    rw [bytes, List.mem_cons, not_or] at noSlash
    simpa [Path.isAbsolute, Path.ofString, bytes] using Ne.symm noSlash.1

theorem entry_bytes (p : Path) {name : String} (clean : '/' ∉ name.toList) :
    (p / Path.ofString name).bytes = front p ++ utf8 name :=
  join_bytes (isAbsolute_ofString clean)

/-- Entries of one directory are told apart by their names. -/
theorem entry_inj {p : Path} {s t : String} (cleanS : '/' ∉ s.toList) (cleanT : '/' ∉ t.toList) :
    p / Path.ofString s = p / Path.ofString t ↔ s = t := by
  constructor
  · intro same
    have bytes := congrArg Path.bytes same
    rw [entry_bytes p cleanS, entry_bytes p cleanT] at bytes
    exact utf8_injective (List.append_cancel_left bytes)
  · rintro rfl
    rfl

/-- A name that can stand between two slashes and leads to an entry of a directory. -/
structure Proper (name : Bytes) : Prop where
  ne_nil : name ≠ []
  ne_dot : name ≠ [Path.dot]
  ne_dots : name ≠ [Path.dot, Path.dot]
  clean : Path.slash ∉ name

theorem proper_of_length {name : String} (clean : '/' ∉ name.toList)
    (long : 2 < (utf8 name).length) : Proper (utf8 name) := by
  refine ⟨?_, ?_, ?_, fun found => clean (slash_of_mem_utf8 found)⟩
  all_goals
    intro same
    rw [same] at long
    simp at long

theorem Proper.text {name : String} (h : Proper (utf8 name)) : '/' ∉ name.toList :=
  fun found => h.clean (slash_mem_utf8 found)

/-- A piece stands for the directory above, for the entry that it names, or for nothing. -/
theorem ofPiece?_eq_some {piece : Bytes} {component : Path.Component} :
    Path.Component.ofPiece? piece = some component ↔
      piece = [Path.dot, Path.dot] ∧ component = .up ∨
        (piece ≠ [] ∧ piece ≠ [Path.dot] ∧ piece ≠ [Path.dot, Path.dot]) ∧
          component = .normal piece := by
  unfold Path.Component.ofPiece?
  by_cases idle : piece = [] ∨ piece = [Path.dot]
  · rcases idle with rfl | rfl <;> simp
  · rw [not_or] at idle
    rw [if_neg (by simpa using idle)]
    by_cases up : piece = [Path.dot, Path.dot]
    · rw [if_pos up, Option.some.injEq]
      exact ⟨fun same => .inl ⟨up, same.symm⟩,
        fun is => is.elim (·.2.symm) fun named => absurd up named.1.2.2⟩
    · rw [if_neg up, Option.some.injEq]
      exact ⟨fun same => .inr ⟨⟨idle.1, idle.2, up⟩, same.symm⟩,
        fun is => is.elim (fun dots => absurd dots.1 up) (·.2.symm)⟩

/-- A component that is a name is a piece of the path that leads on. -/
theorem piece_of_component {p : Path} {name : Bytes}
    (found : Path.Component.normal name ∈ p.components) :
    name ∈ p.pieces ∧ Path.Component.ofPiece? name = some (.normal name) := by
  have body : Path.Component.normal name ∈ p.pieces.filterMap Path.Component.ofPiece? := by
    unfold Path.components at found
    dsimp only at found
    split at found
    · simpa using found
    · split at found <;> simpa using found
  obtain ⟨piece, inPieces, isName⟩ := List.mem_filterMap.mp body
  obtain ⟨-, up⟩ | ⟨-, same⟩ := ofPiece?_eq_some.mp isName
  · cases up
  · obtain rfl := Path.Component.normal.inj same
    exact ⟨inPieces, isName⟩

theorem proper_of_component {p : Path} {name : Bytes}
    (found : Path.Component.normal name ∈ p.components) : Proper name := by
  obtain ⟨inPieces, isName⟩ := piece_of_component found
  obtain ⟨-, up⟩ | ⟨⟨filled, notDot, notDots⟩, -⟩ := ofPiece?_eq_some.mp isName
  · cases up
  · exact ⟨filled, notDot, notDots, separator_notMem_piece inPieces⟩

theorem last_of_fileName? {p : Path} {name : Bytes} (named : p.fileName? = some name) :
    p.components.getLast? = some (.normal name) := by
  unfold Path.fileName? at named
  split at named
  · rename_i last
    obtain rfl := Option.some.inj named
    exact last
  · cases named

theorem component_of_fileName? {p : Path} {name : Bytes} (named : p.fileName? = some name) :
    Path.Component.normal name ∈ p.components :=
  List.mem_of_getLast? (last_of_fileName? named)

theorem proper_of_fileName? {p : Path} {name : Bytes} (named : p.fileName? = some name) :
    Proper name :=
  proper_of_component (component_of_fileName? named)

/-- The bytes of a path's last name are bytes of the path. -/
theorem mem_of_mem_fileName {p : Path} {name : Bytes} {b : UInt8} (named : p.fileName? = some name)
    (found : b ∈ name) : b ∈ p.bytes :=
  mem_of_mem_piece (piece_of_component (component_of_fileName? named)).1 found

/-- A name is its stem, and what stands after its last dot if it has a second part. -/
theorem splitName_eq (name : Bytes) :
    Path.splitName name = (name, none) ∨
      ∃ stem extension, Path.splitName name = (stem, some extension) ∧ stem ≠ [] ∧
        name = stem ++ Path.dot :: extension ∧ Path.dot ∉ extension := by
  unfold Path.splitName
  dsimp only
  have cut := List.takeWhile_append_dropWhile (p := (· != Path.dot)) (l := name.reverse)
  have rest : name.reverse.drop (name.reverse.takeWhile (· != Path.dot)).length =
      name.reverse.dropWhile (· != Path.dot) := by
    have := @List.drop_left _ (name.reverse.takeWhile (· != Path.dot))
      (name.reverse.dropWhile (· != Path.dot))
    rwa [cut] at this
  rw [rest]
  cases parts : name.reverse.dropWhile (· != Path.dot) with
  | nil => exact .inl rfl
  | cons b before =>
    cases before with
    | nil => exact .inl rfl
    | cons c before =>
      right
      refine ⟨_, _, rfl, by simp, ?_, ?_⟩
      · have isDot : b = Path.dot := by
          have := List.head_dropWhile_not (p := (· != Path.dot)) (l := name.reverse)
            (by simp [parts])
          simpa [parts] using this
        rw [parts, isDot] at cut
        have := congrArg List.reverse cut
        simpa using this.symm
      · intro found
        have all := List.all_takeWhile (p := (· != Path.dot)) (l := name.reverse)
        simpa using List.all_eq_true.mp all _ (List.mem_reverse.mp found)

theorem splitName_dot {stem extension : Bytes} (named : stem ≠ []) (plain : Path.dot ∉ extension) :
    Path.splitName (stem ++ Path.dot :: extension) = (stem, some extension) := by
  have notDot : ∀ b ∈ extension.reverse, (b != Path.dot) = true := by
    intro b found
    have : b ≠ Path.dot := fun same => plain (same ▸ List.mem_reverse.mp found)
    simpa using this
  have reversed : (stem ++ Path.dot :: extension).reverse =
      extension.reverse ++ Path.dot :: stem.reverse := by simp
  have after : (extension.reverse ++ Path.dot :: stem.reverse).takeWhile (· != Path.dot) =
      extension.reverse := by
    rw [List.takeWhile_append_of_pos notDot]
    simp
  unfold Path.splitName
  dsimp only
  rw [reversed, after, List.drop_left]
  cases before : stem.reverse with
  | nil => exact absurd (List.reverse_eq_nil_iff.mp before) named
  | cons b rest => simp [← before]

theorem stem_clean {name : Bytes} {b : UInt8} (clean : b ∉ name) :
    b ∉ (Path.splitName name).1 := by
  rcases splitName_eq name with h | ⟨stem, extension, h, -, rfl, -⟩
  · rwa [h]
  · rw [h]
    exact fun found => clean (List.mem_append_left _ found)

/-- Whether a byte is a character that no flag text in a key has, and is not in a path's last name. -/
structure Shut (b : UInt8) (p : Path) : Prop where
  isAscii : b < 0x80
  foreign : Plan.isNameChar (ascii b) = false
  clean : ∀ name, p.fileName? = some name → b ∉ name

theorem slash_shut (p : Path) : Shut Path.slash p :=
  ⟨by decide, by decide, fun _ named => (proper_of_fileName? named).clean⟩

section Shut

variable {b : UInt8} {p : Path}

theorem Shut.notMem (shut : Shut b p) {text : String} (all : text.toList.all Plan.isNameChar) :
    ascii b ∉ text.toList :=
  fun found => absurd (List.all_eq_true.mp all _ found) (by simp [shut.foreign])

theorem Shut.stemOf (shut : Shut b p) : ascii b ∉ (Plan.stemOf p).toList := by
  unfold Plan.stemOf Path.stem?
  cases named : p.fileName? with
  | none => exact shut.notMem (by decide)
  | some name => exact ascii_notMem_lossy shut.isAscii (stem_clean (shut.clean name named))

theorem Shut.extensionOf (shut : Shut b p) : ascii b ∉ (Plan.extensionOf p).toList := by
  unfold Plan.extensionOf Path.extension?
  cases named : p.fileName? with
  | none => simp
  | some name =>
    have clean := shut.clean name named
    rcases splitName_eq name with h | ⟨stem, extension, h, -, rfl, -⟩
    · simp [h]
    · simp only [Option.bind_some, h, Option.map_some, Option.getD_some]
      exact ascii_notMem_lossy shut.isAscii fun found => clean (by simp [found])

end Shut

theorem slash_notMem_stemOf (p : Path) : '/' ∉ (Plan.stemOf p).toList := (slash_shut p).stemOf

/-- Entries of one directory with one ending are told apart by what stands before it. -/
theorem ended_entry_inj {p : Path} {s t ending : String} (cleanS : '/' ∉ s.toList)
    (cleanT : '/' ∉ t.toList) (cleanEnd : '/' ∉ ending.toList) :
    p / Path.ofString (s ++ ending) = p / Path.ofString (t ++ ending) ↔ s = t := by
  rw [entry_inj (by simp [cleanS, cleanEnd]) (by simp [cleanT, cleanEnd])]
  exact String.append_left_inj ending

/-! ## The parts of a key -/

theorem littleEndian_length (n value : Nat) : (Digest.littleEndian n value).length = n := by
  induction n generalizing value with
  | zero => rfl
  | succ n ih => simp [Digest.littleEndian, ih]

theorem md5_length (message : Bytes) : (Digest.md5 message).length = 16 := by
  simp [Digest.md5, littleEndian_length]

theorem toHex_length (bytes : Bytes) : (Bytes.toHex bytes).toList.length = 2 * bytes.length := by
  rw [Bytes.toHex, String.toList_ofList]
  induction bytes with
  | nil => rfl
  | cons b rest ih =>
    rw [List.flatMap_cons, List.length_append, ih, List.length_cons]
    simp only [List.length_cons, List.length_nil]
    omega

/-- The digest in a key has sixteen digits. -/
theorem shortDigest_length (message : Bytes) : (Plan.shortDigest message).toList.length = 16 := by
  rw [Plan.shortDigest, toHex_length, List.length_take, md5_length]
  rfl

theorem hexDigit_range {n : Nat} (h : n < 16) :
    (Bytes.hexDigit n).isAlphanum = true ∧ Bytes.hexDigit n ≠ '/' := by
  revert n
  decide

theorem mem_shortDigest {message : Bytes} {c : Char}
    (found : c ∈ (Plan.shortDigest message).toList) : c.isAlphanum = true := by
  rw [Plan.shortDigest, Bytes.toHex, String.toList_ofList] at found
  obtain ⟨b, -, inPair⟩ := List.mem_flatMap.mp found
  have size := b.toNat_lt
  rcases List.mem_cons.mp inPair with rfl | inPair
  · exact (hexDigit_range (by omega)).1
  · rw [List.mem_singleton] at inPair
    exact inPair ▸ (hexDigit_range (by omega)).1

theorem mem_sanitize {text : String} {c : Char} (found : c ∈ (Plan.sanitize text).toList) :
    Plan.isNameChar c = true := by
  rw [Plan.sanitize, String.toList_map] at found
  obtain ⟨d, -, rfl⟩ := List.mem_map.mp found
  split
  · assumption
  · decide

theorem Shut.dot {b : UInt8} {p : Path} (shut : Shut b p) : ascii b ∉ ".".toList :=
  shut.notMem (by decide)

theorem Shut.shortDigest {b : UInt8} {p : Path} (shut : Shut b p) (message : Bytes) :
    ascii b ∉ (Plan.shortDigest message).toList :=
  shut.notMem (List.all_eq_true.mpr fun c found => by simp [Plan.isNameChar, mem_shortDigest found])

theorem Shut.sourceKey {b : UInt8} {p : Path} (shut : Shut b p) (content : Bytes)
    (flags extraArgs : List String) : ascii b ∉ (Plan.sourceKey p content flags extraArgs).toList := by
  have dot := shut.dot
  have flagText : ascii b ∉ (Plan.sanitize (".".intercalate flags)).toList :=
    shut.notMem (List.all_eq_true.mpr fun c found => mem_sanitize found)
  simp only [Plan.sourceKey, toString_text, String.toList_append, List.mem_append, not_or]
  exact ⟨⟨⟨⟨shut.stemOf, dot⟩, flagText⟩, dot⟩, shut.shortDigest _⟩

/-- The key of a source can stand in a file name. -/
theorem slash_notMem_sourceKey (p : Path) (content : Bytes) (flags extraArgs : List String) :
    '/' ∉ (Plan.sourceKey p content flags extraArgs).toList :=
  (slash_shut p).sourceKey content flags extraArgs

/-- A key has no character that is shut out of it. -/
theorem Shut.key {b : UInt8} {a : Artifact} (shut : Shut b a.path) (extraArgs : List String) (outDir : Path)
    (flags : List String) (content : Bytes) :
    ascii b ∉ (Plan.ofContent extraArgs outDir a flags content).key.toList := by
  unfold Plan.ofContent
  split
  · exact shut.sourceKey content flags extraArgs
  · have dot := shut.dot
    simp only [Plan.irKey, toString_text, String.toList_append, List.mem_append, not_or]
    exact ⟨⟨⟨⟨shut.stemOf, dot⟩, shut.extensionOf⟩, dot⟩, shut.shortDigest _⟩

/-- A key can stand in a file name. -/
theorem slash_notMem_key (extraArgs : List String) (outDir : Path) (a : Artifact)
    (flags : List String) (content : Bytes) :
    '/' ∉ (Plan.ofContent extraArgs outDir a flags content).key.toList :=
  (slash_shut a.path).key extraArgs outDir flags content

/-! ## Extensions -/

/-- The extensions of programs, each with the kind that it tells. -/
def programKinds : List (String × Kind) :=
  [("c", .cSource), ("cpp", .cxxSource), ("C", .cxxSource), ("ll", .textIr), ("bc", .binaryIr)]

theorem ofExtension?_eq_some {extension : String} {kind : Kind} :
    Kind.ofExtension? extension = some kind ↔ (extension, kind) ∈ programKinds := by
  constructor
  · intro known
    unfold Kind.ofExtension? at known
    simp only [programKinds, List.mem_cons, Prod.mk.injEq, List.not_mem_nil, or_false]
    grind
  · intro among
    simp only [programKinds, List.mem_cons, Prod.mk.injEq, List.not_mem_nil, or_false] at among
    rcases among with ⟨rfl, rfl⟩ | ⟨rfl, rfl⟩ | ⟨rfl, rfl⟩ | ⟨rfl, rfl⟩ | ⟨rfl, rfl⟩ <;> decide

end BugHunt.Proofs.Names
