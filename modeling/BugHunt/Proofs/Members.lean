import Mathlib.Algebra.Group.Nat.Defs
import BugHunt.Proofs.Inflating
import BugHunt.Proofs.Precedence
/-!
Gzip files as they are put together: a header with its optional parts, a deflate stream, a checksum
and a length, member after member. Reading one byte of such a file gives the first byte of its first
member, or the end where that is empty; no other member is looked at. So a scan agrees with whole
contents just as long as no relation that counts has its content in a later member only.
-/

namespace BugHunt.Proofs.Members
open Gzip Inflating Precedence Runs Exclusion
open Digest (littleEndian)
open Names (littleEndian_length)

theorem littleEndianValue_littleEndian (width n : Nat) :
    littleEndianValue (littleEndian width n) = n % 256 ^ width := by
  induction width generalizing n with
  | zero => simp [littleEndian, littleEndianValue, Nat.mod_one]
  | succ width ih =>
    rw [littleEndian, littleEndianValue, ih, Nat.pow_succ', Nat.mod_mul]
    simp

/-! ## Headers -/

/-- The header of a member. -/
structure Header where
  /-- Whether the content is said to be text. -/
  isText : Bool
  /-- Whether the header ends in a checksum of its own. -/
  checksum : Bool
  /-- The time, the way of compression and the system. -/
  stamp : Bytes
  extra : Option Bytes
  name : Option Bytes
  comment : Option Bytes
  stamp_length : stamp.length = 6
  extra_length : ∀ bytes ∈ extra, bytes.length < 65536
  name_zeroless : ∀ text ∈ name, 0 ∉ text
  comment_zeroless : ∀ text ∈ comment, 0 ∉ text

/-- The byte that announces the optional parts. -/
def flagByte (isText checksum extra name comment : Bool) : UInt8 :=
  (if isText then 0x01 else 0) ||| (if checksum then 0x02 else 0) ||| (if extra then 0x04 else 0) |||
    (if name then 0x08 else 0) ||| (if comment then 0x10 else 0)

theorem flagByte_reads : ∀ isText checksum extra name comment : Bool,
    let flags := flagByte isText checksum extra name comment
    flags &&& 0xE0 = 0 ∧ Flag.checksum.isSet flags = checksum ∧ Flag.extra.isSet flags = extra ∧
      Flag.name.isSet flags = name ∧ Flag.comment.isSet flags = comment := by
  decide

/-- An optional part with its length in front of it. -/
def extraPart : Option Bytes → Bytes
  | none => []
  | some bytes => littleEndian 2 bytes.length ++ bytes

/-- An optional part with a zero byte at its end. -/
def textPart : Option Bytes → Bytes
  | none => []
  | some text => text ++ [0]

namespace Header

def flags (h : Header) : UInt8 :=
  flagByte h.isText h.checksum h.extra.isSome h.name.isSome h.comment.isSome

/-- The header up to its own checksum. -/
def front (h : Header) : Bytes :=
  [0x1F, 0x8B, 8, h.flags] ++ h.stamp ++
    (extraPart h.extra ++ (textPart h.name ++ textPart h.comment))

def bytes (h : Header) : Bytes :=
  h.front ++ if h.checksum then littleEndian 2 (crc32 h.front).toNat else []

end Header

/-- Whether a text is no longer than it may be. -/
def Brief (part : Option Bytes) : Prop := ∀ text ∈ part, text.length ≤ longestField

instance (part : Option Bytes) : Decidable (Brief part) := inferInstanceAs (Decidable (∀ _ ∈ _, _))

/-- Whether the texts of a header are no longer than they may be. -/
def Header.Brief (h : Header) : Prop := Members.Brief h.name ∧ Members.Brief h.comment

instance (h : Header) : Decidable h.Brief := inferInstanceAs (Decidable (_ ∧ _))

theorem zeroTerminated_text {text : Bytes} (zeroless : 0 ∉ text) (rest : Bytes) :
    zeroTerminated (text ++ [0] ++ rest) =
      if longestField < text.length then .error .gzipFieldTooLong else .ok (text, rest) := by
  have ends : (text ++ [0] ++ rest).takeWhile (· != 0) = text := by
    rw [List.append_assoc, List.takeWhile_append_of_pos]
    · simp
    · intro b among
      simp only [bne_iff_ne]
      rintro rfl
      exact zeroless among
  have drops : (text ++ [0] ++ rest).drop text.length = 0 :: rest := by simp
  unfold zeroTerminated
  dsimp only
  rw [ends, drops]

/-- A text that is announced, or none. -/
theorem skips_textPart {part : Option Bytes} (zeroless : ∀ text ∈ part, 0 ∉ text) (rest : Bytes) :
    (if part.isSome then Prod.snd <$> zeroTerminated (textPart part ++ rest)
        else .ok (textPart part ++ rest)) =
      if Brief part then .ok rest else .error .gzipFieldTooLong := by
  cases part with
  | none => simp [textPart, Brief]
  | some text =>
    rw [textPart, zeroTerminated_text (zeroless text rfl), Option.isSome_some, if_pos rfl]
    by_cases long : longestField < text.length
    · have : ¬ Brief (some text) := fun brief => Nat.not_le_of_lt long (brief text rfl)
      rw [if_pos long, if_neg this]
      rfl
    · have : Brief (some text) := by
        rintro _ ⟨⟩
        exact Nat.le_of_not_lt long
      rw [if_neg long, if_pos this]
      rfl

theorem skips_extraPart {part : Option Bytes} (short : ∀ bytes ∈ part, bytes.length < 65536)
    (rest : Bytes) :
    (if part.isSome then
        match extraPart part ++ rest with
        | low :: high :: rest => skip (low.toNat + 256 * high.toNat) rest
        | _ => .error .endOfFile
      else .ok (extraPart part ++ rest)) = .ok rest := by
  cases part with
  | none => rfl
  | some bytes =>
    have value := (littleEndianValue_littleEndian 2 bytes.length).trans
      (Nat.mod_eq_of_lt (short bytes rfl))
    simp only [littleEndian, littleEndianValue, Nat.mul_zero, Nat.add_zero] at value
    simp only [Option.isSome_some, if_true, extraPart, littleEndian, List.cons_append, List.nil_append]
    rw [value, skip, if_neg (by simp), List.drop_left]

/-- One optional part after the other. -/
theorem optionalParts_eq (flags : UInt8) (rest : Bytes) :
    optionalParts flags rest =
      (if Flag.extra.isSet flags then
          match rest with
          | low :: high :: rest => skip (low.toNat + 256 * high.toNat) rest
          | _ => .error .endOfFile
        else .ok rest).bind fun rest =>
      (if Flag.name.isSet flags then Prod.snd <$> zeroTerminated rest else .ok rest).bind fun rest =>
      if Flag.comment.isSet flags then Prod.snd <$> zeroTerminated rest else .ok rest := by
  unfold optionalParts
  dsimp only
  by_cases extra : Flag.extra.isSet flags <;> by_cases name : Flag.name.isSet flags <;>
    simp only [extra, name, if_true, if_false, Bool.false_eq_true]
  · rcases rest with _ | ⟨low, _ | ⟨high, rest⟩⟩ <;> rfl
  · rcases rest with _ | ⟨low, _ | ⟨high, rest⟩⟩ <;> rfl
  · rfl
  · rfl

theorem optionalParts_parts (h : Header) (rest : Bytes) :
    optionalParts h.flags (extraPart h.extra ++ (textPart h.name ++ (textPart h.comment ++ rest))) =
      if h.Brief then .ok rest else .error .gzipFieldTooLong := by
  obtain ⟨-, -, extra, name, comment⟩ :=
    flagByte_reads h.isText h.checksum h.extra.isSome h.name.isSome h.comment.isSome
  rw [optionalParts_eq, Header.flags, extra, name, comment, skips_extraPart h.extra_length]
  simp only [Except.bind]
  rw [skips_textPart h.name_zeroless]
  by_cases named : Brief h.name
  · rw [if_pos named]
    dsimp only
    rw [skips_textPart h.comment_zeroless]
    simp only [Header.Brief, named, true_and]
  · have long : ¬ h.Brief := fun brief => named brief.1
    rw [if_neg named, if_neg long]

/-- Reading a header comes to what follows it, unless a text in it is too long. -/
theorem afterHeader_bytes (h : Header) (rest : Bytes) :
    afterHeader (h.bytes ++ rest) = if h.Brief then .ok rest else .error .gzipFieldTooLong := by
  obtain ⟨reserved, checksum, -⟩ :=
    flagByte_reads h.isText h.checksum h.extra.isSome h.name.isSome h.comment.isSome
  let own := if h.checksum then littleEndian 2 (crc32 h.front).toNat else []
  obtain ⟨a, b, c, d, e, f, stamp⟩ : ∃ a b c d e f, h.stamp = [a, b, c, d, e, f] := by
    match h.stamp, h.stamp_length with
    | [a, b, c, d, e, f], _ => exact ⟨a, b, c, d, e, f, rfl⟩
  have parts : h.bytes ++ rest = 0x1F :: 0x8B :: 8 :: h.flags :: a :: b :: c :: d :: e :: f ::
      (extraPart h.extra ++ (textPart h.name ++ (textPart h.comment ++ (own ++ rest)))) := by
    simp [Header.bytes, Header.front, stamp, own]
  have before : (h.bytes ++ rest).take ((h.bytes ++ rest).length - (own ++ rest).length) = h.front := by
    have : h.bytes ++ rest = h.front ++ (own ++ rest) := by simp [Header.bytes, own]
    rw [this, List.length_append, Nat.add_sub_cancel, List.take_left]
  rw [parts] at before ⊢
  have known : ((0x1F : UInt8) != 0x1F || (0x8B : UInt8) != 0x8B || (8 : UInt8) != 8 ||
      h.flags &&& 0xE0 != 0) = false := by
    rw [Header.flags, reserved]
    decide
  unfold afterHeader
  dsimp only
  rw [known, if_neg Bool.false_ne_true, optionalParts_parts]
  by_cases brief : h.Brief
  · rw [if_pos brief, if_pos brief]
    dsimp only [bind, Except.bind]
    rw [before, Header.flags, checksum]
    cases own? : h.checksum with
    | false =>
      simp [own, own?]
    | true =>
      have value := littleEndianValue_littleEndian 2 (crc32 h.front).toNat
      simp only [littleEndian, littleEndianValue, Nat.mul_zero, Nat.add_zero] at value
      simp only [own, own?, if_true, littleEndian, List.cons_append, List.nil_append]
      exact if_pos value
  · rw [if_neg brief, if_neg brief]
    rfl

/-! ## Members -/

/-- A member of a file: a header, and a stream that decodes to the content to its very end. -/
structure Member where
  header : Header
  deflated : Bytes
  content : Bytes
  decodes : ∃ room, inflate room deflated = ⟨content.toArray, .finished, deflated.length⟩

namespace Member

/-- What follows the stream of a member: the checksum and the length of its content. -/
def trailer (m : Member) : Bytes :=
  littleEndian 4 (crc32 m.content).toNat ++ littleEndian 4 m.content.length

def bytes (m : Member) : Bytes := m.header.bytes ++ (m.deflated ++ m.trailer)

theorem afterTrailer_trailer (m : Member) (rest : Bytes) :
    afterTrailer m.content (m.trailer ++ rest) = .ok rest := by
  have crc := (littleEndianValue_littleEndian 4 (crc32 m.content).toNat).trans
    (Nat.mod_eq_of_lt (crc32 m.content).toNat_lt)
  have length := littleEndianValue_littleEndian 4 m.content.length
  unfold afterTrailer
  have eight : m.trailer.length = 8 := by
    simp [trailer, littleEndian_length]
  rw [if_neg (by rw [List.length_append]; omega)]
  have first : (m.trailer ++ rest).take 4 = littleEndian 4 (crc32 m.content).toNat := by
    rw [trailer, List.append_assoc, List.take_left' (littleEndian_length ..)]
  have second : ((m.trailer ++ rest).drop 4).take 4 = littleEndian 4 m.content.length := by
    rw [trailer, List.append_assoc, List.drop_left' (littleEndian_length ..),
      List.take_left' (littleEndian_length ..)]
  have last : (m.trailer ++ rest).drop 8 = rest := List.drop_left' eight
  rw [first, second, last, crc, length]
  simp

end Member

/-- How far decoding of a front part of a stream, with little room, can come. -/
inductive Reaches (content : Bytes) (taken : Nat) : Inflated → Prop
  | finished : Reaches content taken ⟨content.toArray, .finished, taken⟩
  | early {found : Inflated} (stop : found.stop = .starved ∨ found.stop = .full)
    (front : found.output.toList <+: content) : Reaches content taken found

theorem Reaches.cut {content : Bytes} {taken : Nat} {found whole : Inflated} {w : Want}
    (reaches : Reaches content taken whole) (cut : Cut w found whole) :
    Reaches content taken found := by
  cases cut with
  | whole => exact reaches
  | early stop front =>
    have early : found.stop = .starved ∨ found.stop = .full := by
      cases w
      · exact .inl stop
      · exact .inr stop
    cases reaches with
    | finished => exact .early early front
    | early _ further => exact .early early (front.trans further)

section

variable (m : Member) (rest : Bytes)

/-- With enough room, the stream of a member decodes to its end, whatever follows it. -/
theorem inflate_member : ∃ least, ∀ room, least ≤ room →
    inflate room (m.deflated ++ rest) = ⟨m.content.toArray, .finished, m.deflated.length⟩ := by
  obtain ⟨least, decodes⟩ := m.decodes
  refine ⟨least, fun room enough => ?_⟩
  have longer := (inflate_front least (List.prefix_append m.deflated rest)).eq (by rw [decodes]; nofun)
  rw [decodes] at longer
  have roomier := (inflate_tight enough (m.deflated ++ rest)).eq (by rw [longer]; nofun)
  rw [roomier, longer]

/-- What decoding a front part of what follows the header comes to. -/
theorem reaches_member (size : Nat) :
    Reaches m.content m.deflated.length (inflate runAhead ((m.deflated ++ rest).take size)) := by
  obtain ⟨least, decodes⟩ := inflate_member m rest
  have whole : Reaches m.content m.deflated.length
      (inflate (max least runAhead) (m.deflated ++ rest)) := by
    rw [decodes _ (Nat.le_max_left ..)]
    exact .finished
  have tight := whole.cut (inflate_tight (Nat.le_max_right least runAhead) (m.deflated ++ rest))
  exact tight.cut (inflate_front runAhead (List.take_prefix size _))

/-- Decoding of all that follows the header is not starved. -/
theorem not_starved : (inflate runAhead (m.deflated ++ rest)).stop ≠ .starved := by
  obtain ⟨least, decodes⟩ := inflate_member m rest
  have cut := inflate_tight (Nat.le_max_right least runAhead) (m.deflated ++ rest)
  rw [decodes _ (Nat.le_max_left ..)] at cut
  generalize inflate runAhead (m.deflated ++ rest) = found at cut
  intro starved
  cases cut with
  | whole => cases starved
  | early stop => cases starved.symm.trans stop

theorem head_of_front {output : Array UInt8} {content : Bytes} {b : UInt8}
    (front : output.toList <+: content) (first : output[0]? = some b) : content.head? = some b := by
  obtain ⟨more, rfl⟩ := front
  rw [← Array.getElem?_toList] at first
  cases listed : output.toList with
  | nil =>
    rw [listed] at first
    cases first
  | cons head tail =>
    rw [listed] at first
    exact first

/-- The first byte is found, however much of the file is at hand at first. -/
theorem firstByte_member (file : Bytes) (window : Nat)
    (within : (m.deflated ++ (m.trailer ++ rest)).length ≤ file.length) :
    firstByte file (m.deflated ++ (m.trailer ++ rest)) window = .ok m.content.head? := by
  induction left : file.length - window using Nat.strongRecOn generalizing window with
  | ind n ih =>
  subst left
  rw [firstByte]
  have reaches := reaches_member m (m.trailer ++ rest)
    (window - (file.length - (m.deflated ++ (m.trailer ++ rest)).length))
  have filled := full_of_inflate runAhead ((m.deflated ++ (m.trailer ++ rest)).take
    (window - (file.length - (m.deflated ++ (m.trailer ++ rest)).length)))
  have last : ¬ window < file.length → (inflate runAhead ((m.deflated ++ (m.trailer ++ rest)).take
      (window - (file.length - (m.deflated ++ (m.trailer ++ rest)).length)))).stop ≠ .starved := by
    intro all
    rw [List.take_of_length_le (by omega)]
    exact not_starved m (m.trailer ++ rest)
  generalize inflate runAhead _ = found at reaches filled last
  cases reaches with
  | finished =>
    cases holds : m.content with
    | cons b tail => rfl
    | nil =>
      have checked := m.afterTrailer_trailer rest
      rw [holds] at checked
      show (do
        let _ ← afterTrailer [] ((m.deflated ++ (m.trailer ++ rest)).drop m.deflated.length)
        return none : Except Failure (Option UInt8)) = .ok none
      rw [List.drop_left, checked]
      rfl
  | early stop front =>
    cases first : found.output[0]? with
    | some b =>
      have same := head_of_front front first
      rcases stop with stop | stop <;> rw [stop, same]
    | none =>
      rcases stop with stop | stop
      · rw [stop]
        dsimp only
        have more : window < file.length := Decidable.byContradiction fun all => last all stop
        rw [if_pos more]
        exact ih _ (by simp only [bufferSize]; omega) _ rfl
      · have size : runAhead ≤ found.output.size := filled stop
        have empty : found.output.size ≤ 0 := Array.getElem?_eq_none_iff.mp first
        exact absurd size (by simp only [runAhead]; omega)

/-- Reading one byte of a file gives the first byte of its first member, or the end where that is
empty. What comes after the first member does not count. -/
theorem firstRead_member :
    firstRead (m.bytes ++ rest) =
      if m.header.Brief then .ok m.content.head? else .error .gzipFieldTooLong := by
  have parts : m.bytes ++ rest = m.header.bytes ++ (m.deflated ++ (m.trailer ++ rest)) := by
    simp [Member.bytes]
  unfold firstRead
  rw [parts, afterHeader_bytes]
  by_cases brief : m.header.Brief
  · rw [if_pos brief, if_pos brief]
    exact firstByte_member m rest _ _ (by simp)
  · rw [if_neg brief, if_neg brief]
    rfl

end

/-! ## Files -/

/-- A gzip file: one member or more, one after the other. -/
structure GzipFile where
  first : Member
  others : List Member

namespace GzipFile

def bytes (f : GzipFile) : Bytes := (f.first :: f.others).flatMap Member.bytes

/-- What the file holds: the contents of all its members. -/
def content (f : GzipFile) : Bytes := (f.first :: f.others).flatMap Member.content

/-- Whether the first member tells whether the file holds anything. -/
def Telling (f : GzipFile) : Prop :=
  f.first.header.Brief ∧ (f.content ≠ [] → f.first.content ≠ [])

theorem firstRead_bytes (f : GzipFile) :
    firstRead f.bytes =
      if f.first.header.Brief then .ok f.first.content.head? else .error .gzipFieldTooLong := by
  rw [bytes, List.flatMap_cons]
  exact firstRead_member f.first _

theorem first_content_nil {f : GzipFile} (empty : f.content = []) : f.first.content = [] := by
  rw [content, List.flatMap_cons] at empty
  exact (List.append_eq_nil_iff.mp empty).1

end GzipFile

/-! ## Scans of files -/

/-- A relation that is there as a file, and is not changed by looks. -/
structure Holds (host : Host σ) (s : σ) (directory : Path) (file : GzipFile) (relation : String) :
    Prop extends Still host s directory relation where
  present : ((Program.isFile (directory / relation)).run host s).1 = true
  content : ((Program.read (directory / relation)).run host s).1 = .ok file.bytes

/-- The answer that contents call for: the first relation that holds something. -/
def answer (content : String → Bytes) (relations : List String) : Scan :=
  match relations.find? fun relation => content relation ≠ [] with
  | some relation => .violated relation
  | none => .allEmpty

/-- Whether a relation has a place in the list with none in front of it that holds anything. -/
def Reached (content : String → Bytes) (relations : List String) (relation : String) : Prop :=
  ∃ before after, relations = before ++ relation :: after ∧ ∀ r ∈ before, content r = []

theorem reached_cons {content : String → Bytes} {relations : List String} {head relation : String} :
    Reached content (head :: relations) relation ↔
      relation = head ∨ content head = [] ∧ Reached content relations relation := by
  constructor
  · rintro ⟨before, after, split, empty⟩
    cases before with
    | nil => exact .inl (List.cons.inj split).1.symm
    | cons b before =>
      obtain ⟨rfl, rfl⟩ := List.cons.inj split
      rw [List.forall_mem_cons] at empty
      exact .inr ⟨empty.1, before, after, rfl, empty.2⟩
  · rintro (rfl | ⟨empty, before, after, rfl, all⟩)
    · exact ⟨[], relations, rfl, nofun⟩
    · exact ⟨head :: before, after, rfl, List.forall_mem_cons.mpr ⟨empty, all⟩⟩

theorem answer_cons_nil {content : String → Bytes} {relations : List String} {head : String}
    (empty : content head = []) : answer content (head :: relations) = answer content relations := by
  simp [answer, empty]

theorem answer_cons {content : String → Bytes} {relations : List String} {head : String}
    (holds : content head ≠ []) : answer content (head :: relations) = .violated head := by
  simp [answer, holds]

section Scans

variable {host : Host σ} {s : σ} {directory : Path} {files : String → GzipFile}
  {relations : List String}

theorem sight_first {file : GzipFile} {relation : String}
    (holds : Holds host s directory file relation) :
    (sight host s directory relation).first =
      if file.first.header.Brief then .ok file.first.content.head? else .error .gzipFieldTooLong := by
  show ((Program.read (directory / relation)).run host s).1.bind firstRead = _
  rw [holds.content]
  exact file.firstRead_bytes

/-- Whether the sights call for the answer that whole contents call for. -/
theorem decides_iff (hold : ∀ r ∈ relations, Holds host s directory (files r) r) {finding : Finding}
    (decides : Decides (sight host s directory) relations finding) :
    finding.answer directory = .ok (answer (fun r => (files r).content) relations) ↔
      ∀ relation, Reached (fun r => (files r).content) relations relation → (files relation).Telling := by
  induction relations generalizing finding with
  | nil =>
    obtain rfl := decides.unique (.allEmpty nofun nofun)
    simp [Finding.answer, answer, Reached]
  | cons head rest ih =>
    have present : ∀ r ∈ head :: rest, (sight host s directory r).present := fun r among =>
      (hold r among).present
    have first := sight_first (hold head (by simp))
    have reached : Reached (fun r => (files r).content) (head :: rest) head :=
      reached_cons.mpr (.inl rfl)
    by_cases brief : (files head).first.header.Brief
    · rw [if_pos brief] at first
      cases starts : (files head).first.content with
      | cons b more =>
        rw [starts] at first
        have full : (files head).content ≠ [] := fun empty => by
          rw [GzipFile.first_content_nil empty] at starts
          cases starts
        have unclean : First Sight.Unclean (sight host s directory) (head :: rest) head :=
          .head fun clean => by cases first.symm.trans clean
        obtain rfl := decides.unique (.violated present unclean first)
        rw [answer_cons full]
        refine iff_of_true rfl fun relation reached => ?_
        rcases reached_cons.mp reached with rfl | ⟨empty, -⟩
        · exact ⟨brief, fun _ => by rw [starts]; nofun⟩
        · exact absurd empty full
      | nil =>
        rw [starts] at first
        rw [List.forall_mem_cons] at hold
        obtain ⟨later, decidesLater, -⟩ := exec_scan fun r among => (hold.2 r among).toStill
        obtain rfl := decides.unique (decidesLater.cons (present head (by simp)) first)
        by_cases empty : (files head).content = []
        · rw [answer_cons_nil empty, ih hold.2 decidesLater]
          constructor
          · intro telling relation reached
            rcases reached_cons.mp reached with rfl | ⟨-, reached⟩
            · exact ⟨brief, fun full => absurd empty full⟩
            · exact telling relation reached
          · intro telling relation reached
            exact telling relation (reached_cons.mpr (.inr ⟨empty, reached⟩))
        · rw [answer_cons empty]
          refine iff_of_false (fun same => ?_) fun telling => (telling head reached).2 empty starts
          cases decidesLater with
          | violated _ _ yields =>
            obtain rfl := Scan.violated.inj (Except.ok.inj same)
            cases first.symm.trans yields
          | missing | unreadable | allEmpty => cases same
    · rw [if_neg brief] at first
      have unclean : First Sight.Unclean (sight host s directory) (head :: rest) head :=
        .head fun clean => by cases first.symm.trans clean
      obtain rfl := decides.unique (.unreadable present unclean first)
      exact iff_of_false nofun fun telling => brief (telling head reached).1

/-- Where no text of a header is too long, the first members give the answer. -/
theorem exec_scan_first (hold : ∀ r ∈ relations, Holds host s directory (files r) r)
    (brief : ∀ r ∈ relations, (files r).first.header.Brief) :
    exec host s (Relations.scan relations directory) =
      (.ok (answer (fun r => (files r).first.content) relations), s) := by
  suffices calls : ∃ finding, Decides (sight host s directory) relations finding ∧
      finding.answer directory = .ok (answer (fun r => (files r).first.content) relations) by
    obtain ⟨finding, decides, same⟩ := calls
    obtain ⟨other, also, ran⟩ := exec_scan fun r among => (hold r among).toStill
    rw [ran, also.unique decides, same]
  induction relations with
  | nil => exact ⟨.allEmpty, .allEmpty nofun nofun, rfl⟩
  | cons head rest ih =>
    have present : ∀ r ∈ head :: rest, (sight host s directory r).present := fun r among =>
      (hold r among).present
    have first := sight_first (hold head (by simp))
    rw [if_pos (brief head (by simp))] at first
    rw [List.forall_mem_cons] at hold brief
    cases starts : (files head).first.content with
    | cons b more =>
      rw [starts] at first
      refine ⟨.violated head, .violated present (.head fun clean => ?_) first, ?_⟩
      · cases first.symm.trans clean
      · rw [answer_cons (by rw [starts]; nofun)]
        rfl
    | nil =>
      rw [starts] at first
      obtain ⟨finding, decides, same⟩ := ih hold.2 brief.2
      refine ⟨finding, decides.cons (present head (by simp)) first, ?_⟩
      rw [answer_cons_nil starts, same]

/-- A scan of gzip files gives the answer that their whole contents call for if and only if each
relation, up to the first that holds anything, has texts of a fitting length in the header of its
first member and, where it holds anything, has something in that member. -/
theorem scan_whole_iff (hold : ∀ r ∈ relations, Holds host s directory (files r) r) :
    exec host s (Relations.scan relations directory) =
        (.ok (answer (fun r => (files r).content) relations), s) ↔
      ∀ relation, Reached (fun r => (files r).content) relations relation →
        (files relation).Telling := by
  obtain ⟨finding, decides, ran⟩ := exec_scan fun r among => (hold r among).toStill
  rw [ran, Prod.mk.injEq, eq_self s, and_true]
  exact decides_iff hold decides

end Scans

/-! ## Files with an empty member -/

deriving instance DecidableEq for Inflated

/-- A header without optional parts. -/
def bareHeader : Header where
  isText := false
  checksum := false
  stamp := [0, 0, 0, 0, 0, 0xFF]
  extra := none
  name := none
  comment := none
  stamp_length := rfl
  extra_length := nofun
  name_zeroless := nofun
  comment_zeroless := nofun

def emptyMember : Member := ⟨bareHeader, [0x03, 0x00], [], 0, by decide +kernel⟩

/-- One row, stored as it is. -/
def row : Member := ⟨bareHeader, [0x01, 0x02, 0x00, 0xFD, 0xFF, 0x78, 0x0A], [0x78, 0x0A], 2,
  by decide +kernel⟩

/-- What each of the relations is written as. -/
def written : String → GzipFile
  | "clean" => ⟨emptyMember, [emptyMember]⟩
  | "found" => ⟨row, [emptyMember]⟩
  | _ => ⟨emptyMember, [row]⟩

def results : Bench.State where
  tree := ⟨[([utf8 "r"], .directory),
    ([utf8 "r", utf8 "clean"], .file (written "clean").bytes false),
    ([utf8 "r", utf8 "found"], .file (written "found").bytes false),
    ([utf8 "r", utf8 "hidden"], .file (written "hidden").bytes false)]⟩
  started := []
  turns := 0

theorem results_hold : ∀ relation ∈ ["clean", "found", "hidden"],
    Holds (Bench.desk noTools).host results "/r" (written relation) relation := by
  simp only [List.forall_mem_cons]
  exact ⟨⟨still_bench .., rfl, rfl⟩, ⟨still_bench .., rfl, rfl⟩, ⟨still_bench .., rfl, rfl⟩,
    nofun⟩

/-- Members after the first one do no harm where the first one tells. -/
theorem found_in_first_member :
    let host := (Bench.desk noTools).host
    let relations := ["clean", "found", "hidden"]
    (∀ relation ∈ relations, Holds host results "/r" (written relation) relation) ∧
      exec host results (Relations.scan relations "/r") = (.ok (.violated "found"), results) := by
  intro host relations
  have telling : ∀ relation, Reached (fun r => (written r).content) relations relation →
      (written relation).Telling := by
    intro relation reached
    rcases reached_cons.mp reached with rfl | ⟨-, reached⟩
    · exact ⟨by decide, fun full => absurd rfl full⟩
    · rcases reached_cons.mp reached with rfl | ⟨empty, -⟩
      · exact ⟨by decide, fun _ => nofun⟩
      · cases empty
  exact ⟨results_hold, (scan_whole_iff results_hold).mpr telling⟩

/-- A row after an empty member goes unseen: the scan finds nothing where there is something. -/
theorem row_after_empty_member :
    let host := (Bench.desk noTools).host
    let relations := ["clean", "hidden"]
    (∀ relation ∈ relations, Holds host results "/r" (written relation) relation) ∧
      exec host results (Relations.scan relations "/r") = (.ok .allEmpty, results) ∧
      (Gzip.contents (written "hidden").bytes).toOption = some [0x78, 0x0A] ∧
      answer (fun relation => (written relation).content) relations = .violated "hidden" := by
  intro host relations
  have hold : ∀ relation ∈ relations, Holds host results "/r" (written relation) relation :=
    fun relation among => results_hold relation (List.Sublist.subset (by decide) among)
  exact ⟨hold, exec_scan_first hold (by decide), by decide +kernel, rfl⟩

end BugHunt.Proofs.Members
