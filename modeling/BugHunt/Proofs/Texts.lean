import BugHunt.Variant
/-!
Texts and their bytes: what a slash can come from, and that a text's bytes are read as the text.
-/

namespace BugHunt.Proofs.Texts

@[simp] theorem toString_text (text : String) : toString text = text := rfl

@[simp] theorem utf8_append (s t : String) : utf8 (s ++ t) = utf8 s ++ utf8 t := by
  simp [utf8]

theorem utf8_eq_toList (text : String) : (utf8 text).toByteArray = text.toByteArray := by
  rw [← String.utf8Encode_toList]
  rfl

theorem utf8_injective {s t : String} (h : utf8 s = utf8 t) : s = t := by
  have bytes := congrArg List.toByteArray h
  rw [utf8_eq_toList, utf8_eq_toList] at bytes
  exact String.toByteArray_inj.mp bytes

theorem ofString_ne_nil {text : String} (some : text ≠ "") : (Path.ofString text).bytes ≠ [] :=
  fun none => some (utf8_injective none)

theorem ofNat_ne_of_range {n : Nat} {b : UInt8} (low : 0x80 ≤ n) (high : n < 256)
    (ascii : b < 0x80) : UInt8.ofNat n ≠ b := by
  intro same
  have value : n = b.toNat := by simpa [Nat.mod_eq_of_lt high] using congrArg UInt8.toNat same
  have : b.toNat < 0x80 := ascii
  omega

/-- An ASCII byte in the encoding of a character is that character. -/
theorem ascii_mem_utf8EncodeChar {b : UInt8} {c : Char} (ascii : b < 0x80)
    (found : b ∈ String.utf8EncodeChar c) : c.toNat = b.toNat := by
  unfold String.utf8EncodeChar at found
  dsimp only at found
  have bound := c.val.toNat_lt
  split at found
  · rename_i small
    rw [List.mem_singleton] at found
    subst found
    exact (Nat.mod_eq_of_lt (show c.val.toNat < 256 by omega)).symm
  · split at found
    · simp only [List.mem_cons, List.not_mem_nil, or_false] at found
      rcases found with h | h <;>
        exact absurd h.symm (ofNat_ne_of_range (by omega) (by omega) ascii)
    · split at found
      · simp only [List.mem_cons, List.not_mem_nil, or_false] at found
        rcases found with h | h | h <;>
          exact absurd h.symm (ofNat_ne_of_range (by omega) (by omega) ascii)
      · simp only [List.mem_cons, List.not_mem_nil, or_false] at found
        rcases found with h | h | h | h <;>
          exact absurd h.symm (ofNat_ne_of_range (by omega) (by omega) ascii)

/-- An ASCII byte in the encoding of a text is a character of it. -/
theorem ascii_of_mem_utf8 {b : UInt8} (ascii : b < 0x80) {text : String} (found : b ∈ utf8 text) :
    Char.ofNat b.toNat ∈ text.toList := by
  obtain ⟨c, inText, inChar⟩ := List.mem_flatMap.mp found
  have value := ascii_mem_utf8EncodeChar ascii inChar
  rw [← value, Char.ofNat_toNat]
  exact inText

theorem slash_of_mem_utf8 {text : String} (found : Path.slash ∈ utf8 text) :
    '/' ∈ text.toList :=
  ascii_of_mem_utf8 (by decide) found

theorem slash_mem_utf8 {text : String} (found : '/' ∈ text.toList) : Path.slash ∈ utf8 text :=
  List.mem_flatMap.mpr ⟨'/', found, by decide⟩

/-! ## Reading bytes as text -/

/-- What follows a lead byte begins in the range that the lead byte allows. -/
theorem trail_head {lead b : UInt8} {n : Nat} {rest more : Bytes}
    (found : Text.trail lead n rest = b :: more) :
    (Text.secondRange lead).1 ≤ b ∧ b ≤ (Text.secondRange lead).2 := by
  cases n with
  | zero => simp [Text.trail] at found
  | succ n =>
    cases rest with
    | nil => simp [Text.trail] at found
    | cons c rest =>
      simp only [Text.trail] at found
      split at found
      · rename_i inRange
        obtain ⟨rfl, -⟩ := List.cons.inj found
        simpa using inRange
      · cases found

theorem trailCount_range {lead : UInt8} {n : Nat} (trails : Text.trailCount lead = some n) :
    (n = 0 ∧ lead.toNat < 0x80) ∨ (n = 1 ∧ 0xC2 ≤ lead.toNat ∧ lead.toNat ≤ 0xDF) ∨
      (n = 2 ∧ 0xE0 ≤ lead.toNat ∧ lead.toNat ≤ 0xEF) ∨
      (n = 3 ∧ 0xF0 ≤ lead.toNat ∧ lead.toNat ≤ 0xF4) := by
  unfold Text.trailCount at trails
  simp only [UInt8.lt_iff_toNat_lt, UInt8.le_iff_toNat_le, Bool.and_eq_true,
    decide_eq_true_eq, UInt8.reduceToNat] at trails
  grind

/-- What lead and continuation bytes stand for is a character, and of several bytes no ASCII character. -/
theorem codePoint_range {lead : UInt8} {rest : Bytes} {n : Nat}
    (trails : Text.trailCount lead = some n) (whole : (Text.trail lead n rest).length = n) :
    (Text.codePoint lead (Text.trail lead n rest)).isValidChar ∧
      (n = 0 ∧ Text.codePoint lead (Text.trail lead n rest) = lead.toNat ∨
        0x80 ≤ Text.codePoint lead (Text.trail lead n rest)) := by
  unfold Nat.isValidChar
  cases found : Text.trail lead n rest with
  | nil =>
    obtain rfl : n = 0 := by simpa [found] using whole.symm
    have range := trailCount_range trails
    have single : Text.codePoint lead [] = lead.toNat := rfl
    rw [single]
    exact ⟨.inl (by omega), .inl ⟨rfl, rfl⟩⟩
  | cons b more =>
    have range := trail_head found
    rw [found] at whole
    rcases trailCount_range trails with ⟨rfl, -⟩ | ⟨rfl, low, high⟩ | ⟨rfl, low, high⟩ | ⟨rfl, low, high⟩
    · cases whole
    · obtain rfl : more = [] := by simpa using whole
      simp only [Text.codePoint, List.length_cons, List.length_nil, List.foldl_cons, List.foldl_nil]
      omega
    · obtain ⟨c, rfl⟩ := List.length_eq_one_iff.mp (by simpa using whole)
      have first : lead.toNat = 0xE0 → 0xA0 ≤ b.toNat ∧ b.toNat ≤ 0xBF := by
        intro h
        obtain rfl : lead = 0xE0 := UInt8.toNat_inj.mp h
        exact range
      -- Surrogates are shut out by what may follow this lead byte.
      have scalar : lead.toNat = 0xED → 0x80 ≤ b.toNat ∧ b.toNat ≤ 0x9F := by
        intro h
        obtain rfl : lead = 0xED := UInt8.toNat_inj.mp h
        exact range
      simp only [Text.codePoint, List.length_cons, List.length_nil, List.foldl_cons, List.foldl_nil]
      omega
    · obtain ⟨c, d, rfl⟩ : ∃ c d, more = [c, d] := by
        match more, whole with
        | [c, d], _ => exact ⟨c, d, rfl⟩
      have first : lead.toNat = 0xF0 → 0x90 ≤ b.toNat ∧ b.toNat ≤ 0xBF := by
        intro h
        obtain rfl : lead = 0xF0 := UInt8.toNat_inj.mp h
        exact range
      have last : lead.toNat = 0xF4 → 0x80 ≤ b.toNat ∧ b.toNat ≤ 0x8F := by
        intro h
        obtain rfl : lead = 0xF4 := UInt8.toNat_inj.mp h
        exact range
      simp only [Text.codePoint, List.length_cons, List.length_nil, List.foldl_cons, List.foldl_nil]
      omega

theorem toNat_ofValid {n : Nat} (valid : n.isValidChar) : (Char.ofNat n).toNat = n := by
  rw [Char.ofNat, dif_pos valid]
  rfl

/-- The character that is an ASCII byte. -/
abbrev ascii (b : UInt8) : Char := Char.ofNat b.toNat

variable {b : UInt8} (isAscii : b < 0x80)

include isAscii

theorem toNat_ascii : (ascii b).toNat = b.toNat := by
  have small : b.toNat < 0x80 := isAscii
  exact toNat_ofValid (.inl (by omega))

/-- Only an ASCII byte is shown as its character. -/
theorem scan_shown_eq_ascii {lead : UInt8} {rest : Bytes}
    (h : (Text.scan lead rest).1.shown = ascii b) : lead = b := by
  have small : b.toNat < 0x80 := isAscii
  have value := congrArg Char.toNat h
  rw [toNat_ascii isAscii] at value
  have replaced : '\uFFFD'.toNat ≠ b.toNat := by
    have : '\uFFFD'.toNat = 0xFFFD := by decide
    omega
  unfold Text.scan at value
  cases trails : Text.trailCount lead with
  | none =>
    rw [trails] at value
    exact absurd value replaced
  | some n =>
    simp only [trails] at value
    split at value
    · rename_i whole
      obtain ⟨valid, range⟩ := codePoint_range trails whole
      have value : Text.codePoint lead (Text.trail lead n rest) = b.toNat :=
        (toNat_ofValid valid).symm.trans value
      apply UInt8.toNat_inj.mp
      omega
    · exact absurd value replaced

theorem chunksOnto_shown {bytes : Bytes} (clean : b ∉ bytes) (before : List Text.Chunk)
    (shown : ∀ chunk ∈ before, chunk.shown ≠ ascii b) :
    ∀ chunk ∈ Text.chunksOnto before bytes, chunk.shown ≠ ascii b := by
  induction before, bytes using Text.chunksOnto.induct with
  | case1 before =>
    unfold Text.chunksOnto
    exact shown
  | case2 before lead rest chunk used scanned ih =>
    unfold Text.chunksOnto
    simp only [scanned]
    rw [List.mem_cons, not_or] at clean
    apply ih (fun h => clean.2 (List.mem_of_mem_drop h))
    intro other found
    rcases List.mem_cons.mp found with rfl | found
    · intro h
      have : (Text.scan lead rest).1.shown = ascii b := by rw [scanned]; exact h
      exact clean.1 (scan_shown_eq_ascii isAscii this).symm
    · exact shown other found

/-- Bytes without an ASCII byte are shown without its character. -/
theorem ascii_notMem_lossy {bytes : Bytes} (clean : b ∉ bytes) :
    ascii b ∉ (Text.lossy bytes).toList := by
  intro found
  rw [Text.lossy, String.toList_ofList] at found
  obtain ⟨chunk, inChunks, shown⟩ := List.mem_map.mp found
  rw [Text.chunks, List.mem_reverse] at inChunks
  exact chunksOnto_shown isAscii clean [] (by simp) chunk inChunks shown

omit isAscii

theorem slash_notMem_lossy {bytes : Bytes} (clean : Path.slash ∉ bytes) :
    '/' ∉ (Text.lossy bytes).toList :=
  ascii_notMem_lossy (by decide) clean

/-! ## Reading a text's own bytes -/

theorem trailCount_of_toNat {lead : UInt8} : Text.trailCount lead =
    if lead.toNat < 0x80 then some 0
    else if 0xC2 ≤ lead.toNat ∧ lead.toNat ≤ 0xDF then some 1
    else if 0xE0 ≤ lead.toNat ∧ lead.toNat ≤ 0xEF then some 2
    else if 0xF0 ≤ lead.toNat ∧ lead.toNat ≤ 0xF4 then some 3
    else none := by
  simp only [Text.trailCount, UInt8.lt_iff_toNat_lt, UInt8.le_iff_toNat_le, Bool.and_eq_true,
    decide_eq_true_eq, UInt8.reduceToNat]

/-- A continuation byte may follow a lead byte unless it makes a form too long, a surrogate or a
value that is too large. -/
theorem secondRange_of_toNat {lead b : UInt8} (low : 0x80 ≤ b.toNat) (high : b.toNat ≤ 0xBF)
    (short : lead.toNat = 0xE0 → 0xA0 ≤ b.toNat) (scalar : lead.toNat = 0xED → b.toNat ≤ 0x9F)
    (alsoShort : lead.toNat = 0xF0 → 0x90 ≤ b.toNat) (top : lead.toNat = 0xF4 → b.toNat ≤ 0x8F) :
    ((Text.secondRange lead).1 ≤ b && b ≤ (Text.secondRange lead).2) = true := by
  have is (other : UInt8) : lead = other ↔ lead.toNat = other.toNat := UInt8.toNat_inj.symm
  simp only [Text.secondRange, is, UInt8.reduceToNat, Bool.and_eq_true, decide_eq_true_eq,
    UInt8.le_iff_toNat_le]
  repeat' split
  all_goals
    simp only [UInt8.reduceToNat]
    omega

theorem isContinuation_of_toNat {b : UInt8} (low : 0x80 ≤ b.toNat) (high : b.toNat ≤ 0xBF) :
    Text.isContinuation b = true := by
  simp only [Text.isContinuation, Bool.and_eq_true, decide_eq_true_eq, UInt8.le_iff_toNat_le,
    UInt8.reduceToNat]
  omega

theorem toNat_ofNat {n : Nat} (small : n < 256) : (UInt8.ofNat n).toNat = n := by
  simpa using Nat.mod_eq_of_lt small

theorem trail_whole {lead first : UInt8} {more : Bytes} (rest : Bytes)
    (range : ((Text.secondRange lead).1 ≤ first && first ≤ (Text.secondRange lead).2) = true)
    (others : ∀ b ∈ more, Text.isContinuation b = true) :
    Text.trail lead (more.length + 1) (first :: (more ++ rest)) = first :: more := by
  rw [Text.trail]
  simp only [range, if_true, List.take_left]
  have all := @List.takeWhile_append_of_pos _ Text.isContinuation more [] others
  simp only [List.append_nil, List.takeWhile_nil] at all
  rw [all]

/-- The chunk that a lead byte and continuation bytes make. -/
theorem scan_whole {lead first : UInt8} {more rest : Bytes}
    (count : Text.trailCount lead = some (more.length + 1))
    (range : ((Text.secondRange lead).1 ≤ first && first ≤ (Text.secondRange lead).2) = true)
    (others : ∀ b ∈ more, Text.isContinuation b = true) :
    Text.scan lead (first :: (more ++ rest)) =
      (.char (Char.ofNat (Text.codePoint lead (first :: more))), (first :: more).length) := by
  unfold Text.scan
  simp only [count, trail_whole rest range others, List.length_cons, if_true]

/-- The bytes of a character are read as that character, whatever follows. -/
theorem scan_utf8EncodeChar (c : Char) (rest : Bytes) :
    ∃ lead more, String.utf8EncodeChar c = lead :: more ∧
      Text.scan lead (more ++ rest) = (.char c, more.length) := by
  have valid : c.val.toNat < 0xD800 ∨ (0xDFFF < c.val.toNat ∧ c.val.toNat < 0x110000) := c.valid
  have back : Char.ofNat c.val.toNat = c := Char.ofNat_toNat c
  unfold String.utf8EncodeChar
  dsimp only
  generalize c.val.toNat = v at back valid
  split
  · refine ⟨_, _, rfl, ?_⟩
    have lead : (UInt8.ofNat v).toNat = v := toNat_ofNat (by omega)
    have count : Text.trailCount (UInt8.ofNat v) = some 0 := by
      rw [trailCount_of_toNat, lead, if_pos (by omega)]
    unfold Text.scan
    simp [count, Text.trail, Text.codePoint, lead, back]
  · split
    · refine ⟨_, _, rfl, ?_⟩
      have lead := @toNat_ofNat (v / 64 % 0x20 + 0xc0) (by omega)
      have first := @toNat_ofNat (v % 0x40 + 0x80) (by omega)
      refine (@scan_whole _ _ [] rest ?_ ?_ (by simp)).trans ?_
      · rw [trailCount_of_toNat, lead, if_neg (by omega), if_pos (by omega)]
        rfl
      · apply secondRange_of_toNat <;> rw [first] <;> omega
      · have value : Text.codePoint (UInt8.ofNat (v / 64 % 0x20 + 0xc0))
            [UInt8.ofNat (v % 0x40 + 0x80)] = v := by
          simp only [Text.codePoint, List.length_cons, List.length_nil, List.foldl_cons,
            List.foldl_nil, lead, first]
          omega
        rw [value, back]
    · split
      · refine ⟨_, _, rfl, ?_⟩
        have lead := @toNat_ofNat (v / 4096 % 0x10 + 0xe0) (by omega)
        have first := @toNat_ofNat (v / 64 % 0x40 + 0x80) (by omega)
        have second := @toNat_ofNat (v % 0x40 + 0x80) (by omega)
        refine (@scan_whole _ _ [_] rest ?_ ?_ ?_).trans ?_
        · rw [trailCount_of_toNat, lead, if_neg (by omega), if_neg (by omega), if_pos (by omega)]
          rfl
        · apply secondRange_of_toNat <;> rw [first] <;> omega
        · intro b found
          rw [List.mem_singleton.mp found]
          apply isContinuation_of_toNat <;> rw [second] <;> omega
        · have value : Text.codePoint (UInt8.ofNat (v / 4096 % 0x10 + 0xe0))
              [UInt8.ofNat (v / 64 % 0x40 + 0x80), UInt8.ofNat (v % 0x40 + 0x80)] = v := by
            simp only [Text.codePoint, List.length_cons, List.length_nil, List.foldl_cons,
              List.foldl_nil, lead, first, second]
            omega
          rw [value, back]
      · refine ⟨_, _, rfl, ?_⟩
        have lead := @toNat_ofNat (v / 262144 % 0x08 + 0xf0) (by omega)
        have first := @toNat_ofNat (v / 4096 % 0x40 + 0x80) (by omega)
        have second := @toNat_ofNat (v / 64 % 0x40 + 0x80) (by omega)
        have third := @toNat_ofNat (v % 0x40 + 0x80) (by omega)
        refine (@scan_whole _ _ [_, _] rest ?_ ?_ ?_).trans ?_
        · rw [trailCount_of_toNat, lead, if_neg (by omega), if_neg (by omega), if_neg (by omega),
            if_pos (by omega)]
          rfl
        · apply secondRange_of_toNat <;> rw [first] <;> omega
        · intro b found
          simp only [List.mem_cons, List.not_mem_nil, or_false] at found
          rcases found with rfl | rfl
          · apply isContinuation_of_toNat <;> rw [second] <;> omega
          · apply isContinuation_of_toNat <;> rw [third] <;> omega
        · have value : Text.codePoint (UInt8.ofNat (v / 262144 % 0x08 + 0xf0))
              [UInt8.ofNat (v / 4096 % 0x40 + 0x80), UInt8.ofNat (v / 64 % 0x40 + 0x80),
                UInt8.ofNat (v % 0x40 + 0x80)] = v := by
            simp only [Text.codePoint, List.length_cons, List.length_nil, List.foldl_cons,
              List.foldl_nil, lead, first, second, third]
            omega
          rw [value, back]

theorem chunksOnto_utf8 (before : List Text.Chunk) (chars : List Char) :
    Text.chunksOnto before (chars.flatMap String.utf8EncodeChar) =
      (chars.map Text.Chunk.char).reverse ++ before := by
  induction chars generalizing before with
  | nil =>
    rw [List.flatMap_nil, Text.chunksOnto]
    rfl
  | cons c rest ih =>
    obtain ⟨lead, more, bytes, scanned⟩ :=
      scan_utf8EncodeChar c (rest.flatMap String.utf8EncodeChar)
    rw [List.flatMap_cons, bytes, List.cons_append, Text.chunksOnto, scanned]
    simp only [List.drop_left, ih]
    simp

/-- A text is shown as it is. -/
theorem lossy_utf8 (text : String) : Text.lossy (utf8 text) = text := by
  have chunks := chunksOnto_utf8 [] text.toList
  rw [Text.lossy, Text.chunks, show utf8 text = text.toList.flatMap String.utf8EncodeChar from rfl,
    chunks]
  simp [Function.comp_def, Text.Chunk.shown]

theorem decode?_utf8 (text : String) : Text.decode? (utf8 text) = some text := by
  have chunks := chunksOnto_utf8 [] text.toList
  have all (chars : List Char) :
      (chars.map Text.Chunk.char).mapM Text.Chunk.char? = some chars := by
    induction chars with
    | nil => rfl
    | cons c rest ih => simp [List.mapM_cons, ih, Text.Chunk.char?]
  rw [Text.decode?, Text.chunks, show utf8 text = text.toList.flatMap String.utf8EncodeChar from rfl,
    chunks, List.append_nil, List.reverse_reverse, all]
  simp

/-- What stands before and after an ASCII byte of a text is text. -/
theorem text_around {b : UInt8} (ascii : b < 0x80) {text : String} {before rest : Bytes}
    (split : utf8 text = before ++ b :: rest) :
    ∃ front back : String, before = utf8 front ∧ rest = utf8 back := by
  obtain ⟨chars, rfl⟩ : ∃ chars, text = String.ofList chars := ⟨text.toList, by simp⟩
  rw [utf8, String.toList_ofList] at split
  suffices parts : ∃ front back : List Char, before = front.flatMap String.utf8EncodeChar ∧
      rest = back.flatMap String.utf8EncodeChar by
    obtain ⟨front, back, isFront, isBack⟩ := parts
    exact ⟨String.ofList front, String.ofList back, by simp [utf8, isFront], by simp [utf8, isBack]⟩
  induction chars generalizing before with
  | nil => simp at split
  | cons first chars ih =>
    rw [List.flatMap_cons] at split
    rcases List.append_eq_append_iff.mp split with ⟨rest', same, split'⟩ | ⟨rest', same, split'⟩
    · obtain ⟨front, back, isFront, isBack⟩ := ih split'
      exact ⟨first :: front, back, by rw [same, isFront, List.flatMap_cons], isBack⟩
    · cases rest' with
      | nil =>
        obtain ⟨-, back, -, isBack⟩ := @ih [] split'.symm
        exact ⟨[first], back, by rw [List.append_nil] at same; simp [same], isBack⟩
      | cons b' rest' =>
        obtain ⟨rfl, isRest⟩ := List.cons.inj split'
        have value : first.toNat = b.toNat := ascii_mem_utf8EncodeChar ascii (by simp [same])
        have short : first.toNat ≤ 0x7f := by
          have : b.toNat < 0x80 := ascii
          omega
        have single : (String.utf8EncodeChar first).length = 1 := by
          simp [String.utf8EncodeChar, short]
        rw [same, List.length_append, List.length_cons] at single
        obtain rfl : before = [] := List.eq_nil_of_length_eq_zero (by omega)
        obtain rfl : rest' = [] := List.eq_nil_of_length_eq_zero (by omega)
        exact ⟨[], chars, rfl, isRest⟩

/-! ## Cutting at an ASCII byte -/

theorem not_isContinuation {b : UInt8} (ascii : b < 0x80) : Text.isContinuation b = false := by
  have high : ¬ (0x80 : UInt8) ≤ b := UInt8.not_le.mpr ascii
  simp [Text.isContinuation, high]

theorem secondRange_ge (lead : UInt8) : 0x80 ≤ (Text.secondRange lead).1 := by
  unfold Text.secondRange
  repeat' split
  all_goals decide

theorem takeWhile_ascii {b : UInt8} (ascii : b < 0x80) (front back : Bytes) (n : Nat) :
    ((front ++ b :: back).take n).takeWhile Text.isContinuation =
      (front.take n).takeWhile Text.isContinuation := by
  induction front generalizing n with
  | nil => cases n <;> simp [not_isContinuation ascii]
  | cons first rest ih =>
    cases n with
    | zero => simp
    | succ n =>
      simp only [List.cons_append, List.take_succ_cons, List.takeWhile_cons]
      rw [ih n]

/-- What continues a character stops before an ASCII byte. -/
theorem trail_ascii {b : UInt8} (ascii : b < 0x80) (lead : UInt8) (n : Nat) (front back : Bytes) :
    Text.trail lead n (front ++ b :: back) = Text.trail lead n front := by
  cases n with
  | zero => simp [Text.trail]
  | succ n =>
    cases front with
    | nil =>
      have low : ¬ (Text.secondRange lead).1 ≤ b := fun le =>
        absurd (UInt8.le_trans (secondRange_ge lead) le) (UInt8.not_le.mpr ascii)
      simp [Text.trail, low]
    | cons first rest => simp only [List.cons_append, Text.trail, takeWhile_ascii ascii]

theorem scan_ascii {b : UInt8} (ascii : b < 0x80) (lead : UInt8) (front back : Bytes) :
    Text.scan lead (front ++ b :: back) = Text.scan lead front := by
  unfold Text.scan
  split
  · rfl
  · simp only [trail_ascii ascii]

theorem trail_length_le (lead : UInt8) (n : Nat) (rest : Bytes) :
    (Text.trail lead n rest).length ≤ rest.length := by
  unfold Text.trail
  split
  · exact Nat.zero_le _
  · exact Nat.zero_le _
  · dsimp only
    split
    · exact Nat.succ_le_succ
        (((List.takeWhile_prefix _).trans (List.take_prefix _ _)).length_le)
    · exact Nat.zero_le _

theorem scan_le (lead : UInt8) (rest : Bytes) : (Text.scan lead rest).2 ≤ rest.length := by
  unfold Text.scan
  split
  · exact Nat.zero_le _
  · rename_i n _
    have short := trail_length_le lead n rest
    dsimp only
    split
    · rename_i whole
      exact whole ▸ short
    · exact short

theorem chunksOnto_ascii {b : UInt8} (ascii : b < 0x80) (before : List Text.Chunk)
    (front back : Bytes) : Text.chunksOnto before (front ++ b :: back) =
      Text.chunksOnto (.char (Char.ofNat b.toNat) :: Text.chunksOnto before front) back := by
  cases front with
  | nil =>
    have scanned : Text.scan b back = (.char (Char.ofNat b.toNat), 0) := by
      simp [Text.scan, Text.trailCount, ascii, Text.trail, Text.codePoint]
    have none : Text.chunksOnto before [] = before := by simp [Text.chunksOnto]
    rw [none, List.nil_append, Text.chunksOnto, scanned]
    rfl
  | cons lead rest =>
    have used := scan_le lead rest
    rw [List.cons_append, Text.chunksOnto, Text.chunksOnto, scan_ascii ascii]
    generalize Text.scan lead rest = scanned at used
    obtain ⟨chunk, count⟩ := scanned
    dsimp only at used ⊢
    rw [List.drop_append_of_le_length used]
    exact chunksOnto_ascii ascii (chunk :: before) (rest.drop count) back
termination_by front.length
decreasing_by exact Nat.lt_succ_of_le (List.drop_sublist ..).length_le

theorem chunksOnto_eq (before : List Text.Chunk) (bytes : Bytes) :
    Text.chunksOnto before bytes = (Text.chunks bytes).reverse ++ before := by
  rw [Text.chunks, List.reverse_reverse]
  suffices onto : ∀ (n : Nat) (bytes : Bytes), bytes.length ≤ n → ∀ before : List Text.Chunk,
      Text.chunksOnto before bytes = Text.chunksOnto [] bytes ++ before from
    onto _ bytes (Nat.le_refl _) before
  intro n
  induction n with
  | zero =>
    intro bytes short before
    obtain rfl := List.eq_nil_of_length_eq_zero (Nat.le_zero.mp short)
    simp [Text.chunksOnto]
  | succ n ih =>
    intro bytes short before
    cases bytes with
    | nil => simp [Text.chunksOnto]
    | cons lead rest =>
      rw [Text.chunksOnto, Text.chunksOnto]
      generalize Text.scan lead rest = scanned
      obtain ⟨chunk, used⟩ := scanned
      dsimp only
      have less : (rest.drop used).length ≤ n :=
        Nat.le_trans (List.drop_sublist ..).length_le (Nat.le_of_succ_le_succ short)
      rw [ih _ less (chunk :: before), ih _ less [chunk], List.append_assoc]
      rfl

theorem chunks_cons (lead : UInt8) (rest : Bytes) : Text.chunks (lead :: rest) =
    (Text.scan lead rest).1 :: Text.chunks (rest.drop (Text.scan lead rest).2) := by
  rw [Text.chunks, Text.chunksOnto]
  generalize Text.scan lead rest = scanned
  obtain ⟨chunk, used⟩ := scanned
  simp only [chunksOnto_eq, List.reverse_append, List.reverse_reverse]
  rfl

/-- An ASCII byte is shown between what stands before and after it. -/
theorem lossy_ascii {b : UInt8} (ascii : b < 0x80) (front back : Bytes) :
    (Text.lossy (front ++ b :: back)).toList =
      (Text.lossy front).toList ++ Char.ofNat b.toNat :: (Text.lossy back).toList := by
  rw [Text.lossy, Text.lossy, Text.lossy, String.toList_ofList, String.toList_ofList,
    String.toList_ofList, Text.chunks, chunksOnto_ascii ascii, chunksOnto_eq, chunksOnto_eq]
  simp [Text.Chunk.shown]

/-- Bytes that are read as ASCII text are the bytes of that text. -/
theorem eq_utf8_of_decode {bytes : Bytes} {text : String}
    (isAscii : ∀ c ∈ text.toList, c.toNat < 0x80) (decoded : Text.decode? bytes = some text) :
    bytes = utf8 text := by
  have all {cs : List Text.Chunk} {chars : List Char} (read : cs.mapM Text.Chunk.char? = some chars) :
      cs.map Text.Chunk.shown = chars := by
    induction cs generalizing chars with
    | nil => simpa using read
    | cons chunk rest ih =>
      cases chunk with
      | illFormed bytes => simp [List.mapM_cons, Text.Chunk.char?] at read
      | char c =>
        simp only [List.mapM_cons, Text.Chunk.char?, Option.bind_eq_bind, Option.bind_some,
          Option.pure_def, Option.bind_eq_some_iff, Option.some.injEq] at read
        obtain ⟨others, read, rfl⟩ := read
        rw [List.map_cons, ih read]
        rfl
  obtain ⟨chars, read, rfl⟩ := Option.map_eq_some_iff.mp decoded
  have shown := all read
  rw [String.toList_ofList] at isAscii
  rw [utf8, String.toList_ofList]
  clear read decoded
  induction chars generalizing bytes with
  | nil =>
    cases bytes with
    | nil => rfl
    | cons lead rest => simp [chunks_cons] at shown
  | cons c chars ih =>
    rw [List.forall_mem_cons] at isAscii
    cases bytes with
    | nil => simp [Text.chunks, Text.chunksOnto] at shown
    | cons lead rest =>
      rw [chunks_cons, List.map_cons] at shown
      obtain ⟨first, others⟩ := List.cons.inj shown
      have small : (UInt8.ofNat c.toNat).toNat = c.toNat := toNat_ofNat (by omega)
      have low : UInt8.ofNat c.toNat < 0x80 := by
        rw [UInt8.lt_iff_toNat_lt, small]
        exact isAscii.1
      obtain rfl : lead = UInt8.ofNat c.toNat := by
        have shownFirst : (Text.scan lead rest).1.shown = .ofNat (UInt8.ofNat c.toNat).toNat := by
          rw [first, small, Char.ofNat_toNat]
        exact scan_shown_eq_ascii low shownFirst
      have single : (Text.scan (UInt8.ofNat c.toNat) rest).2 = 0 := by
        simp [Text.scan, Text.trailCount, low, Text.trail]
      have short : c.val.toNat ≤ 0x7f := Nat.le_of_lt_succ isAscii.1
      have own : String.utf8EncodeChar c = [UInt8.ofNat c.toNat] := by
        rw [String.utf8EncodeChar]
        simp only [short, if_true]
        rfl
      rw [single, List.drop_zero] at others
      rw [List.flatMap_cons, own, ← ih isAscii.2 others]
      rfl

end BugHunt.Proofs.Texts
