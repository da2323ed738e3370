import Mathlib
import BugHunt.Json
/-!
JSON texts as RFC 8259 has them: which text spells which value, and a reader that finds the value
of every such text. So no text spells two values.
-/

namespace BugHunt.Proofs.JsonTexts

inductive Value where
  | null
  | boolean (truth : Bool)
  | number (n : Rat)
  | string (text : String)
  | array (items : List Value)
  | object (members : List (String × Value))

/-! ## Strings -/

/-- Whether a character may stand in a string as it is. -/
def isPlain (c : Char) : Bool := ' ' ≤ c && c != '\x22' && c != '\\'

/-- The character that a letter behind a backslash stands for. -/
def short? : Char → Option Char
  | '\x22' => some '\x22'
  | '\\' => some '\\'
  | '/' => some '/'
  | 'b' => some '\x08'
  | 'f' => some '\x0c'
  | 'n' => some '\n'
  | 'r' => some '\r'
  | 't' => some '\t'
  | _ => none

def hexValue? (c : Char) : Option Nat :=
  if c.isDigit then some (c.toNat - 48)
  else if 'a' ≤ c && c ≤ 'f' then some (c.toNat - 87)
  else if 'A' ≤ c && c ≤ 'F' then some (c.toNat - 55)
  else none

/-- The value of four hexadecimal digits. -/
inductive SpellsUnit : List Char → Nat → Prop where
  | digits {a b c d : Char} {i j k l : Nat} (first : hexValue? a = some i)
      (second : hexValue? b = some j) (third : hexValue? c = some k) (last : hexValue? d = some l) :
      SpellsUnit [a, b, c, d] (((i * 16 + j) * 16 + k) * 16 + l)

def isHighSurrogate (n : Nat) : Bool := 0xD800 ≤ n && n < 0xDC00

def isLowSurrogate (n : Nat) : Bool := 0xDC00 ≤ n && n < 0xE000

def joined (high low : Nat) : Char := Char.ofNat (0x10000 + (high - 0xD800) * 0x400 + (low - 0xDC00))

/-- The ways to write a character of a string. A surrogate without its other half is no character. -/
inductive SpellsChar : List Char → Char → Prop where
  | plain {c : Char} (plain : isPlain c) : SpellsChar [c] c
  | short {letter c : Char} (short : short? letter = some c) : SpellsChar ['\\', letter] c
  | unit {digits : List Char} {n : Nat} (unit : SpellsUnit digits n)
      (notHigh : isHighSurrogate n = false) (notLow : isLowSurrogate n = false) :
      SpellsChar ('\\' :: 'u' :: digits) (Char.ofNat n)
  | pair {front back : List Char} {high low : Nat} (first : SpellsUnit front high)
      (isHigh : isHighSurrogate high) (second : SpellsUnit back low) (isLow : isLowSurrogate low) :
      SpellsChar ('\\' :: 'u' :: (front ++ '\\' :: 'u' :: back)) (joined high low)

inductive SpellsChars : List Char → List Char → Prop where
  | nil : SpellsChars [] []
  | cons {front back text : List Char} {c : Char} (first : SpellsChar front c)
      (rest : SpellsChars back text) : SpellsChars (front ++ back) (c :: text)

/-! ## Numbers -/

def AreDigits (cs : List Char) : Prop := cs ≠ [] ∧ ∀ c ∈ cs, c.isDigit

/-- Digits without a zero before others. -/
def AreWhole (cs : List Char) : Prop := AreDigits cs ∧ (cs.head? = some '0' → cs = ['0'])

def decimal (cs : List Char) : Nat := Nat.ofDigitChars 10 cs 0

inductive SpellsFraction : List Char → Rat → Prop where
  | none : SpellsFraction [] 0
  | some {cs : List Char} (digits : AreDigits cs) :
      SpellsFraction ('.' :: cs) (decimal cs / 10 ^ cs.length)

def isExponentSign (c : Char) : Bool := c == 'e' || c == 'E'

inductive SpellsExponent : List Char → Int → Prop where
  | none : SpellsExponent [] 0
  | unsigned {sign : Char} {cs : List Char} (marks : isExponentSign sign) (digits : AreDigits cs) :
      SpellsExponent (sign :: cs) (decimal cs)
  | plus {sign : Char} {cs : List Char} (marks : isExponentSign sign) (digits : AreDigits cs) :
      SpellsExponent (sign :: '+' :: cs) (decimal cs)
  | minus {sign : Char} {cs : List Char} (marks : isExponentSign sign) (digits : AreDigits cs) :
      SpellsExponent (sign :: '-' :: cs) (-decimal cs)

inductive SpellsMagnitude : List Char → Rat → Prop where
  | parts {whole fraction exponent : List Char} {part : Rat} {power : Int} (digits : AreWhole whole)
      (behind : SpellsFraction fraction part) (scale : SpellsExponent exponent power) :
      SpellsMagnitude (whole ++ fraction ++ exponent) ((decimal whole + part) * 10 ^ power)

inductive SpellsNumber : List Char → Rat → Prop where
  | positive {cs : List Char} {n : Rat} (digits : SpellsMagnitude cs n) : SpellsNumber cs n
  | negative {cs : List Char} {n : Rat} (digits : SpellsMagnitude cs n) : SpellsNumber ('-' :: cs) (-n)

/-! ## Values -/

def isBlank (c : Char) : Bool := c == ' ' || c == '\t' || c == '\n' || c == '\r'

def Blank (cs : List Char) : Prop := ∀ c ∈ cs, isBlank c

/-- What a part of a text spells: a value, a value with blanks around it, a member of an object, or
the insides of an array or of an object that are not empty. -/
inductive Part where
  | value (v : Value)
  | padded (v : Value)
  | items (vs : List Value)
  | member (key : String) (v : Value)
  | members (ms : List (String × Value))

inductive Spells : List Char → Part → Prop where
  | null : Spells ['n', 'u', 'l', 'l'] (.value .null)
  | yes : Spells ['t', 'r', 'u', 'e'] (.value (.boolean true))
  | no : Spells ['f', 'a', 'l', 's', 'e'] (.value (.boolean false))
  | number {cs : List Char} {n : Rat} (digits : SpellsNumber cs n) : Spells cs (.value (.number n))
  | string {cs text : List Char} (chars : SpellsChars cs text) :
      Spells ('\x22' :: (cs ++ ['\x22'])) (.value (.string (String.ofList text)))
  | emptyArray {blanks : List Char} (blank : Blank blanks) :
      Spells ('[' :: (blanks ++ [']'])) (.value (.array []))
  | array {cs : List Char} {vs : List Value} (items : Spells cs (.items vs)) :
      Spells ('[' :: (cs ++ [']'])) (.value (.array vs))
  | emptyObject {blanks : List Char} (blank : Blank blanks) :
      Spells ('\x7b' :: (blanks ++ ['\x7d'])) (.value (.object []))
  | object {cs : List Char} {ms : List (String × Value)} (members : Spells cs (.members ms)) :
      Spells ('\x7b' :: (cs ++ ['\x7d'])) (.value (.object ms))
  | padded {before cs after : List Char} {v : Value} (blankBefore : Blank before)
      (value : Spells cs (.value v)) (blankAfter : Blank after) :
      Spells (before ++ cs ++ after) (.padded v)
  | item {cs : List Char} {v : Value} (only : Spells cs (.padded v)) : Spells cs (.items [v])
  | items {cs more : List Char} {v : Value} {vs : List Value} (first : Spells cs (.padded v))
      (rest : Spells more (.items vs)) : Spells (cs ++ ',' :: more) (.items (v :: vs))
  | named {name cs : List Char} {key : String} {v : Value} (isName : Spells name (.padded (.string key)))
      (value : Spells cs (.padded v)) : Spells (name ++ ':' :: cs) (.member key v)
  | member {cs : List Char} {key : String} {v : Value} (only : Spells cs (.member key v)) :
      Spells cs (.members [(key, v)])
  | members {cs more : List Char} {key : String} {v : Value} {ms : List (String × Value)}
      (first : Spells cs (.member key v)) (rest : Spells more (.members ms)) :
      Spells (cs ++ ',' :: more) (.members ((key, v) :: ms))

/-- Whether a text is a JSON text for a value. -/
def IsText (text : String) (v : Value) : Prop := Spells text.toList (.padded v)

/-! ## A reader -/

def readUnit : List Char → Option (Nat × List Char)
  | a :: b :: c :: d :: rest => do
    let i ← hexValue? a
    let j ← hexValue? b
    let k ← hexValue? c
    let l ← hexValue? d
    return (((i * 16 + j) * 16 + k) * 16 + l, rest)
  | _ => none

/-- Reads what stands behind `\u`. -/
def readEscape (text : List Char) : Option (Char × List Char) := do
  let (high, rest) ← readUnit text
  if isHighSurrogate high then
    match rest with
    | '\\' :: 'u' :: rest =>
      let (low, rest) ← readUnit rest
      if isLowSurrogate low then some (joined high low, rest) else none
    | _ => none
  else if isLowSurrogate high then none
  else some (Char.ofNat high, rest)

def readChar : List Char → Option (Char × List Char)
  | [] => none
  | c :: text =>
    if c = '\\' then
      match text with
      | [] => none
      | letter :: rest =>
        if letter = 'u' then readEscape rest else (short? letter).map (·, rest)
    else if isPlain c then some (c, text)
    else none

/-- Reads the characters of a string and the quote behind them. -/
def readChars : Nat → List Char → Option (List Char × List Char)
  | 0, _ => none
  | fuel + 1, text => do
    if text.head? = some '\x22' then some ([], text.tail)
    else
      let (c, rest) ← readChar text
      let (chars, rest) ← readChars fuel rest
      return (c :: chars, rest)

def readDigits (text : List Char) : Option (List Char × List Char) :=
  if text.takeWhile Char.isDigit = [] then none
  else some (text.takeWhile Char.isDigit, text.dropWhile Char.isDigit)

def readFraction (text : List Char) : Option (Rat × List Char) :=
  if text.head? = some '.' then do
    let (digits, rest) ← readDigits text.tail
    return (decimal digits / 10 ^ digits.length, rest)
  else some (0, text)

def readPower : List Char → Option (Int × List Char)
  | '+' :: text => do
    let (digits, rest) ← readDigits text
    return ((decimal digits : Int), rest)
  | '-' :: text => do
    let (digits, rest) ← readDigits text
    return (-(decimal digits : Int), rest)
  | text => do
    let (digits, rest) ← readDigits text
    return ((decimal digits : Int), rest)

def readExponent (text : List Char) : Option (Int × List Char) :=
  if text.head?.any isExponentSign then readPower text.tail else some (0, text)

def readMagnitude (text : List Char) : Option (Rat × List Char) := do
  let (whole, rest) ← readDigits text
  if whole.head? = some '0' && whole != ['0'] then none
  else
    let (part, rest) ← readFraction rest
    let (power, rest) ← readExponent rest
    return ((decimal whole + part) * 10 ^ power, rest)

def readNumber : List Char → Option (Rat × List Char)
  | '-' :: text => do
    let (n, rest) ← readMagnitude text
    return (-n, rest)
  | text => readMagnitude text

def readWord : List Char → Option (Value × List Char)
  | 'n' :: 'u' :: 'l' :: 'l' :: rest => some (.null, rest)
  | 't' :: 'r' :: 'u' :: 'e' :: rest => some (.boolean true, rest)
  | 'f' :: 'a' :: 'l' :: 's' :: 'e' :: rest => some (.boolean false, rest)
  | _ => none

def skip (text : List Char) : List Char := text.dropWhile isBlank

/-- Reads a member of an object, given a way to read values. -/
def readMember (read : List Char → Option (Value × List Char)) (text : List Char) :
    Option ((String × Value) × List Char) := do
  let (name, rest) ← read (skip text)
  match name, skip rest with
  | .string key, ':' :: rest =>
    let (v, rest) ← read (skip rest)
    return ((key, v), rest)
  | _, _ => none

mutual

/-- Reads a value that begins with the first character. A value costs its fuel less than the text
is long. -/
def readValue : Nat → List Char → Option (Value × List Char)
  | 0, _ => none
  | _ + 1, [] => none
  | fuel + 1, c :: text =>
    if c = '\x22' then do
      let (chars, rest) ← readChars fuel text
      return (.string (String.ofList chars), rest)
    else if c = '[' then
      if (skip text).head? = some ']' then some (.array [], (skip text).tail)
      else do
        let (items, rest) ← readItems fuel text
        return (.array items, rest)
    else if c = '\x7b' then
      if (skip text).head? = some '\x7d' then some (.object [], (skip text).tail)
      else do
        let (members, rest) ← readMembers fuel text
        return (.object members, rest)
    else if c = '-' || c.isDigit then do
      let (n, rest) ← readNumber (c :: text)
      return (.number n, rest)
    else readWord (c :: text)

/-- Reads the items of an array and the bracket behind them. -/
def readItems : Nat → List Char → Option (List Value × List Char)
  | 0, _ => none
  | fuel + 1, text => do
    let (v, rest) ← readValue fuel (skip text)
    match skip rest with
    | ',' :: rest =>
      let (vs, rest) ← readItems fuel rest
      return (v :: vs, rest)
    | ']' :: rest => return ([v], rest)
    | _ => none

/-- Reads the members of an object and the brace behind them. -/
def readMembers : Nat → List Char → Option (List (String × Value) × List Char)
  | 0, _ => none
  | fuel + 1, text => do
    let (member, rest) ← readMember (readValue fuel) text
    match skip rest with
    | ',' :: rest =>
      let (ms, rest) ← readMembers fuel rest
      return (member :: ms, rest)
    | '\x7d' :: rest => return ([member], rest)
    | _ => none

end

/-- The value of a JSON text. -/
def read? (text : String) : Option Value := do
  let (v, rest) ← readValue (text.toList.length + 1) (skip text.toList)
  if skip rest = [] then some v else none

/-! ## What is spelled is read -/

theorem readUnit_spelled {cs : List Char} {n : Nat} (spelled : SpellsUnit cs n) (rest : List Char) :
    readUnit (cs ++ rest) = some (n, rest) := by
  cases spelled with
  | digits first second third last => simp [readUnit, first, second, third, last]

theorem readChar_spelled {cs : List Char} {c : Char} (spelled : SpellsChar cs c) (rest : List Char) :
    readChar (cs ++ rest) = some (c, rest) := by
  cases spelled with
  | plain plain =>
    have other : c ≠ '\\' := by
      rintro rfl
      revert plain
      decide
    simp [readChar, other, plain]
  | short short =>
    rename_i letter
    have other : letter ≠ 'u' := by
      rintro rfl
      revert short
      simp [short?]
    simp [readChar, other, short]
  | unit unit notHigh notLow =>
    simp [readChar, readEscape, readUnit_spelled unit, notHigh, notLow]
  | pair first isHigh second isLow =>
    simp [readChar, readEscape, readUnit_spelled first, readUnit_spelled second, isHigh, isLow]

/-- A quote ends a string. -/
theorem head_spelled {cs : List Char} {c : Char} (spelled : SpellsChar cs c) :
    ∃ first more, cs = first :: more ∧ first ≠ '\x22' := by
  cases spelled with
  | plain plain =>
    refine ⟨c, [], rfl, ?_⟩
    rintro rfl
    revert plain
    decide
  | short | unit | pair => exact ⟨'\\', _, rfl, by decide⟩

theorem readChars_spelled {cs text : List Char} (spelled : SpellsChars cs text) {fuel : Nat}
    (enough : cs.length < fuel) (rest : List Char) :
    readChars fuel (cs ++ '\x22' :: rest) = some (text, rest) := by
  induction spelled generalizing fuel with
  | nil =>
    obtain ⟨fuel, rfl⟩ : ∃ n, fuel = n + 1 := ⟨fuel - 1, by simp at enough; omega⟩
    simp [readChars]
  | @cons front back text c first later ih =>
    obtain ⟨sign, more, rfl, other⟩ := head_spelled first
    simp only [List.length_append, List.length_cons] at enough
    obtain ⟨fuel, rfl⟩ : ∃ n, fuel = n + 1 := ⟨fuel - 1, by omega⟩
    have step := readChar_spelled first (back ++ '\x22' :: rest)
    have onward := @ih fuel (by omega)
    rw [List.append_assoc, readChars, step]
    simp [other, onward]

/-- Whether a text does not go on with a number. -/
def EndsNumber (text : List Char) : Prop :=
  ∀ c, text.head? = some c → c.isDigit = false ∧ c ≠ '.' ∧ isExponentSign c = false

theorem readDigits_spelled {cs rest : List Char} (digits : AreDigits cs)
    (ends : ∀ c, rest.head? = some c → c.isDigit = false) : readDigits (cs ++ rest) = some (cs, rest) := by
  have taken : rest.takeWhile Char.isDigit = [] := by
    cases rest with
    | nil => rfl
    | cons c rest => simp [ends c rfl]
  have dropped : rest.dropWhile Char.isDigit = rest := by
    cases rest with
    | nil => rfl
    | cons c rest => simp [ends c rfl]
  unfold readDigits
  rw [List.takeWhile_append_of_pos digits.2, List.dropWhile_append_of_pos digits.2, taken, dropped,
    List.append_nil, if_neg digits.1]

theorem readFraction_spelled {cs rest : List Char} {part : Rat} (spelled : SpellsFraction cs part)
    (ends : ∀ c, rest.head? = some c → c.isDigit = false ∧ c ≠ '.') :
    readFraction (cs ++ rest) = some (part, rest) := by
  cases spelled with
  | none =>
    have other : rest.head? ≠ some '.' := fun same => (ends _ same).2 rfl
    simp [readFraction, other]
  | some digits =>
    simp [readFraction, readDigits_spelled digits fun c is => (ends c is).1]

theorem sign_not_digit {c : Char} (marks : isExponentSign c) : c.isDigit = false ∧ c ≠ '.' := by
  simp only [isExponentSign, Bool.or_eq_true, beq_iff_eq] at marks
  rcases marks with rfl | rfl <;> decide

theorem digits_head {cs : List Char} (digits : AreDigits cs) :
    ∃ c more, cs = c :: more ∧ c.isDigit := by
  obtain ⟨some, all⟩ := digits
  obtain ⟨c, more, rfl⟩ := List.exists_cons_of_ne_nil some
  exact ⟨c, more, rfl, all c List.mem_cons_self⟩

theorem readPower_unsigned {cs rest : List Char} (digits : AreDigits cs)
    (ends : ∀ c, rest.head? = some c → c.isDigit = false) :
    readPower (cs ++ rest) = some ((decimal cs : Int), rest) := by
  obtain ⟨c, more, rfl, digit⟩ := digits_head digits
  have read := readDigits_spelled digits ends
  unfold readPower
  split
  · rename_i same
    obtain ⟨rfl, -⟩ := List.cons.inj same
    exact absurd digit (by decide)
  · rename_i same
    obtain ⟨rfl, -⟩ := List.cons.inj same
    exact absurd digit (by decide)
  · rw [read]
    rfl

theorem readExponent_spelled {cs rest : List Char} {power : Int} (spelled : SpellsExponent cs power)
    (ends : ∀ c, rest.head? = some c → c.isDigit = false ∧ isExponentSign c = false) :
    readExponent (cs ++ rest) = some (power, rest) := by
  cases spelled with
  | none =>
    have other : rest.head?.any isExponentSign = false := by
      cases rest with
      | nil => rfl
      | cons c rest => simp [(ends c rfl).2]
    simp [readExponent, other]
  | unsigned marks digits =>
    simp [readExponent, marks, readPower_unsigned digits fun c is => (ends c is).1]
  | plus marks digits =>
    simp [readExponent, marks, readPower, readDigits_spelled digits fun c is => (ends c is).1]
  | minus marks digits =>
    simp [readExponent, marks, readPower, readDigits_spelled digits fun c is => (ends c is).1]

theorem exponent_head {cs rest : List Char} {power : Int} (spelled : SpellsExponent cs power)
    (ends : EndsNumber rest) :
    ∀ c, (cs ++ rest).head? = some c → c.isDigit = false ∧ c ≠ '.' := by
  intro c is
  cases spelled with
  | none => exact ⟨(ends c is).1, (ends c is).2.1⟩
  | unsigned marks | plus marks | minus marks =>
    obtain rfl := Option.some.inj is
    exact sign_not_digit marks

theorem fraction_head {cs rest : List Char} {part : Rat} (spelled : SpellsFraction cs part)
    (ends : ∀ c, rest.head? = some c → c.isDigit = false) :
    ∀ c, (cs ++ rest).head? = some c → c.isDigit = false := by
  intro c is
  cases spelled with
  | none => exact ends c is
  | some digits =>
    obtain rfl := Option.some.inj is
    rfl

theorem readMagnitude_spelled {cs rest : List Char} {n : Rat} (spelled : SpellsMagnitude cs n)
    (ends : EndsNumber rest) : readMagnitude (cs ++ rest) = some (n, rest) := by
  cases spelled with
  | @parts whole fraction exponent part power digits behind scale =>
    have afterFraction := exponent_head scale ends
    have afterWhole := fraction_head behind fun c is => (afterFraction c is).1
    have plain : (whole.head? = some '0' && whole != ['0']) = false := by
      by_cases zero : whole.head? = some '0'
      · simp [digits.2 zero]
      · simp [zero]
    have first := readDigits_spelled digits.1 afterWhole
    have second := readFraction_spelled behind afterFraction
    have third : readExponent (exponent ++ rest) = some (power, rest) :=
      readExponent_spelled scale fun c is => ⟨(ends c is).1, (ends c is).2.2⟩
    simp only [readMagnitude, List.append_assoc, first, second, third, plain, Option.bind_eq_bind,
      Option.bind_some]
    rfl

theorem magnitude_head {cs : List Char} {n : Rat} (spelled : SpellsMagnitude cs n) :
    ∃ c more, cs = c :: more ∧ c.isDigit := by
  cases spelled with
  | parts digits behind scale =>
    obtain ⟨c, more, rfl, digit⟩ := digits_head digits.1
    exact ⟨c, _, rfl, digit⟩

theorem readNumber_spelled {cs rest : List Char} {n : Rat} (spelled : SpellsNumber cs n)
    (ends : EndsNumber rest) : readNumber (cs ++ rest) = some (n, rest) := by
  cases spelled with
  | negative digits => simp [readNumber, readMagnitude_spelled digits ends]
  | positive digits =>
    obtain ⟨c, more, rfl, digit⟩ := magnitude_head digits
    have read := readMagnitude_spelled digits ends
    unfold readNumber
    split
    · rename_i same
      obtain ⟨rfl, -⟩ := List.cons.inj same
      exact absurd digit (by decide)
    · exact read

/-- Whether a value may end before a text. -/
def Ends (text : List Char) : Prop :=
  ∀ c, text.head? = some c → isBlank c ∨ c = ',' ∨ c = ':' ∨ c = ']' ∨ c = '\x7d'

theorem Ends.number {text : List Char} (ends : Ends text) : EndsNumber text := by
  intro c is
  rcases ends c is with blank | rfl | rfl | rfl | rfl
  · simp only [isBlank, Bool.or_eq_true, beq_iff_eq, or_assoc] at blank
    rcases blank with rfl | rfl | rfl | rfl <;> decide
  all_goals decide

theorem ends_cons {c : Char} {text : List Char} (ends : c = ',' ∨ c = ':' ∨ c = ']' ∨ c = '\x7d') :
    Ends (c :: text) := by
  rintro c' is
  obtain rfl := Option.some.inj is
  exact .inr ends

theorem Ends.blank {blanks text : List Char} (blank : Blank blanks) (ends : Ends text) :
    Ends (blanks ++ text) := by
  cases blanks with
  | nil => exact ends
  | cons c more =>
    intro c' is
    obtain rfl := Option.some.inj is
    exact .inl (blank _ List.mem_cons_self)

theorem skip_blank {blanks : List Char} (blank : Blank blanks) (text : List Char) :
    skip (blanks ++ text) = skip text := List.dropWhile_append_of_pos blank

theorem skip_cons {c : Char} (busy : isBlank c = false) (text : List Char) :
    skip (c :: text) = c :: text := by
  simp [skip, busy]

theorem number_head {cs : List Char} {n : Rat} (spelled : SpellsNumber cs n) :
    ∃ c more, cs = c :: more ∧ (c = '-' || c.isDigit) := by
  cases spelled with
  | positive digits =>
    obtain ⟨c, more, rfl, digit⟩ := magnitude_head digits
    exact ⟨c, more, rfl, by simp [digit]⟩
  | negative digits => exact ⟨'-', _, rfl, by decide⟩

/-- A value begins with a sign that is no blank. -/
theorem value_head {cs : List Char} {v : Value} (spelled : Spells cs (.value v)) :
    ∃ c more, cs = c :: more ∧ isBlank c = false := by
  cases spelled with
  | number digits =>
    obtain ⟨c, more, rfl, sign⟩ := number_head digits
    refine ⟨c, more, rfl, ?_⟩
    rw [Bool.eq_false_iff]
    intro blank
    simp only [isBlank, Bool.or_eq_true, beq_iff_eq, or_assoc] at blank
    rcases blank with rfl | rfl | rfl | rfl <;> exact absurd sign (by decide)
  | null | yes | no | string | emptyArray | array | emptyObject | object =>
    exact ⟨_, _, rfl, by decide⟩

/-- Whether a part of a text is read for what it spells, with fuel enough for its length. The
insides of an array and of an object are read with the sign that closes them. -/
def IsRead (cs : List Char) : Part → Prop
  | .value v => ∀ fuel rest, cs.length < fuel → Ends rest →
    readValue fuel (cs ++ rest) = some (v, rest)
  | .padded v => ∀ fuel rest, cs.length < fuel → Ends rest →
    ∃ after, readValue fuel (skip (cs ++ rest)) = some (v, after) ∧ skip after = skip rest
  | .items vs => ∀ fuel rest, cs.length + 1 < fuel →
    readItems fuel (cs ++ ']' :: rest) = some (vs, rest)
  | .member key v => ∀ fuel rest, cs.length < fuel → Ends rest →
    ∃ after, readMember (readValue fuel) (cs ++ rest) = some ((key, v), after) ∧ skip after = skip rest
  | .members ms => ∀ fuel rest, cs.length + 1 < fuel →
    readMembers fuel (cs ++ '\x7d' :: rest) = some (ms, rest)

theorem readItems_closed {text : List Char} (closed : (skip text).head? = some ']') (fuel : Nat) :
    readItems fuel text = none := by
  obtain ⟨more, split⟩ : ∃ more, skip text = ']' :: more := by
    cases h : skip text with
    | nil => simp [h] at closed
    | cons c more =>
      rw [h] at closed
      obtain rfl := Option.some.inj closed
      exact ⟨more, rfl⟩
  cases fuel with
  | zero => rfl
  | succ fuel =>
    rw [readItems, split]
    cases fuel <;> rfl

theorem readMembers_closed {text : List Char} (closed : (skip text).head? = some '\x7d') (fuel : Nat) :
    readMembers fuel text = none := by
  obtain ⟨more, split⟩ : ∃ more, skip text = '\x7d' :: more := by
    cases h : skip text with
    | nil => simp [h] at closed
    | cons c more =>
      rw [h] at closed
      obtain rfl := Option.some.inj closed
      exact ⟨more, rfl⟩
  cases fuel with
  | zero => rfl
  | succ fuel =>
    rw [readMembers, readMember, split]
    cases fuel <;> rfl

theorem isRead_padded {before cs after : List Char} {v : Value} (blankBefore : Blank before)
    (spelled : Spells cs (.value v)) (isRead : IsRead cs (.value v)) (blankAfter : Blank after) :
    IsRead (before ++ cs ++ after) (.padded v) := by
  intro fuel rest enough ends
  simp only [List.length_append] at enough
  have onward := isRead fuel (after ++ rest) (by omega) (ends.blank blankAfter)
  refine ⟨after ++ rest, ?_, skip_blank blankAfter rest⟩
  obtain ⟨c, more, rfl, busy⟩ := value_head spelled
  rw [List.append_assoc, List.append_assoc, skip_blank blankBefore, List.cons_append, skip_cons busy]
  exact onward

theorem isRead_of_spelled {cs : List Char} {part : Part} (spelled : Spells cs part) :
    IsRead cs part := by
  induction spelled with
  | null | yes | no =>
    rintro (_ | fuel) rest enough -
    · simp at enough
    · rfl
  | number digits =>
    rintro (_ | fuel) rest enough ends
    · simp at enough
    · have read := readNumber_spelled digits ends.number
      obtain ⟨c, more, rfl, sign⟩ := number_head digits
      rw [List.cons_append] at read ⊢
      have signs : c ≠ '\x22' ∧ c ≠ '[' ∧ c ≠ '\x7b' := by
        refine ⟨?_, ?_, ?_⟩ <;> rintro rfl <;> exact absurd sign (by decide)
      simp [readValue, signs.1, signs.2.1, signs.2.2, sign, read]
  | string chars =>
    rintro (_ | fuel) rest enough -
    · simp at enough
    · simp only [List.length_cons, List.length_append, List.length_nil] at enough
      have read := readChars_spelled chars (by omega : _ < fuel) rest
      simp [readValue, read]
  | emptyArray blank =>
    rintro (_ | fuel) rest enough -
    · simp at enough
    · simp [readValue, skip_blank blank, skip_cons (c := ']') (by decide)]
  | @array cs vs items ih =>
    rintro (_ | fuel) rest enough -
    · simp at enough
    · simp only [List.length_cons, List.length_append, List.length_nil] at enough
      have read := ih fuel rest (by omega)
      have filled : (skip (cs ++ ']' :: rest)).head? ≠ some ']' := fun closed => by
        rw [readItems_closed closed] at read
        cases read
      simp [readValue, filled, read]
  | emptyObject blank =>
    rintro (_ | fuel) rest enough -
    · simp at enough
    · simp [readValue, skip_blank blank, skip_cons (c := '\x7d') (by decide)]
  | @object cs ms members ih =>
    rintro (_ | fuel) rest enough -
    · simp at enough
    · simp only [List.length_cons, List.length_append, List.length_nil] at enough
      have read := ih fuel rest (by omega)
      have filled : (skip (cs ++ '\x7d' :: rest)).head? ≠ some '\x7d' := fun closed => by
        rw [readMembers_closed closed] at read
        cases read
      simp [readValue, filled, read]
  | padded blankBefore value blankAfter ih => exact isRead_padded blankBefore value ih blankAfter
  | item only ih =>
    rintro (_ | fuel) rest enough
    · simp at enough
    · obtain ⟨after, read, onward⟩ := ih fuel (']' :: rest) (by omega) (ends_cons (by simp))
      rw [readItems, read]
      simp [onward, skip_cons (c := ']') (by decide)]
  | @items cs more v vs first rest ih ih' =>
    rintro (_ | fuel) tail enough
    · simp at enough
    · simp only [List.length_append, List.length_cons] at enough
      obtain ⟨after, read, onward⟩ := ih fuel (',' :: (more ++ ']' :: tail)) (by omega) (ends_cons (by simp))
      have later := ih' fuel tail (by omega)
      rw [List.append_assoc, List.cons_append, readItems, read]
      simp [onward, skip_cons (c := ',') (by decide), later]
  | @named name cs key v _ _ ih ih' =>
    intro fuel tail enough ends
    simp only [List.length_append, List.length_cons] at enough
    obtain ⟨after, read, onward⟩ := ih fuel (':' :: (cs ++ tail)) (by omega) (ends_cons (by simp))
    obtain ⟨after', read', onward'⟩ := ih' fuel tail (by omega) ends
    refine ⟨after', ?_, onward'⟩
    rw [List.append_assoc, List.cons_append, readMember, read]
    simp [onward, skip_cons (c := ':') (by decide), read']
  | member only ih =>
    rintro (_ | fuel) rest enough
    · simp at enough
    · obtain ⟨after, read, onward⟩ := ih fuel ('\x7d' :: rest) (by omega) (ends_cons (by simp))
      rw [readMembers, read]
      simp [onward, skip_cons (c := '\x7d') (by decide)]
  | @members cs more key v ms first rest ih ih' =>
    rintro (_ | fuel) tail enough
    · simp at enough
    · simp only [List.length_append, List.length_cons] at enough
      have ends : Ends (',' :: (more ++ '\x7d' :: tail)) := ends_cons (by simp)
      obtain ⟨after, read, onward⟩ := ih fuel (',' :: (more ++ '\x7d' :: tail)) (by omega) ends
      have later := ih' fuel tail (by omega)
      rw [List.append_assoc, List.cons_append, readMembers, read]
      simp [onward, skip_cons (c := ',') (by decide), later]

/-- The reader finds the value of every JSON text. -/
theorem read?_text {text : String} {v : Value} (isText : IsText text v) : read? text = some v := by
  have noMore : Ends [] := fun _ is => by cases is
  obtain ⟨after, read, onward⟩ :=
    isRead_of_spelled isText (text.toList.length + 1) [] (Nat.lt_succ_self _) noMore
  rw [List.append_nil] at read
  have done : skip after = [] := onward
  simp only [read?, read, Option.bind_eq_bind, Option.bind_some, done, if_true]

/-- No text is a JSON text for two values. -/
theorem IsText.unique {text : String} {v w : Value} (isText : IsText text v) (also : IsText text w) :
    v = w :=
  Option.some.inj ((read?_text isText).symm.trans (read?_text also))

/-! ## What is printed -/

mutual

/-- The value of what can be printed. -/
def valueOf : Json → Value
  | .null => .null
  | .number n => .number n
  | .string text => .string text
  | .object entries => .object (membersOf entries)

def memberOf : String × Json → String × Value
  | (key, value) => (key, valueOf value)

def membersOf : List (String × Json) → List (String × Value)
  | [] => []
  | entry :: rest => memberOf entry :: membersOf rest

end

theorem hexValue?_hexDigit {n : Nat} (small : n < 16) : hexValue? (Bytes.hexDigit n) = some n := by
  revert n
  decide

theorem spells_control {c : Char} (control : c < ' ') : SpellsChar
    ['\\', 'u', '0', '0', Bytes.hexDigit (c.toNat / 16), Bytes.hexDigit (c.toNat % 16)] c := by
  have small : c.toNat < 32 := control
  have unit : SpellsUnit ['0', '0', Bytes.hexDigit (c.toNat / 16), Bytes.hexDigit (c.toNat % 16)]
      (((0 * 16 + 0) * 16 + c.toNat / 16) * 16 + c.toNat % 16) :=
    .digits rfl rfl (hexValue?_hexDigit (by omega)) (hexValue?_hexDigit (by omega))
  have value : ((0 * 16 + 0) * 16 + c.toNat / 16) * 16 + c.toNat % 16 = c.toNat := by omega
  rw [value] at unit
  have escape := SpellsChar.unit unit (by simp [isHighSurrogate]; omega) (by simp [isLowSurrogate]; omega)
  rwa [Char.ofNat_toNat] at escape

/-- A character is read as itself from the way it is escaped. -/
theorem spells_escapeChar (c : Char) : SpellsChar (Json.escapeChar c) c := by
  unfold Json.escapeChar
  split_ifs with quote backslash back tab newline feed carriage control
  · subst quote
    exact .short rfl
  · subst backslash
    exact .short rfl
  · subst back
    exact .short rfl
  · subst tab
    exact .short rfl
  · subst newline
    exact .short rfl
  · subst feed
    exact .short rfl
  · subst carriage
    exact .short rfl
  · exact spells_control control
  · exact .plain (by simp [isPlain, quote, backslash, Char.not_lt.mp control])

theorem spells_flatMap (text : List Char) : SpellsChars (text.flatMap Json.escapeChar) text := by
  induction text with
  | nil => exact .nil
  | cons c rest ih => exact .cons (spells_escapeChar c) ih

theorem spells_quote (text : String) : Spells (Json.quote text) (.value (.string text)) := by
  have spelled := Spells.string (spells_flatMap text.toList)
  rwa [String.ofList_toList] at spelled

/-- Only zero is written with a zero before all else. -/
theorem toDigits_head (n : Nat) (zero : (Nat.toDigits 10 n).head? = some '0') :
    Nat.toDigits 10 n = ['0'] := by
  induction n using Nat.strongRecOn with
  | ind n ih =>
    by_cases small : n < 10
    · rw [Nat.toDigits_of_lt_base small] at zero ⊢
      rw [Option.some.inj zero]
    · have split := Nat.toDigits_of_base_le (b := 10) (n := n) (by decide) (by omega)
      rw [split, List.head?_append_of_ne_nil _ Nat.toDigits_ne_nil] at zero
      have rest := ih (n / 10) (by omega) zero
      have value : decimal (Nat.toDigits 10 (n / 10)) = n / 10 := Nat.ofDigitChars_ten_toDigits
      rw [rest, show decimal ['0'] = 0 from rfl] at value
      omega

theorem areWhole_toDigits (n : Nat) : AreWhole (Nat.toDigits 10 n) :=
  ⟨⟨Nat.toDigits_ne_nil, fun _ => Nat.isDigit_of_mem_toDigits (by decide) (by decide)⟩, toDigits_head n⟩

theorem spells_nat (n : Nat) : SpellsMagnitude (Nat.toDigits 10 n) n := by
  have spelled := SpellsMagnitude.parts (areWhole_toDigits n) .none .none
  have value : decimal (Nat.toDigits 10 n) = n := Nat.ofDigitChars_ten_toDigits
  simpa [value] using spelled

theorem spells_int (n : Int) : SpellsNumber (toString n).toList n := by
  rw [Int.toString_eq_repr]
  cases n with
  | ofNat n =>
    have spelled := SpellsNumber.positive (spells_nat n)
    simpa [Int.repr, Nat.repr] using spelled
  | negSucc n =>
    have spelled := SpellsNumber.negative (spells_nat n.succ)
    have value : ((Int.negSucc n : Int) : Rat) = -((n.succ : Nat) : Rat) := by
      rw [Int.negSucc_eq]
      push_cast
      rfl
    rw [value]
    simpa [Int.repr, Nat.repr] using spelled

theorem blank_indentation (depth : Nat) : Blank (Json.indentation depth) := by
  intro c found
  rcases List.mem_cons.mp found with rfl | found
  · rfl
  · rw [List.eq_of_mem_replicate found]
    rfl

theorem blank_nil : Blank [] := fun _ found => absurd found List.not_mem_nil

mutual

theorem spells_print (depth : Nat) : (value : Json) → Spells (value.print depth) (.value (valueOf value))
  | .null => .null
  | .number n => .number (spells_int n)
  | .string text => spells_quote text
  | .object [] => .emptyObject blank_nil
  | .object (entry :: rest) => by
    have members := spells_entries (depth + 1) rest (spells_entry (depth + 1) entry)
      (blank_indentation depth)
    simpa [Json.print, valueOf, membersOf] using Spells.object members

theorem spells_entry (depth : Nat) : (entry : String × Json) → ∀ {blanks : List Char}, Blank blanks →
    Spells (Json.printEntry depth entry ++ blanks) (.member (memberOf entry).1 (memberOf entry).2)
  | (key, value), blanks, blank => by
    have named := Spells.padded (blank_indentation depth) (spells_quote key) blank_nil
    have space : Blank [' '] := by simp [Blank, isBlank]
    have spelled := Spells.padded space (spells_print depth value) blank
    simpa [Json.printEntry, memberOf] using named.named spelled

/-- The entries behind a first one. -/
theorem spells_entries (depth : Nat) : (rest : List (String × Json)) →
    ∀ {entry blanks : List Char} {member : String × Value},
      (∀ {blanks : List Char}, Blank blanks → Spells (entry ++ blanks) (.member member.1 member.2)) →
      Blank blanks →
      Spells (entry ++ Json.printEntries depth rest ++ blanks) (.members (member :: membersOf rest))
  | [], entry, blanks, member, first, blank => by
    simpa [Json.printEntries, membersOf] using Spells.member (first blank)
  | entry' :: rest, entry, blanks, member, first, blank => by
    have others := spells_entries depth rest (spells_entry depth entry') blank
    have spelled := first blank_nil
    simpa [Json.printEntries, membersOf] using Spells.members spelled others

end

/-- What is printed is a JSON text for the value. -/
theorem isText_pretty (value : Json) : IsText value.pretty (valueOf value) := by
  have padded := Spells.padded blank_nil (spells_print 0 value) blank_nil
  simpa [IsText, Json.pretty] using padded

end BugHunt.Proofs.JsonTexts
