import BugHunt.Proofs.Runs
import BugHunt.Proofs.SettingsForms
import BugHunt.Proofs.VariantKeys
import BugHunt.Settings.Load
import Mathlib.Data.List.Sort
import Mathlib.Data.String.Basic
/-!
The format of settings files: which documents are settings, and that the settings that are loaded
hold just what the document gives.
-/

namespace BugHunt.Proofs.SettingsFormat
open Runs Settings SettingsForms Toml TomlTables

variable {α σ τ : Type}

/-! ## Kinds of values -/

def IsText (v : Value) (text : String) : Prop := v = .string text

/-- A whole number that is not negative. -/
def IsNatural (v : Value) (n : Nat) : Prop := v = .integer n

def IsList (item : Value → α → Prop) (v : Value) (xs : List α) : Prop :=
  ∃ items, v = .array items ∧ List.Forall₂ item items xs

/-- A table of texts, which are held in the order of their keys. -/
def IsTexts (v : Value) (pairs : List (String × String)) : Prop :=
  ∃ entries, v = .table entries ∧ (∀ entry ∈ entries, ∃ text, IsText entry.2 text) ∧
    (∀ key text, (key, text) ∈ pairs ↔ (key, .string text) ∈ entries) ∧
    pairs.Pairwise fun a b => a.1 < b.1

/-- A table of texts, or a date or time, which counts as the table of its text under one key. -/
def IsTextsOrMoment (v : Value) (pairs : List (String × String)) : Prop :=
  IsTexts v pairs ∨ ∃ text, v = .moment text ∧ pairs = [(momentKey, text)]

/-! ## Slots -/

/-- A value that is unset unless it is given. -/
def optional (name : String) (get : σ → Option α) (kind : Value → α → Prop) : Slot σ where
  name
  Content := Option α
  get
  unset := none
  means v content := ∃ x, content = some x ∧ kind v x
  takes v := ∃ x, kind v x

/-- A list that is empty unless it is given, and may be missing from an array. -/
def orEmpty (name : String) (get : σ → List α) (kind : Value → List α → Prop) : Slot σ where
  name
  Content := List α
  get
  unset := []
  means := kind
  takes v := ∃ x, kind v x
  mayBeMissing := true

/-- A section, in which nothing is set unless it is given. -/
def part (name : String) (get : σ → τ) (blank : τ) (slots : List (Slot τ)) : Slot σ where
  name
  Content := τ
  get
  unset := blank
  means := Section slots
  takes := Conforms slots

def toolSlots : List (Slot ToolSettings) := [
  optional "clang" (·.clang) IsText,
  optional "clangxx" (·.clangxx) IsText,
  optional "llvm-as" (·.llvmAs) IsText,
  optional "llvm-dis" (·.llvmDis) IsText,
  optional "llvm-reduce" (·.llvmReduce) IsText,
  optional "creduce" (·.creduce) IsText,
  optional "souffle" (·.souffle) IsText,
  optional "git" (·.git) IsText,
  optional "factgen" (·.factgen) IsText]

def timeoutSlots : List (Slot TimeoutSettings) := [
  optional "compile-secs" (·.compileSecs) IsNatural,
  optional "analysis-secs" (·.analysisSecs) IsNatural]

def limitSlots : List (Slot LimitSettings) := [optional "memory-bytes" (·.memoryBytes) IsNatural]

def compilerSlots : List (Slot CompilerSettings) := [
  optional "opt-levels" (·.optLevels) (IsList (IsList IsText)),
  orEmpty "extra-args" (·.extraArgs) (IsList IsText)]

def analysisSlots : List (Slot AnalysisSettings) := [
  optional "assertions" (·.assertions) (IsList IsText),
  optional "context-sensitivity" (·.contextSensitivity) IsText,
  optional "project" (·.project) IsText,
  optional "library-dir" (·.libraryDir) IsText]

/-- The slots of a search, where `texts` are the values that go for repositories. -/
def searchSlots (texts : Value → List (String × String) → Prop) : List (Slot SearchSettings) := [
  optional "roots" (·.roots) (IsList IsText),
  optional "repositories" (·.repositories) texts]

def settingsSlots (texts : Value → List (String × String) → Prop) : List (Slot Settings) := [
  part "tools" (·.tools) {} toolSlots,
  part "timeouts" (·.timeouts) {} timeoutSlots,
  part "limits" (·.limits) {} limitSlots,
  part "compiler" (·.compiler) {} compilerSlots,
  part "analysis" (·.analysis) {} analysisSlots,
  part "search" (·.search) {} (searchSlots texts)]

/-! ## Readers of values -/

/-- Whether a reader of values finds what they mean. -/
def Decodes (read : Value → Decoded α) (means : Value → α → Prop) : Prop :=
  ∀ v, Sound v → ∀ x, read v = .ok x ↔ means v x

theorem decodes_text : Decodes Settings.string IsText := by
  intro v _ text
  cases v <;> simp [Settings.string, IsText]

theorem decodes_natural : Decodes Settings.natural IsNatural := by
  intro v _ n
  unfold IsNatural
  cases v with
  | integer k =>
    rw [Settings.natural, Value.integer.injEq]
    split
    · constructor
      · intro read
        cases read
      · intro same
        omega
    · rw [Except.ok.injEq]
      omega
  | _ => simp [Settings.natural]

theorem mapM_eq_ok {β : Type} {read : β → Decoded α} {items : List β} {xs : List α} :
    items.mapM read = .ok xs ↔ List.Forall₂ (fun item x => read item = .ok x) items xs := by
  induction items generalizing xs with
  | nil =>
    rw [List.mapM_nil, List.forall₂_nil_left_iff]
    exact ⟨fun read => (Except.ok.inj read).symm, fun none => none ▸ rfl⟩
  | cons item rest ih =>
    simp only [List.mapM_cons, bind_eq_ok, List.forall₂_cons_left_iff, ih]
    constructor
    · rintro ⟨x, first, others, more, same⟩
      exact ⟨x, others, first, more, (Except.ok.inj same).symm⟩
    · rintro ⟨x, others, first, more, rfl⟩
      exact ⟨x, first, others, more, rfl⟩

theorem Decodes.list {read : Value → Decoded α} {means : Value → α → Prop}
    (decodes : Decodes read means) : Decodes (Settings.list read) (IsList means) := by
  have all {items : List Value} (each : ∀ item ∈ items, Sound item) (xs : List α) :
      items.mapM read = .ok xs ↔ List.Forall₂ means items xs := by
    rw [mapM_eq_ok]
    induction items generalizing xs with
    | nil => simp
    | cons item rest ih =>
      rw [List.forall_mem_cons] at each
      simp only [List.forall₂_cons_left_iff, decodes item each.1, ih each.2]
  intro v sound xs
  unfold IsList
  cases sound with
  | array each =>
    rw [Settings.list, all each]
    constructor
    · exact fun held => ⟨_, rfl, held⟩
    · rintro ⟨items, same, held⟩
      rwa [Value.array.inj same]
  | _ => simp [Settings.list]

/-- The entry of a table that a text stands in. -/
def entryOf (pair : String × String) : String × Value := (pair.1, .string pair.2)

theorem read_texts_iff {entries : List (String × Value)} {pairs : List (String × String)} :
    (entries.mapM fun (key, v) => return (key, ← Settings.string v) : Decoded _) = .ok pairs ↔
      entries = pairs.map entryOf := by
  have same : (fun (entry : String × Value) (pair : String × String) =>
      (do return (entry.1, ← Settings.string entry.2) : Decoded _) = .ok pair) =
      fun entry pair => entry = entryOf pair := by
    funext entry pair
    obtain ⟨key, v⟩ := entry
    obtain ⟨key', text⟩ := pair
    cases v <;> simp [Settings.string, entryOf, bind, Except.bind, pure, Except.pure]
  rw [mapM_eq_ok, same, ← List.forall₂_map_right_iff, List.forall₂_eq_eq_eq]

/-- The order of texts by their keys. -/
def ordered (a b : String × String) : Bool := !decide (b.1 < a.1)

theorem ordered_iff {a b : String × String} : ordered a b ↔ a.1 ≤ b.1 := by
  rw [ordered, Bool.not_eq_true', decide_eq_false_iff_not, not_lt]

/-- IsTexts with keys of their own are sorted strictly. -/
theorem sorted_texts {pairs : List (String × String)} (apart : (pairs.map Prod.fst).Nodup) :
    (pairs.mergeSort ordered).Pairwise fun a b => a.1 < b.1 := by
  have sorted : (pairs.mergeSort ordered).Pairwise fun a b => ordered a b := by
    refine List.pairwise_mergeSort ?_ ?_ pairs
    · intro a b c first second
      exact ordered_iff.mpr ((ordered_iff.mp first).trans (ordered_iff.mp second))
    · intro a b
      simpa [ordered_iff] using le_total a.1 b.1
  have different : (pairs.mergeSort ordered).Pairwise fun a b => a.1 ≠ b.1 := by
    rw [← List.pairwise_map (R := (· ≠ ·))]
    exact ((List.mergeSort_perm pairs ordered).map Prod.fst).nodup_iff.mpr apart
  refine (sorted.and different).imp ?_
  rintro a b ⟨le, ne⟩
  exact lt_of_le_of_ne (ordered_iff.mp le) ne

theorem entries_of_texts {entries : List (String × Value)}
    (texts : ∀ entry ∈ entries, ∃ text, IsText entry.2 text) :
    ∃ pairs : List (String × String), entries = pairs.map entryOf := by
  induction entries with
  | nil => exact ⟨[], rfl⟩
  | cons entry rest ih =>
    obtain ⟨⟨text, isText⟩, texts⟩ := List.forall_mem_cons.mp texts
    obtain ⟨pairs, rfl⟩ := ih texts
    exact ⟨(entry.1, text) :: pairs, by rw [List.map_cons, entryOf, ← isText]⟩

/-- What is found in a table of texts are its texts in the order of their keys. -/
theorem texts_iff {entries : List (String × Value)} (apart : (entries.map Prod.fst).Nodup)
    {found : List (String × String)} : IsTexts (.table entries) found ↔
      ∃ pairs : List (String × String), entries = pairs.map entryOf ∧
        found = pairs.mergeSort ordered := by
  have own {pairs : List (String × String)} (same : entries = pairs.map entryOf) :
      (pairs.map Prod.fst).Nodup := by
    simpa [same, List.map_map, Function.comp_def, entryOf] using apart
  have members {pairs : List (String × String)} (key text : String) :
      (key, text) ∈ pairs.mergeSort ordered ↔ (key, .string text) ∈ pairs.map entryOf := by
    rw [List.mem_mergeSort]
    simp [entryOf]
  constructor
  · rintro ⟨_, same, texts, isFound, sorted⟩
    obtain rfl := Value.table.inj same
    obtain ⟨pairs, isPairs⟩ := entries_of_texts texts
    refine ⟨pairs, isPairs, ?_⟩
    -- Lists in strict order with the same members are the same.
    have irrefl : Std.Irrefl fun a b : String × String => a.1 < b.1 := ⟨fun a => lt_irrefl a.1⟩
    have antisymm : Std.Antisymm fun a b : String × String => a.1 < b.1 :=
      ⟨fun a b first second => absurd second first.asymm⟩
    refine sorted.eq_of_mem_iff (sorted_texts (own isPairs)) ?_
    rintro ⟨key, text⟩
    rw [isFound, members, isPairs]
  · rintro ⟨pairs, rfl, rfl⟩
    refine ⟨_, rfl, ?_, members, sorted_texts (own rfl)⟩
    intro entry among
    obtain ⟨pair, -, rfl⟩ := List.mem_map.mp among
    exact ⟨pair.2, rfl⟩

theorem decodes_texts : Decodes Settings.strings IsTextsOrMoment := by
  intro v sound found
  unfold IsTextsOrMoment
  cases sound with
  | @table entries apart each =>
    rw [Settings.strings, bind_eq_ok, texts_iff apart]
    simp only [read_texts_iff]
    constructor
    · rintro ⟨pairs, isPairs, same⟩
      exact .inl ⟨pairs, isPairs, (Except.ok.inj same).symm⟩
    · rintro (⟨pairs, isPairs, rfl⟩ | ⟨text, same, -⟩)
      · exact ⟨pairs, isPairs, rfl⟩
      · cases same
  | moment text =>
    rw [Settings.strings, Except.ok.injEq]
    constructor
    · rintro rfl
      exact .inr ⟨text, rfl, rfl⟩
    · rintro (⟨entries, same, -⟩ | ⟨other, same, rfl⟩)
      · cases same
      · rw [Value.moment.inj same]
  | _ => simp [Settings.strings, IsTexts]

/-! ## The order of keys in values -/

theorem respects_text : Respects IsText := by
  intro v v' reordered text
  rcases reordered.shape with ⟨_, _, rfl, rfl⟩ | ⟨_, _, rfl, rfl⟩ <;> simp [IsText]

theorem respects_natural : Respects IsNatural := by
  intro v v' reordered n
  rcases reordered.shape with ⟨_, _, rfl, rfl⟩ | ⟨_, _, rfl, rfl⟩ <;> simp [IsNatural]

theorem isList_array {item : Value → α → Prop} {items : List Value} {xs : List α} :
    IsList item (.array items) xs ↔ List.Forall₂ item items xs := by
  simp [IsList]

theorem respects_list {item : Value → α → Prop} (each : Respects item) : Respects (IsList item) := by
  intro v v' reordered xs
  induction reordered generalizing xs with
  | keys | entry => simp [IsList]
  | @item before after v v' inside =>
    rw [isList_array, isList_array]
    induction before generalizing xs with
    | nil => simp only [List.nil_append, List.forall₂_cons_left_iff, each _ _ inside]
    | cons first rest ih => simp only [List.cons_append, List.forall₂_cons_left_iff, ih]
  | trans first second ihFirst ihSecond => exact (ihFirst xs).trans (ihSecond xs)

theorem not_texts {before after : List (String × Value)} {key : String} {v : Value}
    {pairs : List (String × String)} (noText : ∀ text, v ≠ .string text) :
    ¬ IsTextsOrMoment (.table (before ++ (key, v) :: after)) pairs := by
  rintro (⟨entries, same, texts, -⟩ | ⟨text, same, -⟩)
  · obtain ⟨text, isText⟩ := texts (key, v) (Value.table.inj same ▸ by simp)
    exact noText text isText
  · cases same

theorem respects_texts : Respects IsTextsOrMoment := by
  intro v v' reordered pairs
  induction reordered with
  | keys same => simp [IsTextsOrMoment, IsTexts, same.mem_iff]
  | entry inside =>
    rcases inside.shape with ⟨_, _, rfl, rfl⟩ | ⟨_, _, rfl, rfl⟩ <;>
      exact iff_of_false (not_texts (by simp)) (not_texts (by simp))
  | item inside => simp [IsTextsOrMoment, IsTexts]
  | trans first second ihFirst ihSecond => exact ihFirst.trans ihSecond

theorem respects_optional {name : String} {get : σ → Option α} {kind : Value → α → Prop}
    (respects : Respects kind) : Respects (optional name get kind).means := by
  intro v v' reordered content
  simp only [optional, respects v v' reordered]

/-! ## Fields and their slots -/

section Fields

variable {slots : List (Slot σ)}

/-- A field that puts what it reads into settings fits the slot of its name. -/
theorem fits_of_decodes (slot : Slot σ) {decode : Value → Decoded α} {means : Value → α → Prop}
    {put : σ → α → σ} (content : α → slot.Content) (decodes : Decodes decode means)
    (isMeans : ∀ v c, slot.means v c ↔ ∃ x, c = content x ∧ means v x)
    (takes : ∀ {v}, Sound v → (slot.takes v ↔ ∃ x, means v x))
    (get_put : ∀ s x, slot.get (put s x) = content x)
    (others : ∀ other ∈ slots, other.name ≠ slot.name → ∀ s x, other.get (put s x) = other.get s) :
    Fits slots ⟨slot.name, fun s v => return put s (← decode v), slot.mayBeMissing⟩ slot := by
  constructor
  case name => rfl
  case mayBeMissing => rfl
  case reads =>
    intro s v s' sound read
    obtain ⟨x, found, same⟩ := bind_eq_ok.mp read
    obtain rfl := Except.ok.inj same
    exact (isMeans v _).mpr ⟨x, get_put s x, (decodes v sound x).mp found⟩
  case finds =>
    intro s v c sound held
    obtain ⟨x, rfl, isMeant⟩ := (isMeans v c).mp held
    exact ⟨put s x, bind_eq_ok.mpr ⟨x, (decodes v sound x).mpr isMeant, rfl⟩, get_put s x⟩
  case others =>
    intro s v s' read other among apart
    obtain ⟨x, -, same⟩ := bind_eq_ok.mp read
    obtain rfl := Except.ok.inj same
    exact others other among apart s x
  case takes =>
    intro v sound
    rw [takes sound]
    constructor
    · rintro ⟨x, held⟩
      exact ⟨content x, (isMeans v _).mpr ⟨x, rfl, held⟩⟩
    · rintro ⟨c, held⟩
      obtain ⟨x, -, isMeant⟩ := (isMeans v c).mp held
      exact ⟨x, isMeant⟩

theorem fits_optional {name : String} {get : σ → Option α} {kind : Value → α → Prop}
    {decode : Value → Decoded α} {put : σ → α → σ} (decodes : Decodes decode kind)
    (get_put : ∀ s x, get (put s x) = some x)
    (others : ∀ other ∈ slots, other.name ≠ name → ∀ s x, other.get (put s x) = other.get s) :
    Fits slots ⟨name, fun s v => return put s (← decode v), false⟩ (optional name get kind) :=
  fits_of_decodes (optional name get kind) some decodes (fun _ _ => Iff.rfl)
    (fun _ => Iff.rfl) get_put others

theorem fits_orEmpty {name : String} {get : σ → List α} {kind : Value → List α → Prop}
    {decode : Value → Decoded (List α)} {put : σ → List α → σ} (decodes : Decodes decode kind)
    (get_put : ∀ s x, get (put s x) = x)
    (others : ∀ other ∈ slots, other.name ≠ name → ∀ s x, other.get (put s x) = other.get s) :
    Fits slots ⟨name, fun s v => return put s (← decode v), true⟩ (orEmpty name get kind) :=
  fits_of_decodes (orEmpty name get kind) id decodes (by simp [orEmpty])
    (fun _ => Iff.rfl) get_put others

theorem fits_part {name : String} {get : σ → τ} {blank : τ} {own : List (Slot τ)}
    {fields : List (Settings.Field τ)} {put : σ → τ → σ} (form : Form fields own blank)
    (get_put : ∀ s x, get (put s x) = x)
    (others : ∀ other ∈ slots, other.name ≠ name → ∀ s x, other.get (put s x) = other.get s) :
    Fits slots ⟨name, fun s v => return put s (← readSection fields blank v), false⟩
      (part name get blank own) :=
  fits_of_decodes (part name get blank own) id (fun _ sound _ => form.section_iff sound)
    (by simp [part]) form.conforms_iff get_put others

end Fields

theorem tools_form : Form toolFields toolSlots {} := by
  constructor
  case fits =>
    repeat refine .cons (fits_optional decodes_text (fun _ _ => rfl) (by simp [toolSlots, optional])) ?_
    exact .nil
  case names => decide
  case blank => simp [toolSlots, optional]
  case ext =>
    intro s s' same
    cases s
    cases s'
    simp_all [toolSlots, optional]

theorem timeouts_form : Form timeoutFields timeoutSlots {} := by
  constructor
  case fits =>
    repeat refine .cons (fits_optional decodes_natural (fun _ _ => rfl) (by simp [timeoutSlots, optional])) ?_
    exact .nil
  case names => decide
  case blank => simp [timeoutSlots, optional]
  case ext =>
    intro s s' same
    cases s
    cases s'
    simp_all [timeoutSlots, optional]

theorem limits_form : Form limitFields limitSlots {} := by
  constructor
  case fits =>
    refine .cons (fits_optional decodes_natural (fun _ _ => rfl) (by simp [limitSlots, optional])) ?_
    exact .nil
  case names => decide
  case blank => simp [limitSlots, optional]
  case ext =>
    intro s s' same
    cases s
    cases s'
    simp_all [limitSlots, optional]

theorem compiler_form : Form compilerFields compilerSlots {} := by
  constructor
  case fits =>
    refine .cons (fits_optional decodes_text.list.list (fun _ _ => rfl) (by simp [compilerSlots, optional, orEmpty])) ?_
    refine .cons (fits_orEmpty decodes_text.list (fun _ _ => rfl) (by simp [compilerSlots, optional, orEmpty])) ?_
    exact .nil
  case names => decide
  case blank => simp [compilerSlots, optional, orEmpty]
  case ext =>
    intro s s' same
    cases s
    cases s'
    simp_all [compilerSlots, optional, orEmpty]

theorem analysis_form : Form analysisFields analysisSlots {} := by
  constructor
  case fits =>
    refine .cons (fits_optional decodes_text.list (fun _ _ => rfl) (by simp [analysisSlots, optional])) ?_
    repeat refine .cons (fits_optional decodes_text (fun _ _ => rfl) (by simp [analysisSlots, optional])) ?_
    exact .nil
  case names => decide
  case blank => simp [analysisSlots, optional]
  case ext =>
    intro s s' same
    cases s
    cases s'
    simp_all [analysisSlots, optional]

theorem search_form : Form searchFields (searchSlots IsTextsOrMoment) {} := by
  constructor
  case fits =>
    refine .cons (fits_optional decodes_text.list (fun _ _ => rfl) (by simp [searchSlots, optional])) ?_
    refine .cons (fits_optional decodes_texts (fun _ _ => rfl) (by simp [searchSlots, optional])) ?_
    exact .nil
  case names => decide
  case blank => simp [searchSlots, optional]
  case ext =>
    intro s s' same
    cases s
    cases s'
    simp_all [searchSlots, optional]

theorem settings_form : Form sections (settingsSlots IsTextsOrMoment) {} := by
  constructor
  case fits =>
    refine .cons (fits_part tools_form (fun _ _ => rfl) (by simp [settingsSlots, part])) ?_
    refine .cons (fits_part timeouts_form (fun _ _ => rfl) (by simp [settingsSlots, part])) ?_
    refine .cons (fits_part limits_form (fun _ _ => rfl) (by simp [settingsSlots, part])) ?_
    refine .cons (fits_part compiler_form (fun _ _ => rfl) (by simp [settingsSlots, part])) ?_
    refine .cons (fits_part analysis_form (fun _ _ => rfl) (by simp [settingsSlots, part])) ?_
    refine .cons (fits_part search_form (fun _ _ => rfl) (by simp [settingsSlots, part])) ?_
    exact .nil
  case names => decide
  case blank => simp [settingsSlots, part]
  case ext =>
    intro s s' same
    cases s
    cases s'
    simp_all [settingsSlots, part]

/-! ## Files -/

/-- The keys of each section in their declared order. -/
def sectionKeys : List (String × List String) := [
  ("tools", toolSlots.map Slot.name),
  ("timeouts", timeoutSlots.map Slot.name),
  ("limits", limitSlots.map Slot.name),
  ("compiler", compilerSlots.map Slot.name),
  ("analysis", analysisSlots.map Slot.name),
  ("search", (searchSlots IsTextsOrMoment).map Slot.name)]

theorem part_complete {name : String} {get : Settings → τ} {blank : τ} {own : List (Slot τ)}
    {fields : List (Settings.Field τ)} {values : List Value} (form : Form fields own blank)
    (inside : part name get blank own ∈ settingsSlots IsTextsOrMoment)
    (full : values.length = (own.map Slot.name).length) :
    ∀ slot ∈ settingsSlots IsTextsOrMoment, slot.name = name → ∀ x,
      slot.means (.array values) x ↔ slot.means (.table ((own.map Slot.name).zip values)) x := by
  intro slot among same x
  obtain rfl := settings_form.slot_eq among inside same
  exact form.complete (by simpa using full)

theorem section_complete {name : String} {keys : List String} {values : List Value}
    (among : (name, keys) ∈ sectionKeys) (full : values.length = keys.length) :
    ∀ slot ∈ settingsSlots IsTextsOrMoment, slot.name = name → ∀ x,
      slot.means (.array values) x ↔ slot.means (.table (keys.zip values)) x := by
  simp only [sectionKeys, List.mem_cons, Prod.mk.injEq, List.not_mem_nil, or_false] at among
  rcases among with ⟨rfl, rfl⟩ | ⟨rfl, rfl⟩ | ⟨rfl, rfl⟩ | ⟨rfl, rfl⟩ | ⟨rfl, rfl⟩ | ⟨rfl, rfl⟩
  · exact part_complete tools_form (List.mem_of_getElem? (i := 0) rfl) full
  · exact part_complete timeouts_form (List.mem_of_getElem? (i := 1) rfl) full
  · exact part_complete limits_form (List.mem_of_getElem? (i := 2) rfl) full
  · exact part_complete compiler_form (List.mem_of_getElem? (i := 3) rfl) full
  · exact part_complete analysis_form (List.mem_of_getElem? (i := 4) rfl) full
  · exact part_complete search_form (List.mem_of_getElem? (i := 5) rfl) full

theorem settings_respect : Respects (Section (settingsSlots IsTextsOrMoment)) := by
  have text {τ : Type} {name : String} {get : τ → Option String} :
      Respects (optional name get IsText).means := respects_optional respects_text
  have natural {τ : Type} {name : String} {get : τ → Option Nat} :
      Respects (optional name get IsNatural).means := respects_optional respects_natural
  have texts := respects_list respects_text
  have tools : Respects (Section toolSlots) := section_respects (by simp [toolSlots, text])
  have timeouts : Respects (Section timeoutSlots) := section_respects (by simp [timeoutSlots, natural])
  have limits : Respects (Section limitSlots) := section_respects (by simp [limitSlots, natural])
  have compiler : Respects (Section compilerSlots) := by
    apply section_respects
    simp only [compilerSlots, List.forall_mem_cons]
    exact ⟨respects_optional (respects_list texts), texts, by simp⟩
  have analysis : Respects (Section analysisSlots) := by
    apply section_respects
    simp only [analysisSlots, List.forall_mem_cons]
    exact ⟨respects_optional texts, text, text, text, by simp⟩
  have search : Respects (Section (searchSlots IsTextsOrMoment)) := by
    apply section_respects
    simp only [searchSlots, List.forall_mem_cons]
    exact ⟨respects_optional texts, respects_optional respects_texts, by simp⟩
  apply section_respects
  simp only [settingsSlots, List.forall_mem_cons]
  exact ⟨tools, timeouts, limits, compiler, analysis, search, by simp⟩

/-- Whether a file holds a TOML document with the entries given. -/
def Document (host : Host σ) (s : σ) (path : Path) (entries : List (String × Value)) : Prop :=
  ∃ content text, ((Program.read path).run host s).1 = .ok content ∧
    Text.decode? content = some text ∧ parse? text = some entries

section Files

variable {host : Host σ} {s : σ} {path : Path} {entries : List (String × Value)}

theorem load_document (holds : Document host s path entries) :
    (exec host s (Settings.load path)).1 = (ofEntries entries).mapError (ConfigError.parse path) := by
  obtain ⟨content, text, isRead, decoded, parsed⟩ := holds
  unfold Settings.load
  rw [exec_bind, exec_orFail, isRead]
  simp only [mapError_ok, decoded, Settings.ofText, parsed]
  cases ofEntries entries <;> rfl

theorem sound_of_document (holds : Document host s path entries) : Sound (.table entries) := by
  obtain ⟨content, text, -, -, parsed⟩ := holds
  exact sound_of_parse parsed

theorem load_iff (holds : Document host s path entries) {found : Settings} :
    (exec host s (Settings.load path)).1 = .ok found ↔
      Table (settingsSlots IsTextsOrMoment) entries found := by
  rw [load_document holds, ← settings_form.table_iff (sound_of_document holds)]
  change (ofEntries entries).mapError _ = _ ↔ ofEntries entries = _
  cases ofEntries entries <;> simp [mapError_ok, mapError_error]

end Files

/-- A host with a section as an array in one file, and as a table in all others. -/
def twoForms : Host Unit
  | .file (.read path), s => (Except.ok (utf8 (if path = "a.toml" then "timeouts = [3, 4]\n"
      else "[timeouts]\ncompile-secs = 3\nanalysis-secs = 4\n")), s)
  | r, s => VariantKeys.still [] r s

end BugHunt.Proofs.SettingsFormat
