import BugHunt.Settings.Decode
import BugHunt.Proofs.TomlTables
import Mathlib.Data.List.Forall2
import Mathlib.Data.List.Nodup
/-!
What a section of settings may look like, as a table or as an array, and that reading one finds just
what it holds. The order of the keys of a table plays no part in it.
-/

namespace BugHunt.Proofs.SettingsForms
open Settings Toml TomlTables

variable {σ : Type}

/-- A place for a value in settings: the key it has, which values go with which content, which values
are of the declared type, and whether the value may be missing from an array. -/
structure Slot (σ : Type) where
  name : String
  Content : Type
  get : σ → Content
  unset : Content
  means : Value → Content → Prop
  takes : Value → Prop
  mayBeMissing : Bool := false

/-- Whether settings hold what a table gives, and nothing else. -/
structure Table (slots : List (Slot σ)) (entries : List (String × Value)) (s : σ) : Prop where
  known : ∀ entry ∈ entries, ∃ slot ∈ slots, slot.name = entry.1
  given : ∀ slot ∈ slots, ∀ v, (slot.name, v) ∈ entries → slot.means v (slot.get s)
  unset : ∀ slot ∈ slots, (∀ v, (slot.name, v) ∉ entries) → slot.get s = slot.unset

/-- Whether settings hold what an array gives in the order of the slots, and nothing else. -/
structure InOrder (slots : List (Slot σ)) (values : List Value) (s : σ) : Prop where
  given : ∀ (i : Nat) (slot : Slot σ) v, slots[i]? = some slot → values[i]? = some v → slot.means v (slot.get s)
  missing : ∀ (i : Nat) (slot : Slot σ), slots[i]? = some slot → values[i]? = none →
    slot.mayBeMissing ∧ slot.get s = slot.unset

/-- Whether settings hold what a section gives. -/
def Section (slots : List (Slot σ)) : Value → σ → Prop
  | .table entries, s => Table slots entries s
  | .array values, s => InOrder slots values s
  | _, _ => False

/-- Whether a section is a table of known keys or an array in the order of the slots, with values of
the declared types. -/
def Conforms (slots : List (Slot σ)) : Value → Prop
  | .table entries => ∀ entry ∈ entries, ∃ slot ∈ slots, slot.name = entry.1 ∧ slot.takes entry.2
  | .array values => ∀ (i : Nat) (slot : Slot σ), slots[i]? = some slot →
      (∃ v, values[i]? = some v ∧ slot.takes v) ∨ values[i]? = none ∧ slot.mayBeMissing
  | _ => False

/-! ## Fields that read what slots hold -/

theorem bind_eq_ok {α β ε : Type} {first : Except ε α} {next : α → Except ε β} {y : β} :
    (first >>= next) = .ok y ↔ ∃ x, first = .ok x ∧ next x = .ok y := by
  cases first <;> simp [bind, Except.bind]

/-- Whether a field reads what a slot is to hold, and leaves the other slots alone. -/
structure Fits (slots : List (Slot σ)) (field : Settings.Field σ) (slot : Slot σ) : Prop where
  name : field.name = slot.name
  mayBeMissing : field.mayBeMissing = slot.mayBeMissing
  reads : ∀ {s v s'}, Sound v → field.read s v = .ok s' → slot.means v (slot.get s')
  finds : ∀ s {v x}, Sound v → slot.means v x → ∃ s', field.read s v = .ok s' ∧ slot.get s' = x
  others : ∀ {s v s'}, field.read s v = .ok s' →
    ∀ other ∈ slots, other.name ≠ slot.name → other.get s' = other.get s
  takes : ∀ {v}, Sound v → (slot.takes v ↔ ∃ x, slot.means v x)

/-- Whether fields read what slots are to hold, where `start` holds nothing. -/
structure Form (fields : List (Settings.Field σ)) (slots : List (Slot σ)) (start : σ) : Prop where
  fits : List.Forall₂ (Fits slots) fields slots
  names : (slots.map Slot.name).Nodup
  blank : ∀ slot ∈ slots, slot.get start = slot.unset
  ext : ∀ s s', (∀ slot ∈ slots, slot.get s = slot.get s') → s = s'

section Forms

variable {fields : List (Settings.Field σ)} {slots : List (Slot σ)} {start s s' : σ} {slot : Slot σ}
  {entries : List (String × Value)} {values : List Value} {v : Value}

/-- What is looked for by name is found with its slot. -/
theorem find_of_fits {some' : List (Slot σ)} (fits : List.Forall₂ (Fits slots) fields some')
    (key : String) :
    (∃ field slot, fields.find? (fun field => field.name = key) = some field ∧ slot ∈ some' ∧
      slot.name = key ∧ Fits slots field slot) ∨
    fields.find? (fun field => field.name = key) = none ∧ ∀ slot ∈ some', slot.name ≠ key := by
  induction fits with
  | nil => simp
  | @cons field slot fields some' fits rest ih =>
    by_cases same : field.name = key
    · refine .inl ⟨field, slot, by simp [same], List.mem_cons_self, fits.name ▸ same, fits⟩
    · have other : slot.name ≠ key := fits.name ▸ same
      rw [List.find?_cons_of_neg (by simpa using same)]
      rcases ih with ⟨found, own, isFound, among, isOwn, fits⟩ | ⟨notFound, unknown⟩
      · exact .inl ⟨found, own, isFound, List.mem_cons_of_mem _ among, isOwn, fits⟩
      · exact .inr ⟨notFound, List.forall_mem_cons.mpr ⟨other, unknown⟩⟩

theorem Form.slot_eq (form : Form fields slots start) {other : Slot σ} (among : slot ∈ slots)
    (among' : other ∈ slots) (same : slot.name = other.name) : slot = other :=
  List.inj_on_of_nodup_map form.names among among' same

/-- The field for a key, if that is the key of a slot. -/
theorem Form.find (form : Form fields slots start) (among : slot ∈ slots) :
    ∃ field, fields.find? (fun field => field.name = slot.name) = some field ∧
      Fits slots field slot := by
  rcases find_of_fits form.fits slot.name with ⟨field, own, found, among', same, fits⟩ | ⟨-, unknown⟩
  · obtain rfl := form.slot_eq among' among same
    exact ⟨field, found, fits⟩
  · exact absurd rfl (unknown slot among)

/-- What one key of a table that is read does to settings. -/
theorem Form.entry_ok (form : Form fields slots start) {key : String} (sound : Sound v)
    (read : readEntry fields s (key, v) = .ok s') : ∃ slot ∈ slots, slot.name = key ∧
      slot.means v (slot.get s') ∧ ∀ other ∈ slots, other.name ≠ key → other.get s' = other.get s := by
  unfold readEntry at read
  rcases find_of_fits form.fits key with ⟨field, slot, found, among, rfl, fits⟩ | ⟨notFound, -⟩
  · simp only [found] at read
    exact ⟨slot, among, rfl, fits.reads sound read, fits.others read⟩
  · simp only [notFound] at read
    cases read

theorem Form.entry_finds (form : Form fields slots start) (among : slot ∈ slots) (sound : Sound v)
    {x : slot.Content} (means : slot.means v x) (s : σ) :
    ∃ s', readEntry fields s (slot.name, v) = .ok s' ∧ slot.get s' = x := by
  obtain ⟨field, found, fits⟩ := form.find among
  unfold readEntry
  simp only [found]
  exact fits.finds s sound means

/-! ## Tables -/

/-- What the rest of a table does to settings. -/
structure Filled (slots : List (Slot σ)) (entries : List (String × Value)) (s s' : σ) : Prop where
  known : ∀ entry ∈ entries, ∃ slot ∈ slots, slot.name = entry.1
  given : ∀ slot ∈ slots, ∀ v, (slot.name, v) ∈ entries → slot.means v (slot.get s')
  kept : ∀ slot ∈ slots, (∀ v, (slot.name, v) ∉ entries) → slot.get s' = slot.get s

theorem Form.fold_iff (form : Form fields slots start) (apart : (entries.map Prod.fst).Nodup)
    (sound : ∀ entry ∈ entries, Sound entry.2) :
    entries.foldlM (readEntry fields) s = .ok s' ↔ Filled slots entries s s' := by
  induction entries generalizing s with
  | nil =>
    constructor
    · intro read
      obtain rfl := Except.ok.inj read
      exact ⟨by simp, by simp, fun _ _ _ => rfl⟩
    · intro filled
      exact congrArg Except.ok (form.ext _ _ fun slot among => (filled.kept slot among (by simp)).symm)
  | cons entry rest ih =>
    obtain ⟨key, v⟩ := entry
    rw [List.map_cons, List.nodup_cons] at apart
    rw [List.forall_mem_cons] at sound
    -- No later entry has the key of the first one, so what that sets stays.
    have once (w : Value) : (key, w) ∉ rest := fun among =>
      apart.1 (List.mem_map.mpr ⟨_, among, rfl⟩)
    rw [List.foldlM_cons, bind_eq_ok]
    constructor
    · rintro ⟨t, begun, read⟩
      have filled := (ih apart.2 sound.2).mp read
      obtain ⟨slot, among, rfl, means, others⟩ := form.entry_ok sound.1 begun
      refine ⟨List.forall_mem_cons.mpr ⟨⟨slot, among, rfl⟩, filled.known⟩, ?_, ?_⟩
      · intro other among' w given
        rcases List.mem_cons.mp given with first | later
        · obtain ⟨same, rfl⟩ := Prod.mk.inj first
          obtain rfl := form.slot_eq among' among same
          rwa [filled.kept other among' once]
        · exact filled.given other among' w later
      · intro other among' absent
        simp only [List.mem_cons, not_or] at absent
        have different : other.name ≠ slot.name := fun same => (absent v).1 (by rw [same])
        rw [filled.kept other among' fun w => (absent w).2, others other among' different]
    · intro filled
      obtain ⟨slot, among, rfl⟩ := filled.known (key, v) List.mem_cons_self
      have means := filled.given slot among v List.mem_cons_self
      obtain ⟨t, read, found⟩ := form.entry_finds among sound.1 means s
      obtain ⟨own, -, isOwn, -, others⟩ := form.entry_ok sound.1 read
      refine ⟨t, read, (ih apart.2 sound.2).mpr ⟨(List.forall_mem_cons.mp filled.known).2, ?_, ?_⟩⟩
      · intro other among' w given
        exact filled.given other among' w (List.mem_cons_of_mem _ given)
      · intro other among' absent
        by_cases same : other.name = slot.name
        · obtain rfl := form.slot_eq among' among same
          exact found.symm
        · rw [others other among' same, filled.kept other among']
          intro w given
          rcases List.mem_cons.mp given with first | later
          · exact same (Prod.mk.inj first).1
          · exact absent w later

/-- A table is read as settings that hold what it gives. -/
theorem Form.table_iff (form : Form fields slots start) (sound : Sound (.table entries)) :
    entries.foldlM (readEntry fields) start = .ok s ↔ Table slots entries s := by
  cases sound with
  | table apart each =>
    rw [form.fold_iff apart each]
    constructor
    · intro filled
      refine ⟨filled.known, filled.given, fun slot among absent => ?_⟩
      rw [filled.kept slot among absent, form.blank slot among]
    · intro table
      refine ⟨table.known, table.given, fun slot among absent => ?_⟩
      rw [table.unset slot among absent, form.blank slot among]

/-- A table of known keys with values of the declared types is read. -/
theorem Form.table_reads (form : Form fields slots start) (sound : ∀ entry ∈ entries, Sound entry.2)
    (conforms : Conforms slots (.table entries)) (s : σ) :
    ∃ s', entries.foldlM (readEntry fields) s = .ok s' := by
  induction entries generalizing s with
  | nil => exact ⟨s, rfl⟩
  | cons entry rest ih =>
    obtain ⟨key, v⟩ := entry
    rw [Conforms, List.forall_mem_cons] at conforms
    obtain ⟨⟨slot, among, rfl, takes⟩, conforms⟩ := conforms
    rw [List.forall_mem_cons] at sound
    obtain ⟨field, -, fits⟩ := form.find among
    obtain ⟨x, means⟩ := (fits.takes sound.1).mp takes
    obtain ⟨t, read, -⟩ := form.entry_finds among sound.1 means s
    rw [List.foldlM_cons, read]
    exact ih sound.2 conforms t

/-! ## Arrays -/

/-- What the rest of an array does to settings, where the slots before it have been dealt with. -/
structure Follows (slots : List (Slot σ)) (left : List (Slot σ)) (values : List Value) (s s' : σ) :
    Prop where
  given : ∀ (i : Nat) (slot : Slot σ) v, left[i]? = some slot → values[i]? = some v →
    slot.means v (slot.get s')
  missing : ∀ (i : Nat) (slot : Slot σ), left[i]? = some slot → values[i]? = none →
    slot.mayBeMissing ∧ slot.get s' = slot.get s
  kept : ∀ slot ∈ slots, slot.name ∉ left.map Slot.name → slot.get s' = slot.get s

theorem follows_nil : Follows slots [] values s s' ↔ ∀ slot ∈ slots, slot.get s' = slot.get s := by
  constructor
  · intro follows slot among
    exact follows.kept slot among (by simp)
  · intro same
    exact ⟨by simp, by simp, fun slot among _ => same slot among⟩

variable {left : List (Slot σ)}

theorem Form.follows_missing (form : Form fields slots start) (among : slot ∈ slots)
    (fresh : slot.name ∉ left.map Slot.name) :
    Follows slots (slot :: left) [] s s' ↔ slot.mayBeMissing ∧ Follows slots left [] s s' := by
  constructor
  · intro follows
    obtain ⟨mayBeMissing, same⟩ := follows.missing 0 slot rfl rfl
    refine ⟨mayBeMissing, by simp, fun i own isOwn _ => follows.missing (i + 1) own isOwn rfl, ?_⟩
    intro other among' apart
    by_cases is : other.name = slot.name
    · obtain rfl := form.slot_eq among' among is
      exact same
    · exact follows.kept other among' (by simp [is, apart])
  · rintro ⟨mayBeMissing, follows⟩
    refine ⟨by simp, ?_, ?_⟩
    · intro i own isOwn _
      cases i with
      | zero =>
        obtain rfl := Option.some.inj isOwn
        exact ⟨mayBeMissing, follows.kept slot among fresh⟩
      | succ i => exact follows.missing i own isOwn rfl
    · intro other among' apart
      rw [List.map_cons, List.mem_cons, not_or] at apart
      exact follows.kept other among' apart.2

/-- After the value of the first slot has been read, the others follow. -/
theorem Form.follows_value (form : Form fields slots start) (among : slot ∈ slots)
    (fresh : slot.name ∉ left.map Slot.name) (inside : left ⊆ slots) {t : σ}
    (others : ∀ other ∈ slots, other.name ≠ slot.name → other.get t = other.get s) :
    Follows slots left values t s' ∧ slot.means v (slot.get s') ∧ slot.get s' = slot.get t ↔
      Follows slots (slot :: left) (v :: values) s s' ∧ slot.get s' = slot.get t := by
  have apart {i : Nat} {own : Slot σ} (isOwn : left[i]? = some own) : own.name ≠ slot.name := by
    intro same
    exact fresh (same ▸ List.mem_map_of_mem (List.mem_of_getElem? isOwn))
  constructor
  · rintro ⟨follows, means, same⟩
    refine ⟨⟨?_, ?_, ?_⟩, same⟩
    · intro i own w isOwn isValue
      cases i with
      | zero =>
        obtain rfl := Option.some.inj isOwn
        obtain rfl := Option.some.inj isValue
        exact means
      | succ i => exact follows.given i own w isOwn isValue
    · intro i own isOwn absent
      cases i with
      | zero => cases absent
      | succ i =>
        have isOwn : left[i]? = some own := isOwn
        obtain ⟨mayBeMissing, kept⟩ := follows.missing i own isOwn absent
        refine ⟨mayBeMissing, ?_⟩
        rw [kept, others own (inside (List.mem_of_getElem? isOwn)) (apart isOwn)]
    · intro other among' absent
      rw [List.map_cons, List.mem_cons, not_or] at absent
      rw [follows.kept other among' absent.2, others other among' absent.1]
  · rintro ⟨follows, same⟩
    refine ⟨⟨fun i own w isOwn isValue => follows.given (i + 1) own w isOwn isValue, ?_, ?_⟩,
      follows.given 0 slot v rfl rfl, same⟩
    · intro i own isOwn absent
      obtain ⟨mayBeMissing, kept⟩ := follows.missing (i + 1) own isOwn absent
      refine ⟨mayBeMissing, ?_⟩
      rw [kept, others own (inside (List.mem_of_getElem? isOwn)) (apart isOwn)]
    · intro other among' absent
      by_cases is : other.name = slot.name
      · obtain rfl := form.slot_eq among' among is
        exact same
      · rw [follows.kept other among' (by simp [is, absent]), others other among' is]

theorem Form.readInOrder_iff (form : Form fields slots start) {fields' : List (Settings.Field σ)}
    (fits : List.Forall₂ (Fits slots) fields' left) (names : (left.map Slot.name).Nodup)
    (inside : left ⊆ slots) (sound : ∀ v ∈ values, Sound v) :
    readInOrder s fields' values = .ok s' ↔ Follows slots left values s s' := by
  induction fits generalizing s values with
  | nil =>
    rw [follows_nil, readInOrder, Except.ok.injEq]
    constructor
    · rintro rfl slot among
      rfl
    · intro same
      exact form.ext _ _ fun slot among => (same slot among).symm
  | @cons field slot fields' left fits rest ih =>
    rw [List.map_cons, List.nodup_cons] at names
    obtain ⟨among, inside⟩ := List.cons_subset.mp inside
    cases values with
    | nil =>
      rw [readInOrder, form.follows_missing among names.1, fits.mayBeMissing]
      split
      · rename_i mayBeMissing
        rw [ih names.2 inside sound]
        simp [mayBeMissing]
      · rename_i needed
        simp [needed]
    | cons v values =>
      rw [List.forall_mem_cons] at sound
      rw [readInOrder, bind_eq_ok]
      constructor
      · rintro ⟨t, begun, read⟩
        have follows := (ih names.2 inside sound.2).mp read
        have same := follows.kept slot among names.1
        have means := fits.reads sound.1 begun
        exact ((form.follows_value among names.1 inside (fits.others begun)).mp
          ⟨follows, same ▸ means, same⟩).1
      · intro follows
        obtain ⟨t, begun, found⟩ := fits.finds s sound.1 (follows.given 0 slot v rfl rfl)
        exact ⟨t, begun, (ih names.2 inside sound.2).mpr ((form.follows_value among names.1 inside
          (fits.others begun)).mpr ⟨follows, found.symm⟩).1⟩

/-- An array is read as settings that hold what it gives in the order of the slots. -/
theorem Form.array_iff (form : Form fields slots start) (sound : Sound (.array values)) :
    readInOrder start fields values = .ok s ↔ InOrder slots values s := by
  cases sound with
  | array each =>
    rw [form.readInOrder_iff form.fits form.names (List.Subset.refl _) each]
    have blank {i : Nat} {slot : Slot σ} (isSlot : slots[i]? = some slot) :
        slot.get start = slot.unset := form.blank slot (List.mem_of_getElem? isSlot)
    constructor
    · intro follows
      refine ⟨follows.given, fun i slot isSlot absent => ?_⟩
      rw [← blank isSlot]
      exact follows.missing i slot isSlot absent
    · intro inOrder
      refine ⟨inOrder.given, fun i slot isSlot absent => ?_, ?_⟩
      · rw [blank isSlot]
        exact inOrder.missing i slot isSlot absent
      · intro slot among apart
        exact absurd (List.mem_map_of_mem among) apart

/-- An array of values of the declared types is read. -/
theorem array_reads {fields' : List (Settings.Field σ)} (fits : List.Forall₂ (Fits slots) fields' left)
    (sound : ∀ v ∈ values, Sound v) (conforms : Conforms left (.array values)) (s : σ) :
    ∃ s', readInOrder s fields' values = .ok s' := by
  induction fits generalizing s values with
  | nil => exact ⟨s, rfl⟩
  | @cons field slot fields' left fits rest ih =>
    have more : Conforms left (.array values.tail) := by
      intro i own isOwn
      simpa using conforms (i + 1) own isOwn
    cases values with
    | nil =>
      rcases conforms 0 slot rfl with ⟨v, isValue, -⟩ | ⟨-, mayBeMissing⟩
      · cases isValue
      · rw [readInOrder, if_pos (fits.mayBeMissing.trans mayBeMissing)]
        exact ih sound more s
    | cons v values =>
      rw [List.forall_mem_cons] at sound
      rcases conforms 0 slot rfl with ⟨w, isValue, takes⟩ | ⟨absent, -⟩
      · obtain rfl := Option.some.inj isValue
        obtain ⟨x, means⟩ := (fits.takes sound.1).mp takes
        obtain ⟨t, begun, -⟩ := fits.finds s sound.1 means
        rw [readInOrder, begun]
        exact ih sound.2 more t
      · cases absent

/-! ## Sections -/

/-- A section is read as settings that hold what it gives. -/
theorem Form.section_iff (form : Form fields slots start) (sound : Sound v) :
    readSection fields start v = .ok s ↔ Section slots v s := by
  cases v with
  | table entries => exact form.table_iff sound
  | array values => exact form.array_iff sound
  | _ => simp [readSection, Section]

/-- A section can be read if and only if it conforms. -/
theorem Form.conforms_iff (form : Form fields slots start) (sound : Sound v) :
    Conforms slots v ↔ ∃ s, Section slots v s := by
  have fitting {slot : Slot σ} (among : slot ∈ slots) : ∃ field, Fits slots field slot := by
    obtain ⟨field, -, fits⟩ := form.find among
    exact ⟨field, fits⟩
  constructor
  · intro conforms
    simp only [← form.section_iff sound]
    cases sound with
    | table apart each => exact form.table_reads each conforms start
    | array each => exact array_reads form.fits each conforms start
    | _ => exact conforms.elim
  · rintro ⟨s, held⟩
    cases sound with
    | @table entries apart each =>
      intro entry among
      obtain ⟨slot, isSlot, same⟩ := held.known entry among
      obtain ⟨field, fits⟩ := fitting isSlot
      have means := held.given slot isSlot entry.2 (same ▸ among)
      exact ⟨slot, isSlot, same, (fits.takes (each entry among)).mpr ⟨_, means⟩⟩
    | @array values each =>
      intro i slot isSlot
      obtain ⟨field, fits⟩ := fitting (List.mem_of_getElem? isSlot)
      cases isValue : values[i]? with
      | none => exact .inr ⟨rfl, (held.missing i slot isSlot isValue).1⟩
      | some v =>
        have means := held.given i slot v isSlot isValue
        exact .inl ⟨v, rfl, (fits.takes (each v (List.mem_of_getElem? isValue))).mpr ⟨_, means⟩⟩
    | _ => exact held.elim

/-- The table of the values of an array gives each slot the value that stands in its place. -/
theorem Form.mem_zip (form : Form fields slots start) {i : Nat} (isSlot : slots[i]? = some slot) :
    (slot.name, v) ∈ (slots.map Slot.name).zip values ↔ values[i]? = some v := by
  rw [List.mem_iff_getElem?]
  simp only [List.getElem?_zip_eq_some, List.getElem?_map, Option.map_eq_some_iff]
  constructor
  · rintro ⟨j, ⟨other, isOther, same⟩, isValue⟩
    obtain rfl : i = j := by
      have small := (List.getElem?_eq_some_iff.mp isSlot).1
      exact (List.getElem?_inj (by simpa using small) form.names).mp (by simp [isSlot, isOther, same])
    exact isValue
  · intro isValue
    exact ⟨i, ⟨slot, isSlot, rfl⟩, isValue⟩

/-- An array that is complete holds what the table of its values holds. -/
theorem Form.complete (form : Form fields slots start) (full : values.length = slots.length) :
    Section slots (.array values) s ↔
      Section slots (.table ((slots.map Slot.name).zip values)) s := by
  constructor
  · intro held
    refine ⟨?_, ?_, ?_⟩
    · rintro ⟨key, v⟩ among
      obtain ⟨slot, isSlot, same⟩ := List.mem_map.mp (List.of_mem_zip among).1
      exact ⟨slot, isSlot, same⟩
    · intro slot among v given
      obtain ⟨i, isSlot⟩ := List.mem_iff_getElem?.mp among
      exact held.given i slot v isSlot ((form.mem_zip isSlot).mp given)
    · intro slot among absent
      obtain ⟨i, isSlot⟩ := List.mem_iff_getElem?.mp among
      refine (held.missing i slot isSlot ?_).2
      exact Option.eq_none_iff_forall_ne_some.mpr fun v isValue =>
        absent v ((form.mem_zip isSlot).mpr isValue)
  · intro held
    refine ⟨?_, ?_⟩
    · intro i slot v isSlot isValue
      exact held.given slot (List.mem_of_getElem? isSlot) v ((form.mem_zip isSlot).mpr isValue)
    · intro i slot isSlot absent
      have := (List.getElem?_eq_some_iff.mp isSlot).1
      rw [List.getElem?_eq_none_iff] at absent
      omega

end Forms

/-! ## The order of keys -/

/-- Whether two values differ only in the order of the keys of their tables. -/
inductive Reordered : Value → Value → Prop
  | keys {entries entries' : List (String × Value)} (same : entries.Perm entries') :
    Reordered (.table entries) (.table entries')
  | entry {before after : List (String × Value)} {key : String} {v v' : Value}
    (inside : Reordered v v') :
    Reordered (.table (before ++ (key, v) :: after)) (.table (before ++ (key, v') :: after))
  | item {before after : List Value} {v v' : Value} (inside : Reordered v v') :
    Reordered (.array (before ++ v :: after)) (.array (before ++ v' :: after))
  | trans {u v w : Value} (first : Reordered u v) (second : Reordered v w) : Reordered u w

/-- Whether the order of keys plays no part in what a value means. -/
def Respects (means : Value → α → Prop) : Prop :=
  ∀ v v', Reordered v v' → ∀ x, means v x ↔ means v' x

section Orders

variable {slots : List (Slot σ)} {s : σ} {v v' : Value}

theorem table_of_perm {entries entries' : List (String × Value)} (same : entries.Perm entries')
    (table : Table slots entries s) : Table slots entries' s := by
  constructor
  case known => exact fun entry among => table.known entry (same.mem_iff.mpr among)
  case given => exact fun slot among v given => table.given slot among v (same.mem_iff.mpr given)
  case unset =>
    exact fun slot among absent => table.unset slot among fun v given =>
      absent v (same.mem_iff.mp given)

/-- The value of one key is replaced by one that means no less. -/
theorem table_replaced {before after : List (String × Value)} {key : String}
    (means : ∀ slot ∈ slots, slot.name = key → ∀ x, slot.means v x → slot.means v' x)
    (table : Table slots (before ++ (key, v) :: after) s) :
    Table slots (before ++ (key, v') :: after) s := by
  have known := table.known
  simp only [List.forall_mem_append, List.forall_mem_cons] at known
  constructor
  case known => simpa only [List.forall_mem_append, List.forall_mem_cons] using known
  case given =>
    intro slot among w given
    rw [List.mem_append, List.mem_cons, Prod.mk.injEq] at given
    rcases given with early | ⟨rfl, rfl⟩ | late
    · exact table.given slot among w (List.mem_append_left _ early)
    · exact means slot among rfl _ (table.given slot among v (by simp))
    · exact table.given slot among w (List.mem_append_right _ (List.mem_cons_of_mem _ late))
  case unset =>
    intro slot among absent
    refine table.unset slot among fun w given => ?_
    simp only [List.mem_append, List.mem_cons, Prod.mk.injEq, not_or, not_and] at absent given
    rcases given with early | ⟨same, -⟩ | late
    · exact (absent w).1 early
    · exact (absent v').2.1 same rfl
    · exact (absent w).2.2 late

theorem getElem?_replaced {before after : List Value} {i : Nat} {w : Value}
    (isValue : (before ++ v' :: after)[i]? = some w) :
    w = v' ∧ (before ++ v :: after)[i]? = some v ∨ (before ++ v :: after)[i]? = some w := by
  rcases Nat.lt_trichotomy i before.length with early | rfl | late
  · rw [List.getElem?_append_left early] at isValue ⊢
    exact .inr isValue
  · simp at isValue
    exact .inl ⟨isValue.symm, by simp⟩
  · rw [List.getElem?_append_right (by omega)] at isValue ⊢
    obtain ⟨n, place⟩ := Nat.exists_eq_add_of_lt late
    rw [show i - before.length = n + 1 by omega] at isValue ⊢
    exact .inr isValue

/-- One value is replaced by one that means no less. -/
theorem inOrder_replaced {before after : List Value}
    (means : ∀ slot ∈ slots, ∀ x, slot.means v x → slot.means v' x)
    (inOrder : InOrder slots (before ++ v :: after) s) :
    InOrder slots (before ++ v' :: after) s := by
  constructor
  case given =>
    intro i slot w isSlot isValue
    rcases getElem?_replaced (v := v) isValue with ⟨rfl, stood⟩ | stood
    · exact means slot (List.mem_of_getElem? isSlot) _ (inOrder.given i slot v isSlot stood)
    · exact inOrder.given i slot w isSlot stood
  case missing =>
    intro i slot isSlot absent
    refine inOrder.missing i slot isSlot ?_
    simpa using absent

theorem section_respects (each : ∀ slot ∈ slots, Respects slot.means) : Respects (Section slots) := by
  intro v v' reordered s
  induction reordered with
  | keys same => exact ⟨table_of_perm same, table_of_perm same.symm⟩
  | entry inside =>
    exact ⟨table_replaced fun slot among _ x => (each slot among _ _ inside x).mp,
      table_replaced fun slot among _ x => (each slot among _ _ inside x).mpr⟩
  | item inside =>
    exact ⟨inOrder_replaced fun slot among x => (each slot among _ _ inside x).mp,
      inOrder_replaced fun slot among x => (each slot among _ _ inside x).mpr⟩
  | trans first second ihFirst ihSecond => exact ihFirst.trans ihSecond

/-- Only tables and arrays have keys in them. -/
theorem Reordered.shape (reordered : Reordered v v') :
    (∃ entries entries', v = .table entries ∧ v' = .table entries') ∨
      ∃ items items', v = .array items ∧ v' = .array items' := by
  induction reordered with
  | keys same => exact .inl ⟨_, _, rfl, rfl⟩
  | entry inside => exact .inl ⟨_, _, rfl, rfl⟩
  | item inside => exact .inr ⟨_, _, rfl, rfl⟩
  | trans first second ihFirst ihSecond =>
    rcases ihFirst with ⟨_, _, rfl, rfl⟩ | ⟨_, _, rfl, rfl⟩ <;>
      rcases ihSecond with ⟨_, _, same, rfl⟩ | ⟨_, _, same, rfl⟩ <;> simp_all

end Orders

end BugHunt.Proofs.SettingsForms
