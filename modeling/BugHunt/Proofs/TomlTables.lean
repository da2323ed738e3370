import BugHunt.Toml.Document
import Mathlib.Data.List.Nodup
/-!
The tables that a TOML text defines: however its lines and inline tables go together, no table that
is read has a key twice.
-/

namespace BugHunt.Proofs.TomlTables
open Toml Toml.Reader

/-- A value in which every table has each key once. -/
inductive Sound : Value → Prop
  | string (text : String) : Sound (.string text)
  | integer (n : Int) : Sound (.integer n)
  | float : Sound .float
  | boolean (b : Bool) : Sound (.boolean b)
  | moment (text : String) : Sound (.moment text)
  | array {items : List Value} (each : ∀ item ∈ items, Sound item) : Sound (.array items)
  | table {entries : List (String × Value)} (apart : (entries.map Prod.fst).Nodup)
    (each : ∀ entry ∈ entries, Sound entry.2) : Sound (.table entries)

/-- The same of a table as it grows. -/
inductive Tidy : Item → Prop
  | value {v : Value} (sound : Sound v) : Tidy (.value v)
  | table {implicitly dotted : Bool} {entries : List (String × Item)}
    (apart : (entries.map Prod.fst).Nodup) (each : ∀ entry ∈ entries, Tidy entry.2) :
    Tidy (.table implicitly dotted entries)
  | tables {items : List Item} (each : ∀ item ∈ items, Tidy item) : Tidy (.tables items)

theorem entriesValue_eq (entries : List (String × Item)) :
    entriesValue entries = entries.map fun entry => (entry.1, entry.2.toValue) := by
  induction entries with
  | nil => rfl
  | cons entry rest ih => rw [entriesValue, ih, List.map_cons]

theorem itemsValue_eq (items : List Item) : itemsValue items = items.map Item.toValue := by
  induction items with
  | nil => rfl
  | cons item rest ih => rw [itemsValue, ih, List.map_cons]

theorem Tidy.sound {item : Item} (tidy : Tidy item) : Sound item.toValue := by
  induction tidy with
  | value sound => exact sound
  | table apart each ih =>
    rw [Item.toValue, entriesValue_eq]
    refine .table (by simpa [List.map_map, Function.comp_def] using apart) ?_
    intro entry among
    obtain ⟨own, isOwn, rfl⟩ := List.mem_map.mp among
    exact ih own isOwn
  | tables each ih =>
    rw [Item.toValue, itemsValue_eq]
    refine .array ?_
    intro v among
    obtain ⟨own, isOwn, rfl⟩ := List.mem_map.mp among
    exact ih own isOwn

/-! ## Changes of growing tables -/

section Changes

variable {entries : List (String × Item)} {key : String} {item : Item}

theorem lookup_eq_none (free : entries.lookup key = none) : key ∉ entries.map Prod.fst := by
  intro among
  obtain ⟨entry, isEntry, same⟩ := List.mem_map.mp among
  have other := List.lookup_eq_none_iff.mp free entry isEntry
  simp [same] at other

variable {implicitly dotted : Bool}

theorem Tidy.entry (tidy : Tidy (.table implicitly dotted entries))
    (found : entries.lookup key = some item) : Tidy item := by
  cases tidy with
  | table apart each =>
    obtain ⟨before, after, rfl, -⟩ := List.lookup_eq_some_iff.mp found
    exact each (key, item) (by simp)

/-- A new key goes to the end. -/
theorem Tidy.add (tidy : Tidy (.table implicitly dotted entries))
    (free : entries.lookup key = none) (tidyItem : Tidy item) :
    Tidy (.table implicitly dotted (entries ++ [(key, item)])) := by
  cases tidy with
  | table apart each =>
    refine .table ?_ ?_
    · rw [List.map_append, List.nodup_append]
      refine ⟨apart, List.nodup_singleton _, ?_⟩
      rintro k among _ last rfl
      obtain rfl := List.mem_singleton.mp last
      exact lookup_eq_none free among
    · rw [List.forall_mem_append]
      exact ⟨each, by simpa using tidyItem⟩

/-- A key that is set anew stays where it is. -/
theorem Tidy.set (tidy : Tidy (.table implicitly dotted entries)) (tidyItem : Tidy item) :
    Tidy (.table implicitly dotted (setEntry entries key item)) := by
  cases tidy with
  | table apart each =>
    have same : (setEntry entries key item).map Prod.fst = entries.map Prod.fst := by
      rw [setEntry, List.map_map]
      refine List.map_congr_left fun entry _ => ?_
      by_cases is : entry.1 = key <;> simp [is]
    refine .table (by rwa [same]) ?_
    intro entry among
    obtain ⟨old, isOld, rfl⟩ := List.mem_map.mp among
    split
    · exact tidyItem
    · exact each old isOld

theorem Tidy.without (tidy : Tidy (.table implicitly dotted entries)) (key : String) :
    Tidy (.table implicitly dotted (entries.filter fun entry => entry.1 != key)) := by
  cases tidy with
  | table apart each =>
    exact .table (apart.sublist (List.filter_sublist.map _)) fun entry among =>
      each entry (List.mem_of_mem_filter among)

theorem tidy_empty : Tidy (.table implicitly dotted []) := .table (by simp) (by simp)

theorem Tidy.marked {implicitly' dotted' : Bool} (tidy : Tidy (.table implicitly dotted entries)) :
    Tidy (.table implicitly' dotted' entries) := by
  cases tidy with
  | table apart each => exact .table apart each

end Changes

/-- Whether a change leads from tidy items to tidy items, with answers of some kind. -/
def Tidies (P : α → Prop) (change : Item → Option (α × Item)) : Prop :=
  ∀ item result item', Tidy item → change item = some (result, item') → P result ∧ Tidy item'

theorem Tidies.update {P : α → Prop} {change : Item → Option (α × Item)} (tidies : Tidies P change)
    (dotted : Bool) (path : List String) : Tidies P (Item.update dotted change path) := by
  intro item
  fun_induction Item.update dotted change path item with
  | case1 item => exact tidies item
  | case2 key path implicitly wasDotted entries free ih =>
    intro result item' tidy changed
    obtain ⟨⟨result, child⟩, made, changed⟩ := Option.bind_eq_some_iff.mp changed
    obtain ⟨rfl, rfl⟩ := Prod.mk.inj (Option.some.inj changed)
    obtain ⟨holds, tidyChild⟩ := ih _ _ tidy_empty made
    exact ⟨holds, tidy.add free tidyChild⟩
  | case3 => simp
  | case4 key path implicitly wasDotted entries items there ih =>
    intro result item' tidy changed
    obtain ⟨last, isLast, changed⟩ := Option.bind_eq_some_iff.mp changed
    obtain ⟨⟨result, child⟩, made, changed⟩ := Option.bind_eq_some_iff.mp changed
    obtain ⟨rfl, rfl⟩ := Prod.mk.inj (Option.some.inj changed)
    cases tidy.entry there with
    | tables each =>
      obtain ⟨holds, tidyChild⟩ := ih _ _ _ (each last (List.mem_of_getLast? isLast)) made
      refine ⟨holds, tidy.set (.tables ?_)⟩
      rw [List.forall_mem_append]
      exact ⟨fun item among => each item (List.dropLast_subset items among), by simpa using tidyChild⟩
  | case5 => exact fun _ _ _ changed => nomatch changed
  | case6 key path implicitly wasDotted entries childImplicitly childDotted children there _ _ ih =>
    intro result item' tidy changed
    obtain ⟨⟨result, child⟩, made, changed⟩ := Option.bind_eq_some_iff.mp changed
    obtain ⟨rfl, rfl⟩ := Prod.mk.inj (Option.some.inj changed)
    obtain ⟨holds, tidyChild⟩ := ih _ _ (tidy.entry there) made
    exact ⟨holds, tidy.set tidyChild⟩
  | case7 => simp

theorem tidies_insertNew (path : List String) (key : String) {v : Value} (sound : Sound v) :
    Tidies (fun _ => True) (Item.insertNew path key v) := by
  intro item result item' tidy changed
  cases item with
  | table implicitly dotted entries =>
    rw [Item.insertNew] at changed
    split at changed
    · cases changed
    · rename_i free
      obtain ⟨rfl, rfl⟩ := Prod.mk.inj (Option.some.inj changed)
      rw [Bool.or_eq_true, not_or, Option.not_isSome_iff_eq_none] at free
      exact ⟨trivial, tidy.add free.2 (.value sound)⟩
  | _ => cases changed

theorem Tidy.insert {item item' : Item} {keys : List String} {v : Value} (tidy : Tidy item)
    (sound : Sound v) (inserted : item.insert keys v = some item') : Tidy item' := by
  obtain ⟨key, -, inserted⟩ := Option.bind_eq_some_iff.mp inserted
  obtain ⟨⟨_, made⟩, changed, rest⟩ := Option.bind_eq_some_iff.mp inserted
  obtain rfl := Option.some.inj rest
  exact ((tidies_insertNew _ key sound).update true _ item _ _ tidy changed).2

/-- Whether the tables of a document that is being read are tidy. -/
structure Kept (b : Building) : Prop where
  root : Tidy b.root
  current : Tidy b.current

theorem Kept.finish {b : Building} {item : Item} (kept : Kept b) (finished : b.finish = some item) :
    Tidy item := by
  unfold Building.finish at finished
  split at finished
  · obtain rfl := Option.some.inj finished
    exact kept.current
  · obtain ⟨⟨_, made⟩, changed, rfl⟩ := Option.map_eq_some_iff.mp finished
    refine (Tidies.update (P := fun _ => True) ?_ false _ _ _ _ kept.root changed).2
    intro item result item' tidy placed
    refine ⟨trivial, ?_⟩
    cases item with
    | table implicitly dotted entries =>
      dsimp only at placed
      split at placed <;> cases placed
      · exact tidy.add ‹_› (.tables (by simpa using kept.current))
      · rename_i there _
        cases tidy.entry there with
        | tables each => exact tidy.set (.tables (List.forall_mem_append.mpr ⟨each, by simpa using kept.current⟩))
      · exact tidy.add ‹_› kept.current
      · exact tidy.set kept.current
    | _ => cases placed

theorem Kept.startTable {b b' : Building} {path : List String} (kept : Kept b)
    (started : b.startTable path = some b') : Kept b' := by
  obtain ⟨root, finished, started⟩ := Option.bind_eq_some_iff.mp started
  obtain ⟨key, -, started⟩ := Option.bind_eq_some_iff.mp started
  obtain ⟨⟨current, root'⟩, changed, started⟩ := Option.bind_eq_some_iff.mp started
  obtain rfl := Option.some.inj started
  refine And.elim (fun tidyCurrent tidyRoot => ⟨tidyRoot, tidyCurrent⟩)
    (Tidies.update (P := Tidy) ?_ false _ _ _ _ (kept.finish finished) changed)
  intro item result item' tidy taken
  cases item with
  | table implicitly dotted entries =>
    dsimp only at taken
    split at taken <;> cases taken
    · exact ⟨tidy_empty, tidy⟩
    · rename_i there
      exact ⟨(tidy.entry there).marked, tidy.without key⟩
  | _ => cases taken

theorem Kept.startArrayTable {b b' : Building} {path : List String} (kept : Kept b)
    (started : b.startArrayTable path = some b') : Kept b' := by
  obtain ⟨root, finished, started⟩ := Option.bind_eq_some_iff.mp started
  obtain ⟨key, -, started⟩ := Option.bind_eq_some_iff.mp started
  obtain ⟨⟨_, root'⟩, changed, started⟩ := Option.bind_eq_some_iff.mp started
  obtain rfl := Option.some.inj started
  refine ⟨(Tidies.update (P := fun _ => True) ?_ false _ _ _ _ (kept.finish finished) changed).2,
    tidy_empty⟩
  intro item result item' tidy seen
  refine ⟨trivial, ?_⟩
  cases item with
  | table implicitly dotted entries =>
    dsimp only at seen
    split at seen <;> cases seen
    · exact tidy.add ‹_› (.tables (by simp))
    · rename_i there
      exact tidy.set (tidy.entry there)
  | _ => cases seen

/-! ## Readers -/

/-- Whether all that a reader reads is of some kind. -/
def Gives (P : α → Prop) (r : Reader α) : Prop :=
  ∀ text value rest, r text = some (value, rest) → P value

section Readers

variable {P : α → Prop} {Q : β → Prop}

theorem Gives.pure {value : α} (holds : P value) : Gives P (pure value) := by
  intro text other rest read
  obtain ⟨rfl, -⟩ := Prod.mk.inj (Option.some.inj read)
  exact holds

theorem Gives.failure : Gives P (failure : Reader α) := fun _ _ _ read => nomatch read

theorem Gives.bind {r : Reader α} {f : α → Reader β} (first : Gives P r)
    (second : ∀ value, P value → Gives Q (f value)) : Gives Q (r >>= f) := by
  intro text value rest read
  obtain ⟨⟨early, left⟩, begun, read⟩ := Option.bind_eq_some_iff.mp read
  exact second early (first _ _ _ begun) _ _ _ read

theorem Gives.next {r : Reader α} {f : α → Reader β} (second : ∀ value, Gives Q (f value)) :
    Gives Q (r >>= f) :=
  Gives.bind (P := fun _ => True) (fun _ _ _ _ => trivial) fun value _ => second value

theorem Gives.lift {o : Option α} (holds : ∀ value, o = some value → P value) :
    Gives P (StateT.lift o : Reader α) := by
  intro text value rest read
  obtain ⟨own, isOwn, read⟩ := Option.bind_eq_some_iff.mp read
  obtain ⟨rfl, -⟩ := Prod.mk.inj (Option.some.inj read)
  exact holds _ isOwn

theorem Gives.orElse {r s : Reader α} (first : Gives P r) (second : Gives P s) :
    Gives P (r <|> s) := by
  intro text value rest read
  have read : (r text <|> s text) = some (value, rest) := read
  cases begun : r text with
  | none => exact second _ _ _ (by simpa [begun] using read)
  | some found =>
    rw [begun] at read
    exact first _ _ _ (begun.trans read)

end Readers

theorem gives_integer : Gives Sound integer := by
  have based (n : Int) : Gives Sound (integerOf n) := .next fun _ => .pure (.integer n)
  unfold integer
  refine .next fun isHex => ?_
  split
  · exact .next fun _ => based _
  · refine .next fun isOctal => ?_
    split
    · exact .next fun _ => based _
    · refine .next fun isBinary => ?_
      split
      · exact .next fun _ => based _
      · exact .next fun _ => .next fun _ => based _

theorem gives_moment : Gives Sound moment := by
  refine .next fun date => ?_
  cases date with
  | some date => exact .next fun _ => .pure (.moment _)
  | none => exact .next fun _ => .pure (.moment _)

theorem gives_number : Gives Sound number := by
  have float : Gives Sound float := .next fun _ => .next fun _ => .next fun _ => .next fun _ =>
    .next fun _ => .next fun _ => .pure .float
  have special : Gives Sound specialFloat := .next fun _ => .next fun _ => .pure .float
  exact gives_moment.orElse (float.orElse (special.orElse gives_integer))

theorem gives_value (depth rounds : Nat) :
    Gives Sound (Toml.value depth rounds) ∧
    (∀ done : List Value, (∀ item ∈ done, Sound item) →
      Gives (fun items => ∀ item ∈ items, Sound item) (arrayRest depth done rounds)) ∧
    ∀ item, Tidy item → Gives Tidy (inlineRest depth item rounds) := by
  -- The three readers call one another with one round less.
  induction rounds generalizing depth with
  | zero => exact ⟨.failure, fun _ _ => .failure, fun _ _ => .failure⟩
  | succ rounds ih =>
    refine ⟨?_, ?_, ?_⟩
    · rw [Toml.value]
      refine .next fun c => ?_
      split
      · exact .next fun _ => .pure (.string _)
      · exact .next fun _ => .pure (.string _)
      · refine .next fun _ => .next fun _ => .next fun _ => .next fun isEmpty => ?_
        split
        · exact .pure (.array (by simp))
        · exact .bind ((ih _).2.1 [] (by simp)) fun items each => .pure (.array each)
      · refine .next fun _ => .next fun _ => .next fun _ => .next fun isEmpty => ?_
        split
        · exact .pure (.table (by simp) (by simp))
        · exact .bind ((ih _).2.2 _ tidy_empty) fun item tidy => .pure tidy.sound
      · exact .next fun _ => .pure (.boolean _)
      · exact .next fun _ => .pure (.boolean _)
      · exact gives_number
      · exact .failure
    · intro done each
      rw [arrayRest]
      refine .bind (ih depth).1 fun item sound => .next fun _ => .next fun isComma => ?_
      have more : ∀ other ∈ item :: done, Sound other := List.forall_mem_cons.mpr ⟨sound, each⟩
      have all : ∀ other ∈ (item :: done).reverse, Sound other :=
        fun other among => more other (List.mem_reverse.mp among)
      split
      · refine .next fun _ => .next fun isEnd => ?_
        split
        · exact .pure all
        · exact (ih depth).2.1 _ more
      · exact .next fun _ => .pure all
    · intro item tidy
      rw [inlineRest]
      refine .next fun keys => .next fun _ => .next fun _ => .bind (ih depth).1 fun v sound =>
        .next fun _ => .bind (.lift fun item' inserted => tidy.insert sound inserted)
          fun item' tidy' => .next fun isComma => ?_
      split
      · exact (ih depth).2.2 _ tidy'
      · exact .next fun _ => .pure tidy'

theorem gives_lines {b : Building} (kept : Kept b) (rounds : Nat) : Gives Kept (lines b rounds) := by
  induction rounds generalizing b with
  | zero => exact .failure
  | succ rounds ih =>
    rw [lines]
    refine .next fun _ => .next fun c => ?_
    split
    · exact .pure kept
    · exact .next fun _ => ih kept
    · exact .next fun _ => ih kept
    · exact .next fun _ => ih kept
    · refine .next fun _ => .next fun isArray => .next fun path => .next fun _ => .next fun _ =>
        .bind (.lift ?_) fun b' kept' => ih kept'
      intro b' started
      split at started
      · exact kept.startArrayTable started
      · exact kept.startTable started
    · refine .next fun keys => .next fun _ => .next fun _ => .bind (gives_value 0 rounds).1 fun v sound =>
        .next fun _ => .bind (.lift fun item inserted => kept.current.insert sound inserted)
          fun item tidy => ih ⟨kept.root, tidy⟩

/-- No table of a document that is read has a key twice. -/
theorem sound_of_parse {text : String} {entries : List (String × Value)}
    (read : parse? text = some entries) : Sound (.table entries) := by
  obtain ⟨⟨b, rest⟩, ended, read⟩ := Option.bind_eq_some_iff.mp read
  obtain ⟨item, finished, read⟩ := Option.bind_eq_some_iff.mp read
  have kept : Kept b := gives_lines ⟨tidy_empty, tidy_empty⟩ _ _ _ _ ended
  have sound := (kept.finish finished).sound
  split at read
  · rename_i isTable
    rw [← Option.some.inj read, ← isTable]
    exact sound
  · cases read

/-! ## Equal values -/

mutual

/-- Tells equal values by computing. -/
def equal : Value → Value → Bool
  | .string a, .string b => a = b
  | .integer m, .integer n => m = n
  | .float, .float => true
  | .boolean a, .boolean b => a = b
  | .moment a, .moment b => a = b
  | .array items, .array others => itemsEqual items others
  | .table entries, .table others => entriesEqual entries others
  | _, _ => false

def itemsEqual : List Value → List Value → Bool
  | [], [] => true
  | v :: rest, w :: others => equal v w && itemsEqual rest others
  | _, _ => false

def entriesEqual : List (String × Value) → List (String × Value) → Bool
  | [], [] => true
  | (key, v) :: rest, (other, w) :: others => key = other && equal v w && entriesEqual rest others
  | _, _ => false

end

mutual

theorem eq_of_equal : ∀ {v w : Value}, equal v w → v = w
  | .string _, w, same | .integer _, w, same | .float, w, same | .boolean _, w, same
  | .moment _, w, same => by cases w <;> simp_all [equal]
  | .array items, w, same => by
    cases w with
    | array others => exact congrArg Value.array (items_eq_of_equal (by simpa [equal] using same))
    | _ => simp [equal] at same
  | .table entries, w, same => by
    cases w with
    | table others => exact congrArg Value.table (entries_eq_of_equal (by simpa [equal] using same))
    | _ => simp [equal] at same

theorem items_eq_of_equal : ∀ {items others : List Value}, itemsEqual items others → items = others
  | [], [], _ => rfl
  | v :: rest, w :: others, same => by
    rw [itemsEqual, Bool.and_eq_true] at same
    rw [eq_of_equal same.1, items_eq_of_equal same.2]

theorem entries_eq_of_equal : ∀ {entries others : List (String × Value)},
    entriesEqual entries others → entries = others
  | [], [], _ => rfl
  | (key, v) :: rest, (other, w) :: others, same => by
    simp only [entriesEqual, Bool.and_eq_true, decide_eq_true_eq] at same
    rw [same.1.1, eq_of_equal same.1.2, entries_eq_of_equal same.2]

end

theorem parse_of_equal {text : String} {entries : List (String × Value)}
    (same : (parse? text).any (entriesEqual · entries)) : parse? text = some entries := by
  cases read : parse? text with
  | none => simp [read] at same
  | some found =>
    rw [read, Option.any_some] at same
    rw [entries_eq_of_equal same]

end BugHunt.Proofs.TomlTables
