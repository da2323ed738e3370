import Mathlib.Data.List.Induction
import BugHunt.Proofs.VariantKeys
/-!
What the key of a source tells of its contents and its flags. The digest is taken of the contents
and of the flags, with a zero byte before each flag; the flags are spelled out beside it. Together
they tell all programs apart, but for a zero byte at the end of the contents and an empty flag.
-/

namespace BugHunt.Proofs.SourceKeys
open Texts VariantKeys

/-! ## Records behind a mark -/

/-- Records one after the other, each behind a mark. -/
def marked (mark : UInt8) (records : List Bytes) : Bytes := records.flatMap (mark :: ·)

variable {mark : UInt8} {before after : Bytes}

@[simp] theorem marked_nil : marked mark [] = [] := rfl

theorem append_marked_concat (records : List Bytes) (last : Bytes) :
    before ++ marked mark (records ++ [last]) = before ++ marked mark records ++ mark :: last := by
  simp [marked]

/-- What stands behind the last mark is a record of its own. -/
theorem last_record {last last' : Bytes} (clean : mark ∉ last) (clean' : mark ∉ last')
    (same : before ++ mark :: last = after ++ mark :: last') : before = after ∧ last = last' := by
  rcases List.append_eq_append_iff.mp same with ⟨more, isAfter, rest⟩ | ⟨more, isBefore, rest⟩
  · cases more with
    | nil => simpa [isAfter] using rest
    | cons b more =>
      obtain ⟨-, rfl⟩ := List.cons.inj rest
      simp at clean
  · cases more with
    | nil => simpa [isBefore, eq_comm] using rest
    | cons b more =>
      obtain ⟨-, rfl⟩ := List.cons.inj rest
      simp at clean'

/-- Records are read from the end: where two lists of them end bytes in the same way, the shorter
list ends the longer one, and what it lacks is part of what stands before it. -/
theorem records_suffix {records others : List Bytes} (clean : ∀ record ∈ records, mark ∉ record)
    (clean' : ∀ record ∈ others, mark ∉ record)
    (same : before ++ marked mark records = after ++ marked mark others) :
    (∃ more, records = more ++ others ∧ after = before ++ marked mark more) ∨
      ∃ more, others = more ++ records ∧ before = after ++ marked mark more := by
  induction records using List.reverseRecOn generalizing others with
  | nil => exact .inr ⟨others, by simp, by simpa using same⟩
  | append_singleton records last ih =>
    cases others using List.reverseRecOn with
    | nil => exact .inl ⟨records ++ [last], by simp, by simpa using same.symm⟩
    | append_singleton others last' =>
      rw [append_marked_concat, append_marked_concat] at same
      obtain ⟨earlier, rfl⟩ := last_record (clean last (by simp)) (clean' last' (by simp)) same
      have shorter := ih (fun record found => clean record (by simp [found]))
        (fun record found => clean' record (by simp [found])) earlier
      rcases shorter with ⟨more, rfl, left⟩ | ⟨more, rfl, left⟩
      · exact .inl ⟨more, by simp, left⟩
      · exact .inr ⟨more, by simp, left⟩

/-! ## Flags -/

/-- The flags as a key spells them out. -/
def spelling (flags : List String) : String := Plan.sanitize (".".intercalate flags)

theorem spelling_length (flags : List String) :
    (spelling flags).length = (".".intercalate flags).length :=
  String.length_map

/-- A flag before others shows in the spelling by its dot. -/
theorem spelling_append_ne {more flags : List String} (someMore : more ≠ []) (some : flags ≠ []) :
    spelling (more ++ flags) ≠ spelling flags := by
  intro same
  have lengths := congrArg String.length same
  rw [spelling_length, spelling_length, String.intercalate_append_of_ne_nil someMore some] at lengths
  have dot : (".".length : Nat) = 1 := by decide
  simp only [String.length_append, dot] at lengths
  omega

/-- No flag and one flag without text are spelled alike, as nothing. -/
theorem spelling_eq_nil_iff (flags : List String) :
    spelling flags = spelling [] ↔ flags = [] ∨ flags = [""] := by
  constructor
  · intro same
    have empty := congrArg String.length same
    rw [spelling_length, spelling_length] at empty
    rcases flags with _ | ⟨flag, _ | ⟨next, rest⟩⟩
    · exact .inl rfl
    · have none : flag.length = 0 := by simpa using empty
      rw [String.length_eq_zero_iff.mp none]
      exact .inr rfl
    · rw [String.intercalate_cons_of_ne_nil (by simp)] at empty
      have dot : (".".length : Nat) = 1 := by decide
      simp only [String.length_append, dot, String.intercalate_nil, String.length_empty] at empty
      omega
  · rintro (rfl | rfl)
    · rfl
    · simp [spelling]

/-- What is digested of a source, with the flags that it is compiled with before the rest. -/
theorem digested_eq (contents : Bytes) (flags extraArgs : List String) :
    Plan.digested contents (flags ++ extraArgs) =
      contents ++ marked 0 (flags.map utf8) ++ marked 0 (extraArgs.map utf8) := by
  simp [Plan.digested, marked, List.flatMap_map]

theorem zero_notMem_utf8 {flag : String} (clean : '\x00' ∉ flag.toList) : (0 : UInt8) ∉ utf8 flag :=
  fun found => clean (ascii_of_mem_utf8 (by decide) found)

/-- What two lists of flags and the contents before them have to do with each other when their
digests are taken of the same bytes. -/
theorem flags_suffix {contents contents' : Bytes} {flags flags' extraArgs : List String}
    (clean : ∀ flag ∈ flags, '\x00' ∉ flag.toList) (clean' : ∀ flag ∈ flags', '\x00' ∉ flag.toList)
    (same : Plan.digested contents (flags ++ extraArgs) =
      Plan.digested contents' (flags' ++ extraArgs)) :
    (∃ more, flags = more ++ flags' ∧ contents' = contents ++ marked 0 (more.map utf8)) ∨
      ∃ more, flags' = more ++ flags ∧ contents = contents' ++ marked 0 (more.map utf8) := by
  rw [digested_eq, digested_eq] at same
  have records {flags : List String} (clean : ∀ flag ∈ flags, '\x00' ∉ flag.toList) :
      ∀ record ∈ flags.map utf8, (0 : UInt8) ∉ record := by
    intro record found
    obtain ⟨flag, among, rfl⟩ := List.mem_map.mp found
    exact zero_notMem_utf8 (clean flag among)
  have split {more : List Bytes} {flags flags' : List String}
      (isMore : flags.map utf8 = more ++ flags'.map utf8) :
      ∃ own, more = own.map utf8 ∧ flags = own ++ flags' := by
    obtain ⟨own, rest, rfl, isOwn, isRest⟩ := List.map_eq_append_iff.mp isMore
    obtain rfl := (List.map_inj_right fun _ _ => utf8_injective).mp isRest
    exact ⟨own, isOwn.symm, rfl⟩
  rcases records_suffix (records clean) (records clean') (List.append_cancel_right same) with
    ⟨more, isMore, isContents⟩ | ⟨more, isMore, isContents⟩
  · obtain ⟨own, rfl, isFlags⟩ := split isMore
    exact .inl ⟨own, isFlags, isContents⟩
  · obtain ⟨own, rfl, isFlags⟩ := split isMore
    exact .inr ⟨own, isFlags, isContents⟩

/-! ## Keys -/

/-- The one way in which two sources are taken for each other: the zero byte before an empty flag is
read as the last byte of contents that are compiled without flags. -/
structure Blurred (contents contents' : Bytes) (flags flags' : List String) : Prop where
  none : flags = []
  empty : flags' = [""]
  contents : contents = contents' ++ [0]

/-- Whether two sources are the same to their key. -/
def SameSource (contents contents' : Bytes) (flags flags' : List String) : Prop :=
  contents = contents' ∧ flags = flags' ∨ Blurred contents contents' flags flags' ∨
    Blurred contents' contents flags' flags

variable {contents contents' : Bytes} {flags flags' extraArgs : List String}

theorem Blurred.spelled (blurred : Blurred contents contents' flags flags') :
    spelling flags = spelling flags' := by
  rw [blurred.none, blurred.empty]
  simp [spelling]

theorem Blurred.digested (blurred : Blurred contents contents' flags flags') :
    Plan.digested contents (flags ++ extraArgs) =
      Plan.digested contents' (flags' ++ extraArgs) := by
  have noText : utf8 "" = [] := rfl
  simp [blurred.none, blurred.empty, blurred.contents, Plan.digested, noText]

/-- Of the flags that one list has before another, the spelling leaves no trace only where it is a
single flag without text, before none. -/
theorem same_of_suffix {more : List String} (spelled : spelling (more ++ flags) = spelling flags)
    (isContents : contents = contents' ++ marked 0 (more.map utf8)) :
    contents = contents' ∧ more = [] ∨ Blurred contents contents' flags (more ++ flags) := by
  by_cases noMore : more = []
  · subst noMore
    exact .inl ⟨by simpa using isContents, rfl⟩
  · by_cases noFlags : flags = []
    · subst noFlags
      rw [List.append_nil] at spelled ⊢
      have isEmpty := ((spelling_eq_nil_iff more).mp spelled).resolve_left noMore
      subst isEmpty
      exact .inr ⟨rfl, rfl, isContents⟩
    · exact absurd spelled (spelling_append_ne noMore noFlags)

/-- The spelling of the flags and what the digest is taken of tell a source, up to one way of
taking two for each other. -/
theorem sameSource_iff (clean : ∀ flag ∈ flags, '\x00' ∉ flag.toList)
    (clean' : ∀ flag ∈ flags', '\x00' ∉ flag.toList) :
    spelling flags = spelling flags' ∧ Plan.digested contents (flags ++ extraArgs) =
      Plan.digested contents' (flags' ++ extraArgs) ↔ SameSource contents contents' flags flags' := by
  constructor
  · rintro ⟨spelled, digested⟩
    rcases flags_suffix clean clean' digested with ⟨more, rfl, isContents⟩ | ⟨more, rfl, isContents⟩
    · rcases same_of_suffix spelled isContents with ⟨same, rfl⟩ | blurred
      · exact .inl ⟨same.symm, rfl⟩
      · exact .inr (.inr blurred)
    · rcases same_of_suffix spelled.symm isContents with ⟨same, rfl⟩ | blurred
      · exact .inl ⟨same, rfl⟩
      · exact .inr (.inl blurred)
  · rintro (⟨rfl, rfl⟩ | blurred | blurred)
    · exact ⟨rfl, rfl⟩
    · exact ⟨blurred.spelled, blurred.digested⟩
    · exact ⟨blurred.spelled.symm, blurred.digested.symm⟩

/-- Two sources with one stem, planned under one configuration: what their keys are made of is the
same exactly when contents and flags are, or differ by a zero byte at the end of contents without
flags that stands for a flag without text. So are their keys, where their digests do not collide. -/
theorem key_tells_source {host : Host σ} {s t : σ} {c : Config} {outDir : Path} {a b : Artifact}
    (sourceA : a.isSource) (sourceB : b.isSource) (stems : Plan.stemOf a.path = Plan.stemOf b.path)
    (readA : (host (.file (.read a.path)) s).1 = .ok contents)
    (readB : (host (.file (.read b.path)) t).1 = .ok contents')
    (clean : ∀ flag ∈ flags, '\x00' ∉ flag.toList)
    (clean' : ∀ flag ∈ flags', '\x00' ∉ flag.toList) :
    (Plan.sanitize (".".intercalate flags) = Plan.sanitize (".".intercalate flags') ∧
        Plan.digested contents (flags ++ c.extraArgs) =
          Plan.digested contents' (flags' ++ c.extraArgs) ↔
      SameSource contents contents' flags flags') ∧
    ∃ p q, ((Compile.plan c outDir a flags).run.run host s).1 = .ok p ∧
      ((Compile.plan c outDir b flags').run.run host t).1 = .ok q ∧
      (SameSource contents contents' flags flags' → p.key = q.key ∧ p.irPath = q.irPath) ∧
      ((Plan.shortDigest (Plan.digested contents (flags ++ c.extraArgs)) =
          Plan.shortDigest (Plan.digested contents' (flags' ++ c.extraArgs)) →
        Plan.digested contents (flags ++ c.extraArgs) =
          Plan.digested contents' (flags' ++ c.extraArgs)) →
        p.key = q.key → SameSource contents contents' flags flags') := by
  have parts := @sameSource_iff contents contents' flags flags' c.extraArgs clean clean'
  have labels : label a flags = label b flags' ↔ spelling flags = spelling flags' := by
    simp only [label, sourceA, sourceB, if_true, stems, spelling, toString_text, String.append_assoc]
    constructor
    · intro same
      have chars := congrArg String.toList same
      simp only [String.toList_append] at chars
      exact String.toList_inj.mp (List.append_cancel_left (List.append_cancel_left chars))
    · intro same
      rw [same]
  refine ⟨parts, _, _, plan_run readA, plan_run readB, fun same => ?_, fun distinct sameKey => ?_⟩
  · obtain ⟨spelled, digested⟩ := parts.mpr same
    have sameKey : (Plan.ofContent c.extraArgs outDir a flags contents).key =
        (Plan.ofContent c.extraArgs outDir b flags' contents').key := by
      rw [key_eq, key_eq, labels.mpr spelled]
      simp [material, sourceA, sourceB, digested]
    exact ⟨sameKey, (irPath_eq_iff sourceA sourceB).mpr sameKey⟩
  · have kept : material c.extraArgs a flags contents =
        Plan.digested contents (flags ++ c.extraArgs) := if_pos sourceA
    have kept' : material c.extraArgs b flags' contents' =
        Plan.digested contents' (flags' ++ c.extraArgs) := if_pos sourceB
    rw [key_eq, key_eq, parts_eq_iff, kept, kept'] at sameKey
    exact parts.mp ⟨labels.mp sameKey.1, distinct sameKey.2⟩

/-- A host on which every file holds what the state says. -/
def holding : Host Bytes := fun request content => ((still content request ()).1, content)

/-- A program without flags, whose last byte is a zero byte, has the key of the program without that
byte that is compiled with a flag without text. -/
theorem zero_byte_read_as_flag :
    ∃ p q, ((Compile.plan plain "/ir" twinC []).run.run holding [0x78, 0]).1 = .ok p ∧
      ((Compile.plan plain "/ir" twinC [""]).run.run holding [0x78]).1 = .ok q ∧
      SameSource [0x78, 0] [0x78] [] [""] ∧ p.key = q.key ∧ p.irPath = q.irPath := by
  have same : SameSource [0x78, 0] [0x78] [] [""] := .inr (.inl ⟨rfl, rfl, rfl⟩)
  obtain ⟨-, p, q, planA, planB, keys, -⟩ :=
    @key_tells_source [0x78, 0] [0x78] [] [""] Bytes holding [0x78, 0] [0x78] plain "/ir" twinC twinC
      rfl rfl rfl rfl rfl (by simp) (by simp)
  exact ⟨p, q, planA, planB, same, keys same⟩

/-- So what a key is made of does not determine contents and flags. -/
theorem parts_do_not_determine :
    ¬ ∀ (contents contents' : Bytes) (flags flags' extraArgs : List String),
      (∀ flag ∈ flags ++ flags', '\x00' ∉ flag.toList) →
      Plan.sanitize (".".intercalate flags) = Plan.sanitize (".".intercalate flags') →
      Plan.digested contents (flags ++ extraArgs) = Plan.digested contents' (flags' ++ extraArgs) →
      contents = contents' ∧ flags = flags' := by
  intro determine
  have blurred : Blurred [0x78, 0] [0x78] [] [""] := ⟨rfl, rfl, rfl⟩
  have same := determine [0x78, 0] [0x78] [] [""] [] (by simp) blurred.spelled blurred.digested
  exact absurd same.2 (by simp)

end BugHunt.Proofs.SourceKeys
