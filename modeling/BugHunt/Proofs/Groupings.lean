import Mathlib.Algebra.GroupWithZero.Nat
import Mathlib.Data.List.Perm.Basic
import BugHunt.Pipeline.Scan
/-!
Sums of the results of checks. However the results are ordered and whichever of them are added up
first, they come to the same sum, or all to a failure.
-/

namespace BugHunt.Proofs.Groupings

/-- The sum of summaries, field by field. -/
def sum (summaries : List Summary) : Summary where
  interesting := (summaries.map Summary.interesting).sum
  uninteresting := (summaries.map Summary.uninteresting).sum
  uncompilable := (summaries.map Summary.uncompilable).sum
  cacheHits := (summaries.map Summary.cacheHits).sum
  reduceFailures := (summaries.map Summary.reduceFailures).sum

@[simp] theorem sum_nil : sum [] = .zero := rfl

@[simp] theorem sum_cons (s : Summary) (rest : List Summary) : sum (s :: rest) = s.merge (sum rest) := by
  simp [sum, Summary.merge]

@[simp] theorem sum_append (left right : List Summary) :
    sum (left ++ right) = (sum left).merge (sum right) := by
  simp [sum, Summary.merge]

theorem sum_perm {left right : List Summary} (same : left.Perm right) : sum left = sum right := by
  unfold sum
  rw [(same.map _).sum_nat, (same.map _).sum_nat, (same.map _).sum_nat, (same.map _).sum_nat,
    (same.map _).sum_nat]

/-- Whether results are all summaries, and what these come to. -/
def Sums (parts : List Scan.Part) (s : Summary) : Prop :=
  ∃ summaries, parts = summaries.map .ok ∧ s = sum summaries

theorem sums_iff {parts : List Scan.Part} {s : Summary} : Sums parts s ↔
    ∃ summaries, parts.map Except.toOption = summaries.map some ∧ s = sum summaries := by
  constructor
  · rintro ⟨summaries, rfl, rfl⟩
    exact ⟨summaries, by rw [List.map_map]; rfl, rfl⟩
  · rintro ⟨summaries, same, rfl⟩
    refine ⟨summaries, ?_, rfl⟩
    induction parts generalizing summaries with
    | nil =>
      obtain rfl := List.map_eq_nil_iff.mp same.symm
      rfl
    | cons part rest ih =>
      obtain ⟨summary, summaries, rfl, first, later⟩ := List.map_eq_cons_iff.mp same.symm
      rw [List.map_cons, ← ih summaries later.symm]
      cases part with
      | ok value => rw [Option.some.inj first]
      | error e => cases first

/-- Neither the order of results nor the wording of errors matters. -/
theorem Sums.perm_options {left right : List Scan.Part}
    (same : (left.map Except.toOption).Perm (right.map Except.toOption)) {s : Summary}
    (sums : Sums left s) : Sums right s := by
  obtain ⟨summaries, isLeft, rfl⟩ := sums_iff.mp sums
  have reordered : Relation.Comp (fun options summaries => options = summaries.map some) List.Perm
      (right.map Except.toOption) summaries := by
    rw [List.eq_map_comp_perm]
    show (right.map Except.toOption).Perm (summaries.map some)
    rw [← isLeft]
    exact same.symm
  obtain ⟨others, isRight, other⟩ := reordered
  exact sums_iff.mpr ⟨others, isRight, sum_perm other.symm⟩

theorem Sums.perm {left right : List Scan.Part} (same : left.Perm right) {s : Summary}
    (sums : Sums left s) : Sums right s := sums.perm_options (same.map _)

/-- A way to put results together, two at a time. -/
inductive Grouping where
  | nothing
  | one (part : Scan.Part)
  | both (left right : Grouping)

namespace Grouping

def parts : Grouping → List Scan.Part
  | nothing => []
  | one part => [part]
  | both left right => left.parts ++ right.parts

def result : Grouping → Scan.Part
  | nothing => .ok .zero
  | one part => part
  | both left right => left.result.merge right.result

end Grouping

theorem merge_ok {left right : Scan.Part} {s : Summary} :
    left.merge right = .ok s ↔ ∃ t u, left = .ok t ∧ right = .ok u ∧ s = t.merge u := by
  cases left with
  | error e => simp [Scan.Part.merge]
  | ok t =>
    cases right with
    | error e => simp [Scan.Part.merge]
    | ok u => simp [Scan.Part.merge, eq_comm]

/-- A grouping comes to a sum just if all its parts are sums. -/
theorem result_ok {grouping : Grouping} {s : Summary} :
    grouping.result = .ok s ↔ Sums grouping.parts s := by
  induction grouping generalizing s with
  | nothing => simp [Grouping.result, Grouping.parts, Sums, eq_comm]
  | one part =>
    constructor
    · intro isPart
      exact ⟨[s], congrArg (fun part => [part]) isPart, (Summary.merge_comm ..).trans (Summary.zero_merge s)⟩
    · rintro ⟨summaries, parts, rfl⟩
      obtain ⟨summary, rfl, isPart⟩ := List.map_eq_singleton_iff.mp parts.symm
      rw [sum_cons, sum_nil, Summary.merge_comm, Summary.zero_merge]
      exact isPart.symm
  | both left right first second =>
    rw [Grouping.result, merge_ok]
    constructor
    · rintro ⟨t, u, isLeft, isRight, rfl⟩
      obtain ⟨lefts, leftParts, rfl⟩ := first.mp isLeft
      obtain ⟨rights, rightParts, rfl⟩ := second.mp isRight
      exact ⟨lefts ++ rights, by rw [Grouping.parts, leftParts, rightParts, List.map_append],
        (sum_append ..).symm⟩
    · rintro ⟨summaries, parts, rfl⟩
      obtain ⟨lefts, rights, rfl, leftParts, rightParts⟩ := List.append_eq_map_iff.mp parts
      exact ⟨_, _, first.mpr ⟨lefts, leftParts.symm, rfl⟩, second.mpr ⟨rights, rightParts.symm, rfl⟩,
        sum_append ..⟩

/-- The grouping that adds results to another, one after the other. -/
def addAll (start : Grouping) (parts : List Scan.Part) : Grouping :=
  parts.foldl (fun left part => .both left (.one part)) start

theorem parts_addAll (start : Grouping) (parts : List Scan.Part) :
    (addAll start parts).parts = start.parts ++ parts := by
  induction parts generalizing start with
  | nil => exact (List.append_nil _).symm
  | cons part rest ih => exact (ih _).trans (List.append_assoc ..)

theorem result_addAll (start : Grouping) (parts : List Scan.Part) :
    (addAll start parts).result = parts.foldl Scan.Part.merge start.result := by
  induction parts generalizing start with
  | nil => rfl
  | cons part rest ih => exact ih _

theorem total_ok {parts : List Scan.Part} {s : Summary} :
    Scan.total parts = .ok s ↔ Sums parts s := by
  have added : (addAll .nothing parts).result = Scan.total parts := result_addAll ..
  rw [← added, result_ok, parts_addAll]
  rfl

/-- Neither the order of results nor their grouping has a say in whether they come to a sum, and to
which. -/
theorem total_ok_iff_grouped {parts : List Scan.Part} {grouping : Grouping}
    (same : grouping.parts.Perm parts) {s : Summary} :
    Scan.total parts = .ok s ↔ grouping.result = .ok s := by
  rw [total_ok, result_ok]
  exact ⟨.perm same.symm, .perm same⟩

end BugHunt.Proofs.Groupings
