import BugHunt.Proofs.DerivedNames
import BugHunt.Proofs.Sparing
/-!
The inputs of a dispatch and the names that it writes to. No input has one of these names, and what
is found where no way leads on is an entry of its own name, unless the path ends at a link.
-/

namespace BugHunt.Proofs.Origins
open Collecting DerivedNames FileTree Grounds Names Places Reducing Sparing Succeeding Texts
open VariantKeys Walking Ways

/-! ## Names -/

variable {c : Config} {a : Artifact} {v : Variant} {p : Path}

/-- The kind of a program is told by its last name. -/
theorem kind_congr {q : Path} (same : p.fileName? = q.fileName?) : Kind.ofPath? p = Kind.ofPath? q := by
  unfold Kind.ofPath? Path.extension?
  rw [same]

/-- No program has its own name with a sign in front of it. -/
theorem fileName_ne_signed (p : Path) {sign : String} (some : sign ≠ "") :
    p.fileName? ≠ Option.some (utf8 (sign ++ p.name)) := by
  cases named : p.fileName? with
  | none => exact nofun
  | some name =>
    rw [show p.name = Text.lossy name by rw [Path.name, named]]
    exact fun same => lossy_ne_prefixed some (Option.some.inj same)

/-- Nor has it its own stem with a sign in front of it. -/
theorem fileName_ne_stemmed {kind : Kind} (isKind : Kind.ofPath? p = some kind) {sign extension : String}
    (signed : sign ≠ "") (plain : Path.dot ∉ utf8 extension) :
    p.fileName? ≠ some (utf8 (sign ++ Plan.stemOf p ++ "." ++ extension)) := by
  obtain ⟨stem, own, programmed⟩ := programmed_of_kind isKind
  have bytes : utf8 (sign ++ Plan.stemOf p ++ "." ++ extension) =
      utf8 (sign ++ Plan.stemOf p) ++ Path.dot :: utf8 extension := by
    simp [utf8_dot]
  rw [programmed.named, bytes, Passages.stemOf_program programmed]
  intro same
  have names := Option.some.inj same
  obtain rfl := extension_unique programmed.plain plain names
  exact lossy_ne_prefixed signed (List.append_cancel_right names)

/-- The name of the text beside the copy that is kept. -/
def textName (v : Variant) : String := "interesting-" ++ Plan.stemOf v.irPath ++ "." ++ "ll"

/-- The name of the bitcode of what IR is reduced to. -/
def bitcodeName (ir : Path) : String := "reduced-" ++ Plan.stemOf ir ++ "." ++ "bc"

theorem bitcodePath_eq (c : Config) (ir : Path) :
    bitcodePath c ir = outputDirectory c / bitcodeName ir := by
  have ending : "." ++ "bc" = ".bc" := by decide
  have stem : Plan.stemOf (reducedIrPath c ir) = "reduced-" ++ Plan.stemOf ir :=
    stemOf_reducedIr _ ir
  rw [bitcodePath, stem, bitcodeName, String.append_assoc, ending]
  simp

theorem textPath_eq (planned : Planned c a v) : textPath c v = c.outputRoot / textName v := by
  obtain ⟨kind, isKind, -⟩ := planned.isIr
  obtain ⟨stem, extension, name, named, clean, isStem, known⟩ := name_of_programmed isKind
  obtain ⟨-, plain, cleanExtension⟩ := plain_of_known known
  have signed : Stem (utf8 ("interesting-" ++ stem)) := signed_stem (by decide) (by decide) clean
  rw [textPath, keptPath, keptName_eq, Variant.name, name, ← String.append_assoc, ← String.append_assoc,
    textName, isStem]
  exact entry_withExtension c.outputRoot signed cleanExtension plain (by decide)

/-! ## The inputs of a dispatch -/

/-- Whether no input of a dispatch has a name. -/
def Foreign (a : Artifact) (v : Variant) (name : String) : Prop :=
  ∀ path ∈ [a.path, v.irPath], path.fileName? ≠ some (utf8 name)

section Foreign

variable (planned : Planned c a v)
include planned

/-- Names of IR that the variant's IR does not have are foreign: a source has another kind. -/
theorem foreign_of_ir {name : String} {kind : Kind} (proper : Proper (utf8 name))
    (own : v.irPath.fileName? ≠ some (utf8 name))
    (isKind : Kind.ofPath? (⟨[]⟩ / Path.ofString name) = some kind) (ir : kind.isIr) :
    Foreign a v name := by
  intro path among named
  simp only [List.mem_cons, List.not_mem_nil, or_false] at among
  rcases among with rfl | rfl
  · cases isSource : a.isSource with
    | false => exact own (planned.ir isSource ▸ named)
    | true =>
      have same : Kind.ofPath? a.path = some kind := by
        rw [← isKind]
        exact kind_congr (named.trans (entry_fileName _ proper).symm)
      obtain rfl := Option.some.inj (a.kind_of_path.symm.trans same)
      have isSource : a.kind.isSource := isSource
      simp [Kind.isIr, isSource] at ir
  · exact own named

theorem keptName_clean : '/' ∉ v.name.toList := by
  obtain ⟨kind, isKind, -⟩ := planned.isIr
  obtain ⟨stem, extension, programmed⟩ := programmed_of_kind isKind
  exact slash_notMem_name programmed.named

theorem kept_foreign : Foreign a v (Reduce.keptName v) := by
  obtain ⟨kind, isKind, ir⟩ := planned.isIr
  refine foreign_of_ir planned (keptName_proper (keptName_clean planned)) ?_
    ((planned.kept _).trans isKind) ir
  rw [keptName_eq, Variant.name]
  exact fileName_ne_signed v.irPath (by decide)

/-- A stem with a sign in front of it is a name of IR, and foreign. -/
theorem stemmed_foreign {sign extension : String} {kind : Kind} (signed : sign ≠ "")
    (clean : '/' ∉ sign.toList) (known : Kind.ofExtension? extension = some kind) (ir : kind.isIr) :
    Proper (utf8 (sign ++ Plan.stemOf v.irPath ++ "." ++ extension)) ∧
      Foreign a v (sign ++ Plan.stemOf v.irPath ++ "." ++ extension) := by
  obtain ⟨own, isOwn, -⟩ := planned.isIr
  obtain ⟨-, plain, cleanExtension⟩ := plain_of_known known
  have stemmed : sign ++ Plan.stemOf v.irPath ≠ "" := fun empty =>
    signed (String.append_eq_empty_iff.mp empty).1
  have programmed := entry_programmed ⟨[]⟩ stemmed
    (by simp [clean, slash_notMem_stemOf]) known
  have bytes : utf8 (sign ++ Plan.stemOf v.irPath ++ "." ++ extension) =
      utf8 (sign ++ Plan.stemOf v.irPath) ++ Path.dot :: utf8 extension := by
    simp [utf8_dot]
  have proper : Proper (utf8 (sign ++ Plan.stemOf v.irPath ++ "." ++ extension)) :=
    bytes ▸ programmed.proper
  exact ⟨proper, foreign_of_ir planned proper (fileName_ne_stemmed isOwn signed plain)
    (kind_of_programmed programmed) ir⟩

theorem text_foreign : Proper (utf8 (textName v)) ∧ Foreign a v (textName v) :=
  stemmed_foreign planned (by decide) (by decide) (show _ = some Kind.textIr by decide) rfl

theorem bitcode_foreign : Proper (utf8 (bitcodeName v.irPath)) ∧ Foreign a v (bitcodeName v.irPath) :=
  stemmed_foreign planned (by decide) (by decide) (show _ = some Kind.binaryIr by decide) rfl

theorem ir_foreign : Foreign a v (Reduce.irName v.irPath) :=
  irName_eq v.irPath ▸
    (stemmed_foreign planned (by decide) (by decide) (show _ = some Kind.textIr by decide) rfl).2

theorem source_foreign : Foreign a v (Reduce.sourceName a) := by
  intro path among named
  have own : a.path.fileName? ≠ some (utf8 (Reduce.sourceName a)) := by
    rw [sourceName_eq, Artifact.name]
    exact fileName_ne_signed a.path (by decide)
  simp only [List.mem_cons, List.not_mem_nil, or_false] at among
  rcases among with rfl | rfl
  · exact own named
  · cases isSource : a.isSource with
    | false => exact own (planned.ir isSource ▸ named)
    | true =>
      have same : Kind.ofPath? v.irPath = some a.kind := by
        rw [← source_kind ⟨[]⟩ a]
        exact kind_congr (named.trans (entry_fileName _ (sourceName_proper a)).symm)
      have binary := Option.some.inj ((planned.source isSource).symm.trans same)
      have isSource : a.kind.isSource := isSource
      rw [← binary] at isSource
      cases isSource

end Foreign

/-! ## Where inputs lie -/

variable {t : FileTree} {here q : Place} {links : Nat}

/-- A path that goes on after its last name leads to a directory, if it finds anything. -/
theorem directory_of_idle {ps : List Bytes} {piece : Bytes} (last : ps.getLast? = some piece)
    (idle : Path.isIdle piece) {node : Node} (found : t.walk true links here ps = .ok ⟨q, some node⟩) :
    t.isDirectoryAt q := by
  have dots : Path.isIdle [Path.dot, Path.dot] = false := by decide
  -- An idle piece stays where it is, in a directory; all others are followed by more.
  fun_induction FileTree.walk t true links here ps with
  | case1 => cases last
  | case3 links here first rest there skipped ih =>
    cases rest with
    | nil => grind [FileTree.walk]
    | cons second rest => grind
  | case4 links here rest there busy ih => cases rest <;> grind
  | _ => grind

/-- A path with a last name that finds something where no way leads on ends in that name. -/
theorem ends_of_found {name : Bytes} {node : Node} (named : p.fileName? = some name)
    (inert : Inert (t.node? q)) (found : t.find here p true = .ok ⟨q, some node⟩) :
    ∃ pre, Ends p pre name := by
  have busy : p.pieces.getLast?.any Path.isIdle = false := by
    by_contra idle
    obtain ⟨piece, last, idle⟩ : ∃ piece, p.pieces.getLast? = some piece ∧ Path.isIdle piece := by
      simpa [Option.any_eq_true] using idle
    have there : t.isDirectoryAt q := directory_of_idle last idle (find_eq_ok.mp found).2.2
    rw [FileTree.isDirectoryAt, inert.noDirectory] at there
    cases there
  obtain ⟨pre, pieces⟩ := pieces_of_fileName named busy
  exact ⟨pre, pieces, proper_of_fileName? named⟩

/-- A program that is found where no way leads on is an entry of its own name, if its path ends at no
link. -/
theorem entry_of_found {name : Bytes} {node : Node} (named : p.fileName? = some name)
    (unlinked : Unlinked t here p) (inert : Inert (t.node? q))
    (found : t.find here p true = .ok ⟨q, some node⟩) : ∃ d, q = d ++ [name] := by
  obtain ⟨pre, ends⟩ := ends_of_found named inert found
  obtain ⟨d, entries⟩ := entries_of_found (.refl t) ends found
  have isEntry := ((entries p name true ends).1 (.inr unlinked)).symm.trans found
  exact ⟨d, (Target.mk.inj (entry_eq_ok isEntry).1).1⟩

end BugHunt.Proofs.Origins
