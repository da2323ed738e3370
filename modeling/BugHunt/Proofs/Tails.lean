import BugHunt.Proofs.Texts
import BugHunt.Tool
/-!
The tail of a tool's output: a cut that falls inside a character leaves continuation bytes, each of
which is shown as one replacement character, and nothing else of the text is touched.
-/

namespace BugHunt.Proofs.Tails
open Texts

/-- A character is spelled with a lead byte and at most three continuation bytes. -/
theorem utf8EncodeChar_lead (c : Char) : ∃ lead more, String.utf8EncodeChar c = lead :: more ∧
    more.length ≤ 3 ∧ ∀ b ∈ more, Text.isContinuation b := by
  have continues (v : Nat) : Text.isContinuation (UInt8.ofNat (v % 0x40 + 0x80)) := by
    have value := @toNat_ofNat (v % 0x40 + 0x80) (by omega)
    apply isContinuation_of_toNat <;> rw [value] <;> omega
  unfold String.utf8EncodeChar
  dsimp only
  split
  · exact ⟨_, _, rfl, by simp, by simp⟩
  · split
    · refine ⟨_, _, rfl, by simp, ?_⟩
      intro b found
      rw [List.mem_singleton.mp found]
      exact continues _
    · split
      · refine ⟨_, _, rfl, by simp, ?_⟩
        intro b found
        simp only [List.mem_cons, List.not_mem_nil, or_false] at found
        rcases found with rfl | rfl <;> exact continues _
      · refine ⟨_, _, rfl, by simp, ?_⟩
        intro b found
        simp only [List.mem_cons, List.not_mem_nil, or_false] at found
        rcases found with rfl | rfl | rfl <;> exact continues _

/-- What is left of a text's bytes behind a cut: the end of the character that the cut falls into,
and the characters after it. -/
theorem drop_utf8 (chars : List Char) (cut : Nat) :
    ∃ front back ends, chars = front ++ back ∧ ends.length ≤ 3 ∧
      (∀ b ∈ ends, Text.isContinuation b) ∧
      (chars.flatMap String.utf8EncodeChar).drop cut =
        ends ++ back.flatMap String.utf8EncodeChar := by
  induction chars generalizing cut with
  | nil => exact ⟨[], [], [], rfl, by simp, by simp, by simp⟩
  | cons c rest ih =>
    obtain ⟨lead, more, bytes, short, continues⟩ := utf8EncodeChar_lead c
    cases cut with
    | zero => exact ⟨[], c :: rest, [], rfl, by simp, by simp, rfl⟩
    | succ cut =>
      rw [List.flatMap_cons, bytes, List.cons_append, List.drop_succ_cons]
      rcases Nat.le_total cut more.length with inside | beyond
      · -- The cut falls into this character, or right behind it.
        refine ⟨[c], rest, more.drop cut, rfl, ?_, ?_, List.drop_append_of_le_length inside⟩
        · exact Nat.le_trans (List.drop_sublist ..).length_le short
        · intro b found
          exact continues b (List.mem_of_mem_drop found)
      · obtain ⟨front, back, ends, parts, few, all, dropped⟩ := ih (cut - more.length)
        refine ⟨c :: front, back, ends, by rw [parts]; rfl, few, all, ?_⟩
        rw [List.drop_append, List.drop_eq_nil_of_le beyond, List.nil_append, dropped]

/-- A continuation byte that follows nothing is a run of its own. -/
theorem scan_continuation {b : UInt8} (continues : Text.isContinuation b) (rest : Bytes) :
    Text.scan b rest = (.illFormed [b], 0) := by
  simp only [Text.isContinuation, Bool.and_eq_true, decide_eq_true_eq, UInt8.le_iff_toNat_le,
    UInt8.reduceToNat] at continues
  have none : Text.trailCount b = none := by
    rw [trailCount_of_toNat, if_neg (by omega), if_neg (by omega), if_neg (by omega),
      if_neg (by omega)]
  rw [Text.scan, none]

theorem chunks_continuations {ends : Bytes} (continues : ∀ b ∈ ends, Text.isContinuation b)
    (rest : Bytes) :
    Text.chunks (ends ++ rest) = ends.map (fun b => .illFormed [b]) ++ Text.chunks rest := by
  induction ends with
  | nil => rfl
  | cons b ends ih =>
    have first := scan_continuation (continues b List.mem_cons_self) (ends ++ rest)
    have others := ih fun b found => continues b (List.mem_cons_of_mem _ found)
    rw [List.cons_append, chunks_cons, first, List.drop_zero, others]
    rfl

/-- Each of the continuation bytes in front of a text is replaced, and the text stays. -/
theorem lossy_continuations {ends : Bytes} (continues : ∀ b ∈ ends, Text.isContinuation b)
    (text : String) : Text.lossy (ends ++ utf8 text) =
      String.ofList (List.replicate ends.length '\uFFFD') ++ text := by
  have shown : (Text.chunks (utf8 text)).map Text.Chunk.shown = text.toList := by
    have same := congrArg String.toList (lossy_utf8 text)
    rwa [Text.lossy, String.toList_ofList] at same
  have replaced : (ends.map fun b => Text.Chunk.illFormed [b]).map Text.Chunk.shown =
      List.replicate ends.length '\uFFFD' := by
    rw [List.map_map]
    exact List.map_const' ..
  rw [Text.lossy, chunks_continuations continues, List.map_append, shown, replaced,
    String.ofList_append, String.ofList_toList]

theorem takeLast_min (most : Nat) (bytes : Bytes) :
    bytes.takeLast (min most bytes.length) = bytes.takeLast most := by
  unfold Bytes.takeLast
  congr 1
  omega

/-- The last bytes of a text, as many as `most`, are shown as at most three replacement characters
and an end of the text. -/
theorem lossy_takeLast (text : String) (most : Nat) :
    ∃ k front back, text = front ++ back ∧ k ≤ 3 ∧
      k + (utf8 back).length = min most (utf8 text).length ∧
      Text.lossy ((utf8 text).takeLast most) =
        String.ofList (List.replicate k '\uFFFD') ++ back := by
  obtain ⟨front, back, ends, parts, few, continues, dropped⟩ :=
    drop_utf8 text.toList ((utf8 text).length - most)
  have last : (utf8 text).takeLast most = ends ++ utf8 (String.ofList back) := by
    rw [Bytes.takeLast, utf8, utf8, String.toList_ofList]
    exact dropped
  refine ⟨ends.length, String.ofList front, String.ofList back, ?_, few, ?_, ?_⟩
  · rw [← String.ofList_append, ← parts, String.ofList_toList]
  · rw [← Bytes.takeLast_length, last, List.length_append]
  · rw [last, lossy_continuations continues]

/-- The last `most` bytes of an output, or all of them if there are fewer. -/
def lastBytes (o : Output) (most : Nat) : Bytes :=
  let bytes := o.stdout ++ o.stderr
  bytes.drop (bytes.length - min most bytes.length)

/-- The tail of an output is a text that depends on nothing but its last bytes. Of an output that
is text the tail is an end of the text behind one replacement character, up to three, for each
byte left of a character that was cut. -/
theorem tail_of_last_bytes (o : Output) (most : Nat) :
    (∀ (o' : Output) (most' : Nat), lastBytes o' most' = lastBytes o most →
      o'.tail most' = o.tail most) ∧
    Text.decode? (utf8 (o.tail most)) = some (o.tail most) ∧
    ∀ text : String, o.stdout ++ o.stderr = utf8 text →
      (∃ k front back, text = front ++ back ∧ k ≤ 3 ∧
        k + (utf8 back).length = min most (utf8 text).length ∧
        o.tail most = String.ofList (List.replicate k '\uFFFD') ++ back) ∧
      ((utf8 text).length ≤ most → o.tail most = text) := by
  have tail_eq (o : Output) (most : Nat) : o.tail most = Text.lossy (lastBytes o most) := by
    rw [Output.tail, ← takeLast_min]
    rfl
  refine ⟨?_, decode?_utf8 _, ?_⟩
  · intro o' most' same
    rw [tail_eq, tail_eq, same]
  · intro text whole
    refine ⟨?_, ?_⟩
    · rw [Output.tail, whole]
      exact lossy_takeLast text most
    · intro fits
      rw [Output.tail, whole, Bytes.takeLast_of_le fits, lossy_utf8]

/-- A character whose bytes come half on one stream and half on the other, cut behind its first
byte. -/
theorem tail_across_streams :
    let o : Output := ⟨[0x61, 0xF0, 0x9F], [0x98, 0x80, 0x62], some 1, none⟩
    o.stdout ++ o.stderr = utf8 "a😀b" ∧
      ∃ k front back, "a😀b" = front ++ back ∧ k ≤ 3 ∧ k + (utf8 back).length = 4 ∧
        o.tail 4 = String.ofList (List.replicate k '\uFFFD') ++ back := by
  refine ⟨by decide, ?_⟩
  exact ((tail_of_last_bytes ⟨[0x61, 0xF0, 0x9F], [0x98, 0x80, 0x62], some 1, none⟩ 4).2.2 "a😀b"
    (by decide)).1

example : Output.tail ⟨[0x61, 0xF0, 0x9F], [0x98, 0x80, 0x62], some 1, none⟩ 4 =
    "\uFFFD\uFFFD\uFFFDb" := by cbv

end BugHunt.Proofs.Tails
