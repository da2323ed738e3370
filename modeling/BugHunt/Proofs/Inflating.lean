import BugHunt.Gzip.Inflate
/-!
Decoding with less at hand. Of the front part of a stream, or with less room for what comes of it,
decoding comes to what it would come to otherwise, or it stops early for want of just that; what it
has put out by then is a front part of the whole.
-/

namespace BugHunt.Proofs.Inflating
open Gzip

/-- What there may be less of. -/
inductive Want where
  | input
  | room

def Want.stop : Want → Stop
  | input => .starved
  | room => .full

/-- Two points of decoding that differ only in how much there is of something. -/
structure Less (w : Want) (s t : Decoding) : Prop where
  taken : s.taken = t.taken
  output : s.output = t.output
  input : s.input = t.input ∨ w = .input ∧ s.input.toList <+: t.input.toList
  room : s.room = t.room ∨ w = .room ∧ s.room ≤ t.room

/-- The point that decoding comes to, whether it goes on from there or not. -/
def left : EStateM.Result Stop Decoding α → Decoding
  | .ok _ s | .error _ s => s

/-- How decoding with less ends beside how it ends otherwise. -/
inductive Beside (w : Want) :
    EStateM.Result Stop Decoding α → EStateM.Result Stop Decoding α → Prop
  | ok {s t : Decoding} (value : α) (less : Less w s t) : Beside w (.ok value s) (.ok value t)
  | error {s t : Decoding} (stop : Stop) (less : Less w s t) :
    Beside w (.error stop s) (.error stop t)
  | early {s : Decoding} {r : EStateM.Result Stop Decoding α}
    (front : s.output.toList <+: (left r).output.toList) : Beside w (.error w.stop s) r

/-- What decoding does to output and room: it only adds to the one, leaves the other, and stops for
want of room where none is left. -/
structure Adds (s : Decoding) (r : EStateM.Result Stop Decoding α) : Prop where
  output : s.output.toList <+: (left r).output.toList
  room : (left r).room = s.room
  full : ∀ t, r = .error .full t → s.room ≤ t.output.size

/-- Whether a decoder `d` with less comes to what `d'` comes to, or stops early. -/
structure Steady (w : Want) (d d' : Decoder α) : Prop where
  beside : ∀ s t, Less w s t → Beside w (d s) (d' t)
  adds : ∀ t, Adds t (d' t)

/-! ## Parts put together -/

section Rules

variable {w : Want} {d d' : Decoder α} {f f' : α → Decoder β}

theorem Steady.pure (value : α) : Steady w (pure value : Decoder α) (pure value) where
  beside _ _ less := .ok value less
  adds _ := ⟨List.prefix_refl _, rfl, nofun⟩

theorem Steady.throw (stop : Stop) (short : stop ≠ .full) :
    Steady w (throw stop : Decoder α) (throw stop) where
  beside _ _ less := .error stop less
  adds _ := by
    refine ⟨List.prefix_refl _, rfl, ?_⟩
    rintro t same
    cases same
    exact absurd rfl short

/-- With rounds left over, decoding that is out of rounds may go on. -/
theorem Steady.outrun (grows : ∀ t, Adds t (d' t)) :
    Steady .input (MonadExcept.throw Stop.starved : Decoder α) d' where
  beside _ t less := .early (less.output ▸ (grows t).output)
  adds := grows

theorem Adds.bind {s : Decoding} (first : Adds s (d s)) (second : ∀ value t, Adds t (f value t)) :
    Adds s ((d >>= f) s) := by
  show Adds s (EStateM.bind d f s)
  unfold EStateM.bind
  cases ran : d s with
  | ok value t =>
    rw [ran] at first
    have rest := second value t
    refine ⟨first.output.trans rest.output, rest.room.trans first.room, fun u full => ?_⟩
    rw [← first.room]
    exact rest.full u full
  | error stop t =>
    rw [ran] at first
    refine ⟨first.output, first.room, fun u full => ?_⟩
    cases full
    exact first.full t rfl

theorem Steady.bind (first : Steady w d d') (second : ∀ value, Steady w (f value) (f' value)) :
    Steady w (d >>= f) (d' >>= f') where
  adds t := (first.adds t).bind fun value u => (second value).adds u
  beside s t less := by
    show Beside w (EStateM.bind d f s) (EStateM.bind d' f' t)
    unfold EStateM.bind
    have beside := first.beside s t less
    generalize d s = r at beside
    generalize d' t = r' at beside
    cases beside with
    | ok value less => exact (second value).beside _ _ less
    | error stop less => exact .error stop less
    | early front =>
      cases r' with
      | ok value u => exact .early (front.trans ((second value).adds u).output)
      | error stop u => exact .early front

/-- A decoder may look at what has been put out. -/
theorem Steady.reading {g g' : Array UInt8 → Decoder α}
    (each : ∀ output, Steady w (g output) (g' output)) :
    Steady w (fun s => g s.output s) (fun s => g' s.output s) where
  beside s t less := by
    show Beside w (g s.output s) (g' t.output t)
    rw [less.output]
    exact (each t.output).beside s t less
  adds t := (each t.output).adds t

end Rules

/-! ## The decoders -/

variable {w : Want}

theorem Less.step {s t : Decoding} (less : Less w s t) :
    Less w { s with taken := s.taken + 1 } { t with taken := t.taken + 1 } :=
  ⟨congrArg (· + 1) less.taken, less.output, less.input, less.room⟩

theorem bit_steady : Steady w Decoder.bit Decoder.bit where
  beside s t less := by
    have here : s.input[s.taken / 8]? = t.input[t.taken / 8]? ∨
        w = .input ∧ s.input[s.taken / 8]? = none := by
      rw [less.taken]
      rcases less.input with same | ⟨rfl, front⟩
      · exact .inl (by rw [same])
      · rw [← Array.getElem?_toList, ← Array.getElem?_toList]
        obtain ⟨more, whole⟩ := front
        rw [← whole]
        by_cases within : t.taken / 8 < s.input.toList.length
        · exact .inl (List.getElem?_append_left within).symm
        · exact .inr ⟨rfl, List.getElem?_eq_none (Nat.le_of_not_lt within)⟩
    unfold Decoder.bit
    rcases here with same | ⟨rfl, none⟩
    · rw [same]
      cases t.input[t.taken / 8]? with
      | none => exact .error .starved less
      | some b =>
        have value : b.toNat >>> (s.taken % 8) % 2 = b.toNat >>> (t.taken % 8) % 2 := by
          rw [less.taken]
        dsimp only
        rw [value]
        exact .ok _ less.step
    · rw [none]
      refine .early ?_
      rw [less.output]
      split <;> exact List.prefix_refl _
  adds t := by
    unfold Decoder.bit
    split <;> exact ⟨List.prefix_refl _, rfl, nofun⟩

theorem bits_steady (n : Nat) : Steady w (Decoder.bits n) (Decoder.bits n) := by
  induction n with
  | zero => exact .pure 0
  | succ n ih => exact .bind bit_steady fun _ => .bind ih fun _ => .pure _

theorem align_steady : Steady w Decoder.align Decoder.align where
  beside _ _ less :=
    .ok () ⟨congrArg (fun n => (n + 7) / 8 * 8) less.taken, less.output, less.input, less.room⟩
  adds _ := ⟨List.prefix_refl _, rfl, nofun⟩

theorem emit_adds (b : UInt8) (t : Decoding) : Adds t (Decoder.emit b t) := by
  unfold Decoder.emit
  split
  · refine ⟨?_, rfl, nofun⟩
    simp [left]
  · rename_i full
    refine ⟨List.prefix_refl _, rfl, ?_⟩
    rintro u same
    cases same
    exact Nat.le_of_not_lt full

theorem Less.push {s t : Decoding} (less : Less w s t) (b : UInt8) :
    Less w { s with output := s.output.push b } { t with output := t.output.push b } :=
  ⟨less.taken, congrArg (·.push b) less.output, less.input, less.room⟩

theorem emit_steady (b : UInt8) : Steady w (Decoder.emit b) (Decoder.emit b) where
  adds := emit_adds b
  beside s t less := by
    have adds := emit_adds b t
    rw [show Decoder.emit b s = if t.output.size < s.room
      then .ok () { s with output := s.output.push b } else .error .full s by
        rw [← less.output]; rfl]
    by_cases here : t.output.size < s.room
    · have there : t.output.size < t.room := by
        rcases less.room with same | ⟨-, fits⟩ <;> omega
      rw [if_pos here, Decoder.emit, if_pos there]
      exact .ok () (less.push b)
    · rw [if_neg here]
      rcases less.room with same | ⟨rfl, -⟩
      · rw [Decoder.emit, if_neg (same ▸ here)]
        exact .error .full less
      · exact .early (less.output ▸ adds.output)

theorem copy_steady (distance count : Nat) :
    Steady w (Decoder.copy distance count) (Decoder.copy distance count) := by
  induction count with
  | zero => exact .pure ()
  | succ count ih =>
    exact .reading (g := fun output => do
      Decoder.emit (if distance ≤ output.size then output.getD (output.size - distance) 0 else 0)
      Decoder.copy distance count) fun _ => .bind (emit_steady _) fun _ => ih

theorem readFrom_steady (c : Code) (first code index : Nat) (counts : List Nat) :
    Steady w (c.readFrom first code index counts) (c.readFrom first code index counts) := by
  induction counts generalizing first code index with
  | nil => exact .throw _ (by decide)
  | cons count counts ih =>
    refine .bind bit_steady fun low => ?_
    dsimp only
    split
    · split
      · exact .pure _
      · exact .throw _ (by decide)
    · exact ih _ _ _

theorem read_steady (c : Code) : Steady w c.read c.read := readFrom_steady c _ _ _ _

theorem baseAndExtra_steady (table : Array (Nat × Nat)) (symbol : Nat) :
    Steady w (baseAndExtra table symbol) (baseAndExtra table symbol) := by
  unfold baseAndExtra
  split
  · exact .throw _ (by decide)
  · exact .bind (bits_steady _) fun _ => .pure _

/-- How many rounds there are: as many with less room, no more with less input. -/
def Rounds (w : Want) (n n' : Nat) : Prop := n = n' ∨ w = .input ∧ n ≤ n'

theorem Rounds.succ {n n' : Nat} (rounds : Rounds w (n + 1) (n' + 1)) : Rounds w n n' :=
  rounds.imp Nat.succ.inj fun more => ⟨more.1, Nat.le_of_succ_le_succ more.2⟩

theorem Rounds.not_zero {n : Nat} (rounds : Rounds w (n + 1) 0) : False := by
  rcases rounds with same | ⟨-, more⟩ <;> omega

/-- Decoders that go on in rounds, and are starved when these are used up. -/
theorem steady_of_rounds (d d' : ι → Nat → Decoder α)
    (spent : ∀ i, d i 0 = throw .starved) (spent' : ∀ i, d' i 0 = throw .starved)
    (round : ∀ {n n'}, (∀ i, Steady w (d i n) (d' i n')) →
      ∀ i, Steady w (d i (n + 1)) (d' i (n' + 1)))
    (whole : ∀ {n}, (∀ i, Steady .room (d' i n) (d' i n)) →
      ∀ i, Steady .room (d' i (n + 1)) (d' i (n + 1)))
    {n n' : Nat} (rounds : Rounds w n n') (i : ι) : Steady w (d i n) (d' i n') := by
  have alone (n : Nat) : ∀ i, Steady .room (d' i n) (d' i n) := by
    induction n with
    | zero =>
      intro i
      rw [spent']
      exact .throw _ (by decide)
    | succ n ih => exact whole ih
  induction n generalizing n' i with
  | zero =>
    rw [spent]
    rcases rounds with rfl | ⟨rfl, -⟩
    · rw [spent']
      exact .throw _ (by decide)
    · exact .outrun (alone n' i).adds
  | succ n ih =>
    cases n' with
    | zero => exact rounds.not_zero.elim
    | succ n' => exact round (fun i => ih rounds.succ i) i

theorem symbols_round (literals distances : Code) {n n' : Nat}
    (more : Steady w (symbols literals distances n) (symbols literals distances n')) :
    Steady w (symbols literals distances (n + 1)) (symbols literals distances (n' + 1)) := by
  refine .bind (read_steady _) fun symbol => ?_
  split
  · exact .bind (emit_steady _) fun _ => more
  · split
    · exact .pure ()
    · exact .bind (baseAndExtra_steady _ _) fun _ => .bind (read_steady _) fun _ =>
        .bind (baseAndExtra_steady _ _) fun _ => .bind (copy_steady _ _) fun _ => more

theorem symbols_steady (literals distances : Code) {n n' : Nat} (rounds : Rounds w n n') :
    Steady w (symbols literals distances n) (symbols literals distances n') :=
  steady_of_rounds (fun _ : Unit => symbols literals distances)
    (fun _ => symbols literals distances) (fun _ => rfl) (fun _ => rfl)
    (fun more _ => symbols_round _ _ (more ())) (fun more _ => symbols_round _ _ (more ())) rounds ()

theorem readLengths_round (code : Code) (wanted : Nat) {n n' : Nat}
    (more : ∀ done, Steady w (readLengths code done wanted n) (readLengths code done wanted n'))
    (done : List Nat) :
    Steady w (readLengths code done wanted (n + 1)) (readLengths code done wanted (n' + 1)) := by
  unfold readLengths
  split
  · exact .pure _
  · split
    · exact .throw _ (by decide)
    · refine .bind (read_steady _) fun symbol => ?_
      split
      · exact more _
      · split
        · cases done with
          | nil => exact .throw _ (by decide)
          | cons last earlier => exact .bind (bits_steady _) fun _ => more _
        · split <;> exact .bind (bits_steady _) fun _ => more _

theorem readLengths_steady (code : Code) (done : List Nat) (wanted : Nat) {n n' : Nat}
    (rounds : Rounds w n n') :
    Steady w (readLengths code done wanted n) (readLengths code done wanted n') :=
  steady_of_rounds (fun done => readLengths code done wanted)
    (fun done => readLengths code done wanted) (fun _ => rfl) (fun _ => rfl)
    (readLengths_round code wanted) (readLengths_round code wanted) rounds done

theorem readList_steady (width n : Nat) : Steady w (readList width n) (readList width n) := by
  induction n with
  | zero => exact .pure []
  | succ n ih => exact .bind (bits_steady _) fun _ => .bind ih fun _ => .pure _

theorem soundCode_steady (lengths : List Nat) : Steady w (soundCode lengths) (soundCode lengths) := by
  unfold soundCode
  dsimp only
  split
  · exact .pure _
  · exact .throw _ (by decide)

theorem dynamicCodes_steady {n n' : Nat} (rounds : Rounds w n n') :
    Steady w (dynamicCodes n) (dynamicCodes n') := by
  refine .bind (bits_steady _) fun _ => .bind (bits_steady _) fun _ =>
    .bind (bits_steady _) fun _ => ?_
  dsimp only
  split
  · exact .throw _ (by decide)
  · exact .bind (readList_steady _ _) fun _ => .bind (soundCode_steady _) fun _ =>
      .bind (readLengths_steady _ _ _ rounds) fun _ => .bind (soundCode_steady _) fun _ =>
        .bind (soundCode_steady _) fun _ => .pure _

theorem storedBytes_steady (n : Nat) : Steady w (storedBytes n) (storedBytes n) := by
  induction n with
  | zero => exact .pure ()
  | succ n ih => exact .bind (bits_steady _) fun _ => .bind (emit_steady _) fun _ => ih

theorem block_steady {n n' : Nat} (rounds : Rounds w n n') : Steady w (block n) (block n') := by
  refine .bind bit_steady fun last => .bind (bits_steady _) fun kind => ?_
  dsimp only
  split
  · refine .bind align_steady fun _ => .bind (bits_steady _) fun _ =>
      .bind (bits_steady _) fun _ => ?_
    split
    · exact .throw _ (by decide)
    · exact .bind (storedBytes_steady _) fun _ => .pure _
  · exact .bind (symbols_steady _ _ rounds) fun _ => .pure _
  · exact .bind (dynamicCodes_steady rounds) fun _ =>
      .bind (symbols_steady _ _ rounds) fun _ => .pure _
  · exact .throw _ (by decide)

theorem blocks_round {r r' n n' : Nat} (rounds : Rounds w r r')
    (more : Steady w (blocks r n) (blocks r' n')) :
    Steady w (blocks r (n + 1)) (blocks r' (n' + 1)) := by
  refine .bind (block_steady rounds) fun last => ?_
  split
  · exact align_steady
  · exact more

theorem blocks_steady {r r' n n' : Nat} (inner : Rounds w r r') (rounds : Rounds w n n') :
    Steady w (blocks r n) (blocks r' n') :=
  steady_of_rounds (fun _ : Unit => blocks r) (fun _ => blocks r')
    (fun _ => rfl) (fun _ => rfl) (fun more _ => blocks_round inner (more ()))
    (fun more _ => blocks_round (.inl rfl) (more ())) rounds ()

/-! ## Whole streams -/

/-- How decoding with less ends beside how it ends otherwise, all told. -/
inductive Cut (w : Want) (found : Inflated) : Inflated → Prop
  | whole : Cut w found found
  | early {whole : Inflated} (stop : found.stop = w.stop)
    (front : found.output.toList <+: whole.output.toList) : Cut w found whole

/-- Decoding that did not stop early is the whole. -/
theorem Cut.eq {found whole : Inflated} (cut : Cut w found whole) (through : found.stop ≠ w.stop) :
    whole = found := by
  cases cut with
  | whole => rfl
  | early stop => exact absurd stop through

theorem inflate_cut {room room' : Nat} {input input' : Bytes}
    (less : Less w ⟨input.toArray, 0, #[], room⟩ ⟨input'.toArray, 0, #[], room'⟩)
    (rounds : Rounds w (8 * input.length + 1) (8 * input'.length + 1)) :
    Cut w (inflate room input) (inflate room' input') := by
  have beside := (blocks_steady rounds rounds).beside _ _ less
  unfold inflate
  dsimp only
  generalize blocks _ _ ⟨input.toArray, 0, #[], room⟩ = r at beside
  generalize blocks _ _ ⟨input'.toArray, 0, #[], room'⟩ = r' at beside
  cases beside with
  | ok value less =>
    dsimp only
    rw [less.output, less.taken]
    exact .whole
  | error stop less =>
    dsimp only
    rw [less.output, less.taken]
    exact .whole
  | early front =>
    refine .early rfl ?_
    cases r' <;> exact front

/-- Decoding the front part of a stream. -/
theorem inflate_front (room : Nat) {front whole : Bytes} (cut : front <+: whole) :
    Cut .input (inflate room front) (inflate room whole) :=
  inflate_cut ⟨rfl, rfl, .inr ⟨rfl, cut⟩, .inl rfl⟩
    (.inr ⟨rfl, by have := cut.length_le; omega⟩)

/-- Decoding with less room. -/
theorem inflate_tight {room room' : Nat} (less : room ≤ room') (input : Bytes) :
    Cut .room (inflate room input) (inflate room' input) :=
  inflate_cut ⟨rfl, rfl, .inl rfl, .inr ⟨rfl, less⟩⟩ (.inl rfl)

/-- Decoding that stops for want of room has filled it. -/
theorem full_of_inflate (room : Nat) (input : Bytes) (full : (inflate room input).stop = .full) :
    room ≤ (inflate room input).output.size := by
  have same : Rounds .room (8 * input.length + 1) (8 * input.length + 1) := .inl rfl
  have adds := (blocks_steady same same).adds ⟨input.toArray, 0, #[], room⟩
  revert full
  unfold inflate
  dsimp only
  cases ran : blocks (8 * input.length + 1) (8 * input.length + 1)
      ⟨input.toArray, 0, #[], room⟩ with
  | ok value s => nofun
  | error stop s =>
    rintro rfl
    exact adds.full s ran

end BugHunt.Proofs.Inflating
