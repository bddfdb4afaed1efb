import ReacJack.PipeWireFifo

/-! The two rings of the project side by side: interleaved rows against one block for
each channel, a chunked copy against a split one, `size_t` positions against 64-bit
ones. Under the same calls they stay the same queue. -/
namespace ReacJack.TwoRings
open BufferLoops CircularBuffer BoundedFifo TransitionRuns PipeWireRing
open SharedAudio (SharedRing sharedAudioWrite sharedAudioReadInterleaved)
open SharedFifo (Frame block)

variable {w : Nat} {α : Type}

structure Same (pipeWire : AudioRing w α) (shared : SharedRing α) : Prop where
  channels : shared.header.channels = pipeWire.channels.toUInt32
  capacity : shared.header.capacityFrames.toNat = pipeWire.capacityFrames.toNat
  positive : 0 < pipeWire.capacityFrames.toNat
  readPos : shared.header.readPos.toNat = pipeWire.readPos.toNat
  writePos : shared.header.writePos.toNat = pipeWire.writePos.toNat
  ordered : pipeWire.readPos.toNat ≤ pipeWire.writePos.toNat
  bounded : pipeWire.writePos.toNat ≤ pipeWire.readPos.toNat + pipeWire.capacityFrames.toNat
  frames : ∀ p, pipeWire.readPos.toNat ≤ p → p < pipeWire.writePos.toNat → ∀ ch < pipeWire.channels.toNat,
    shared.samples (slot pipeWire.capacityFrames.toNat ch p) =
      pipeWire.samples (p % pipeWire.capacityFrames.toNat * pipeWire.channels.toNat + ch)

structure Pair (w : Nat) (α : Type) where
  pipeWire : AudioRing w α
  shared : SharedRing α
  written : Nat

def opening (pipeWire : AudioRing w α) (shared : SharedRing α) : Pair w α :=
  ⟨pipeWire,shared,pipeWire.writePos.toNat⟩

/-- A write has the channel buffers and the array they are interleaved into, a read the
buffer of either reader. -/
inductive Call (α : Type) where
  | write (channels : Nat → Nat → α) (interleaved : Nat → α) (frames : UInt32)
  | read (out out' : Nat → α) (frames : UInt32)

def sizeOf_ (frames : UInt32) : BitVec w := BitVec.ofNat w frames.toNat

def writePipeWire (ring : AudioRing w α) (channels : Nat → Nat → α) (interleaved : Nat → α) (frames : UInt32) :
    Option (Int × AudioRing w α) :=
  audioRingWrite ring (interleavePacket interleaved channels ring.channels frames.toNat) (sizeOf_ frames)

def step [Zero α] (s : Pair w α) : Call α → Option (Pair w α)
  | .write channels interleaved frames =>
    (writePipeWire s.pipeWire channels interleaved frames).map fun (code,pipeWire) =>
      ⟨pipeWire,(sharedAudioWrite s.shared channels frames).2,
        if code = 0 then s.written + frames.toNat else s.written⟩
  | .read out out' frames =>
    (audioRingRead s.pipeWire out (sizeOf_ frames)).map fun (_,pipeWire,_) =>
      ⟨pipeWire,(sharedAudioReadInterleaved s.shared out' s.pipeWire.channels frames).ring,s.written⟩

def Agree [Zero α] (s : Pair w α) : Call α → Prop
  | .write channels interleaved frames => ∃ code ring,
      writePipeWire s.pipeWire channels interleaved frames = some (code,ring) ∧
      (sharedAudioWrite s.shared channels frames).1 = code ∧
      (code = 0 → EndsWithin (fun c => decide (c.moved < sizeOf_ frames))
        (writeChunk s.pipeWire (interleavePacket interleaved channels s.pipeWire.channels frames.toNat)
          (sizeOf_ frames)) 2 ⟨0,s.pipeWire.samples⟩)
  | .read out out' frames => ∃ count ring heard,
      audioRingRead s.pipeWire out (sizeOf_ frames) = some (count,ring,heard) ∧
      (sharedAudioReadInterleaved s.shared out' s.pipeWire.channels frames).count.toNat = count.toNat ∧
      (∀ i < frames.toNat * s.pipeWire.channels.toNat,
        heard i = (sharedAudioReadInterleaved s.shared out' s.pipeWire.channels frames).out i) ∧
      EndsWithin (fun c => decide (c.moved < count)) (readChunk s.pipeWire count) 2 ⟨0,out⟩

theorem sizeToNat (word : 32 ≤ w) (frames : UInt32) : (sizeOf_ frames : BitVec w).toNat = frames.toNat := by
  have small := frames.toNat_lt
  have wide : 2 ^ 32 ≤ 2 ^ w := Nat.pow_le_pow_right (by decide) word
  rw [sizeOf_, BitVec.toNat_ofNat]
  exact Nat.mod_eq_of_lt (by omega)

theorem sameQueue {pipeWire : AudioRing w α} {shared : SharedRing α} (same : Same pipeWire shared) :
    ∃ q : Queue (Frame α) pipeWire.capacityFrames.toNat,
      PipeWireFifo.Refines pipeWire q ∧ SharedFifo.Refines shared q := by
  let capacity := pipeWire.capacityFrames.toNat
  let stream : List (Frame α) := (List.range pipeWire.writePos.toNat).map fun p ch =>
    pipeWire.samples (p % capacity * pipeWire.channels.toNat + ch)
  have length : stream.length = pipeWire.writePos.toNat := by simp [stream]
  have each : ∀ p frame, stream[p]? = some frame → p < pipeWire.writePos.toNat ∧
      frame = fun ch => pipeWire.samples (p % capacity * pipeWire.channels.toNat + ch) := by
    intro p frame found
    have below := (List.getElem?_eq_some_iff.mp found).1
    rw [length] at below
    simp only [stream, List.getElem?_map, List.getElem?_range below, Option.map_some] at found
    exact ⟨below,(Option.some.inj found).symm⟩
  refine ⟨⟨stream,pipeWire.readPos.toNat,by rw [length]; exact same.ordered,by rw [length]; exact same.bounded⟩,
    ⟨rfl,same.positive,length.symm,rfl,?_⟩,⟨same.capacity,same.positive,?_,same.readPos,?_⟩⟩
  · intro p frame _ found ch _
    obtain ⟨_,rfl⟩ := each p frame found
    rfl
  · exact same.writePos.trans length.symm
  · intro p frame live found ch channel
    obtain ⟨below,rfl⟩ := each p frame found
    rw [same.channels, UInt16.toNat_toUInt32] at channel
    exact same.frames p live below ch channel

theorem queueSame {pipeWire : AudioRing w α} {shared : SharedRing α} {capacity : Nat}
    {q : Queue (Frame α) capacity} (channels : shared.header.channels = pipeWire.channels.toUInt32)
    (left : PipeWireFifo.Refines pipeWire q) (right : SharedFifo.Refines shared q) : Same pipeWire shared := by
  have le := q.takenLe
  have bounded := q.bounded
  have written := left.written
  have taken := left.taken
  have capacityEq := left.capacityEq
  refine ⟨channels,right.capacityEq.trans capacityEq.symm,by rw [capacityEq]; exact left.positive,
    right.taken.trans taken.symm,right.written.trans written.symm,by omega,by omega,?_⟩
  intro p live below ch channel
  have found : q.stream[p]? = some q.stream[p] := List.getElem?_eq_getElem (by omega)
  rw [capacityEq, right.stored p _ (by omega) found ch (by rw [channels, UInt16.toNat_toUInt32]; exact channel),
    left.stored p _ (by omega) found ch channel]

structure Abreast (s : Pair w α) : Prop where
  same : Same s.pipeWire s.shared
  counted : s.written = s.pipeWire.writePos.toNat

theorem stepTotal [Zero α] {s : Pair w α} (positive : 0 < s.pipeWire.capacityFrames.toNat) (call : Call α) :
    ∃ next, step s call = some next ∧ 0 < next.pipeWire.capacityFrames.toNat := by
  cases call with
  | write channels interleaved frames =>
    obtain ⟨code,ring,wrote,capacity⟩ := writeTotal positive
      (interleavePacket interleaved channels s.pipeWire.channels frames.toNat) (sizeOf_ frames)
    exact ⟨_,by rw [step, writePipeWire, wrote]; rfl,by rw [capacity]; exact positive⟩
  | read out out' frames =>
    obtain ⟨heard,read,_⟩ := readSpec positive out (sizeOf_ frames)
    refine ⟨⟨{s.pipeWire with readPos := s.pipeWire.readPos + readCount s.pipeWire (sizeOf_ frames)},
      (sharedAudioReadInterleaved s.shared out' s.pipeWire.channels frames).ring,s.written⟩,?_,positive⟩
    rw [step, read]
    rfl

theorem writeAgrees [Zero α] (word : 32 ≤ w) (narrow : w ≤ 64) {s next : Pair w α} (abreast : Abreast s)
    {channels : Nat → Nat → α} {interleaved : Nat → α} {frames : UInt32}
    (taken : step s (.write channels interleaved frames) = some next) (below : next.written < 2 ^ w) :
    Abreast next ∧ Agree s (.write channels interleaved frames) := by
  obtain ⟨same,counted⟩ := abreast
  obtain ⟨q,left,right⟩ := sameQueue same
  have size : (sizeOf_ frames : BitVec w).toNat = frames.toNat := sizeToNat word frames
  cases offered_ : offer q (block channels frames.toNat) with
  | none =>
    have refused : writePipeWire s.pipeWire channels interleaved frames = some (-1,s.pipeWire) :=
      PipeWireFifo.writeRefusedRefines left _ (show offer q (block channels (sizeOf_ frames : BitVec w).toNat) = none
        by rw [size]; exact offered_)
    have refused' := SharedFifo.writeRefusedRefines right channels offered_
    rw [step, refused, refused'] at taken
    cases Option.some.inj taken
    refine ⟨⟨?_,counted⟩,-1,s.pipeWire,refused,by rw [refused'],fun zero => absurd zero (by decide)⟩
    exact ⟨same.channels,same.capacity,same.positive,same.readPos,same.writePos,same.ordered,same.bounded,
      same.frames⟩
  | some q' =>
    obtain ⟨fits,stream,_⟩ := offered offered_
    rw [SharedFifo.blockLength] at fits
    have wide : 2 ^ w ≤ 2 ^ 64 := Nat.pow_le_pow_right (by decide) narrow
    have written := left.written
    have total : q'.stream.length = q.stream.length + frames.toNat := by
      rw [stream, List.length_append, SharedFifo.blockLength]
    have rows : ∀ f < (sizeOf_ frames : BitVec w).toNat, ∀ ch < s.pipeWire.channels.toNat,
        interleavePacket interleaved channels s.pipeWire.channels frames.toNat
          (f * s.pipeWire.channels.toNat + ch) = channels ch f := by
      intro f inside ch channel
      exact rowsFilledAt interleaved channels (by omega) channel
    have room : (sizeOf_ frames : BitVec w).toNat ≤ s.pipeWire.capacityFrames.toNat - fill s.pipeWire := by
      rw [size, PipeWireFifo.refinesFill left]
      exact fits
    obtain ⟨_,moves,_⟩ := writeAccepted same.positive (PipeWireFifo.refinesBounded left).2
      (interleavePacket interleaved channels s.pipeWire.channels frames.toNat) room
    rw [step, writePipeWire, moves] at taken
    cases Option.some.inj taken
    simp only [if_true] at below
    obtain ⟨ring,wrote,kept,shape⟩ := PipeWireFifo.writeRefines left rows (by rw [size]; exact offered_) (by omega)
    obtain ⟨accepted,kept'⟩ := SharedFifo.writeRefines right offered_ (by omega)
    cases Option.some.inj (moves.symm.trans wrote)
    refine ⟨⟨queueSame ?_ kept kept',?_⟩,0,_,wrote,accepted,?_⟩
    · rw [SharedAudio.writeAccepted (SharedFifo.refinesSound right) channels
        (by rw [right.capacityEq, SharedFifo.refinesFill right]; exact fits)]
      exact same.channels
    · have after := kept.written
      simp only [if_true] at after ⊢
      omega
    · intro _
      exact twoRounds _ _ (fun _ => rfl) same.positive (by omega) (by omega)

theorem readAgrees [Zero α] (word : 32 ≤ w) {s next : Pair w α} (abreast : Abreast s) {out out' : Nat → α}
    {frames : UInt32} (taken : step s (.read out out' frames) = some next) :
    Abreast next ∧ Agree s (.read out out' frames) := by
  obtain ⟨same,counted⟩ := abreast
  obtain ⟨q,left,right⟩ := sameQueue same
  have size : (sizeOf_ frames : BitVec w).toNat = frames.toNat := sizeToNat word frames
  have count := readCountToNat s.pipeWire (sizeOf_ frames)
  have count' := SharedAudio.readCountToNat (SharedFifo.refinesSound right) frames
  have below := s.pipeWire.writePos.isLt
  have written := left.written
  have readAt_ := left.taken
  have sum := takenAddFill q
  have le := fillLeCapacity q
  have width : s.shared.header.channels.toNat = s.pipeWire.channels.toNat := by
    rw [same.channels, UInt16.toNat_toUInt32]
  rw [PipeWireFifo.refinesFill left] at count
  rw [SharedFifo.refinesFill right] at count'
  obtain ⟨ring,heard,read,kept,shape,rows⟩ := PipeWireFifo.readRefines left out (sizeOf_ frames)
  have kept' := SharedFifo.finishReadRefines right frames
  rw [step, read] at taken
  cases Option.some.inj taken
  rw [size] at kept rows
  refine ⟨⟨queueSame (by rw [shape]; exact same.channels) kept kept',?_⟩,_,ring,heard,read,?_,?_,?_⟩
  · have after := kept.written
    simp only [advance] at after ⊢
    omega
  · rw [SharedAudio.readInterleavedCount]
    omega
  · intro i inside
    have channel : 0 < s.pipeWire.channels.toNat := by
      by_contra none
      rw [Nat.eq_zero_of_not_pos none, Nat.mul_zero] at inside
      omega
    obtain ⟨cell,column⟩ := cellOf channel i
    have row : i / s.pipeWire.channels.toNat < frames.toNat := Nat.div_lt_of_lt_mul (by rw [Nat.mul_comm]; exact inside)
    rw [← cell, rows _ row _ column]
    exact (SharedFifo.readInterleavedFrame right out' row (by omega) column).symm
  · exact twoRounds _ _ (fun _ => rfl) same.positive (by omega) (by omega)

theorem writtenGrows [Zero α] {s next : Pair w α} {call : Call α} (taken : step s call = some next) :
    s.written ≤ next.written := by
  cases call with
  | write channels interleaved frames =>
    obtain ⟨result,_,rfl⟩ := Option.map_eq_some_iff.mp taken
    simp only
    split <;> omega
  | read out out' frames =>
    obtain ⟨result,_,rfl⟩ := Option.map_eq_some_iff.mp taken
    exact Nat.le_refl _

theorem stepAgrees [Zero α] (word : 32 ≤ w) (narrow : w ≤ 64) {s next : Pair w α} (abreast : Abreast s)
    {call : Call α} (taken : step s call = some next) (below : next.written < 2 ^ w) :
    Abreast next ∧ Agree s call := by
  cases call with
  | write channels interleaved frames => exact writeAgrees word narrow abreast taken below
  | read out out' frames => exact readAgrees word abreast taken

theorem runTotal [Zero α] {s : Pair w α} (positive : 0 < s.pipeWire.capacityFrames.toNat) (calls : List (Call α)) :
    ∃ final, run step s calls = some final := by
  induction calls generalizing s with
  | nil => exact ⟨s,rfl⟩
  | cons call rest ih =>
    obtain ⟨next,taken,kept⟩ := stepTotal positive call
    obtain ⟨final,reached⟩ := ih kept
    exact ⟨final,by rw [run, taken]; exact reached⟩

theorem runAgrees [Zero α] (word : 32 ≤ w) (narrow : w ≤ 64) {s final : Pair w α} (abreast : Abreast s)
    {calls : List (Call α)} (reached : run step s calls = some final) (below : final.written < 2 ^ w) :
    Abreast final :=
  runInvariantWhile (I := Abreast) (W := fun s => s.written < 2 ^ w)
    (fun _ _ _ taken below => (writtenGrows taken).trans_lt below)
    (fun _ _ _ abreast below taken => (stepAgrees word narrow abreast taken below).1) abreast reached below

theorem runGrows [Zero α] {s final : Pair w α} {calls : List (Call α)} (reached : run step s calls = some final) :
    s.written ≤ final.written :=
  runInvariant (I := fun t => s.written ≤ t.written) (fun _ _ _ before taken => before.trans (writtenGrows taken))
    (Nat.le_refl _) reached

/-- Every sequence of writes and reads goes through on both rings. As long as no position
passes the wrap of `size_t`, they answer every call alike and hold the same frames after it. -/
theorem ringsAgree [Zero α] (word : 32 ≤ w) (narrow : w ≤ 64) {pipeWire : AudioRing w α} {shared : SharedRing α}
    (same : Same pipeWire shared) (calls : List (Call α)) :
    ∃ final, run step (opening pipeWire shared) calls = some final ∧ (final.written < 2 ^ w →
      Same final.pipeWire final.shared ∧
      ∀ before call after, calls = before ++ call :: after →
        ∃ reached, run step (opening pipeWire shared) before = some reached ∧
          Same reached.pipeWire reached.shared ∧ Agree reached call) := by
  have start : Abreast (opening pipeWire shared) := ⟨same,rfl⟩
  obtain ⟨final,through⟩ := runTotal (s := opening pipeWire shared) same.positive calls
  refine ⟨final,through,fun below => ⟨(runAgrees word narrow start through below).same,?_⟩⟩
  rintro before call after rfl
  obtain ⟨reached,here,later⟩ := runSplit through
  obtain ⟨next,taken,rest⟩ := runCons later
  have small := (runGrows rest).trans_lt below
  have abreast := runAgrees word narrow start here ((writtenGrows taken).trans_lt small)
  exact ⟨reached,here,abreast.same,(stepAgrees word narrow abreast taken small).2⟩

theorem startSame [Zero α] (sampleRate : UInt32) (channels : UInt16) {capacityFrames : UInt32} {size : BitVec w}
    (equal : size.toNat = capacityFrames.toNat) (positive : 0 < capacityFrames.toNat) :
    Same (audioRingInit channels size : AudioRing w α)
      (SharedAudio.sharedAudioCreate sampleRate channels capacityFrames) := by
  refine ⟨rfl,equal.symm,?_,?_,?_,?_,?_,fun _ _ _ _ _ => rfl⟩
  · change 0 < size.toNat
    omega
  all_goals simp [audioRingInit, SharedAudio.sharedAudioCreate]

def overTheEnd : List (Call Int) :=
  let tone : Nat → Nat → Int := fun ch f => 100 * ch + f
  [.write tone (fun _ => 7) 2,.read (fun _ => 8) (fun _ => 9) 1,.write tone (fun _ => 7) 2,
    .read (fun _ => 8) (fun _ => 9) 5]

theorem ringsAgreeOverTheEnd : ∃ final,
    run step (opening (audioRingInit 2 3#32) (SharedAudio.sharedAudioCreate 48000 2 3)) overTheEnd = some final ∧
      Same final.pipeWire final.shared := by
  obtain ⟨final,through,agree⟩ := ringsAgree (by decide) (by decide)
    (startSame 48000 2 (show (3#32).toNat = (3 : UInt32).toNat by decide) (by decide)) overTheEnd
  have written : (run step (opening (audioRingInit 2 3#32) (SharedAudio.sharedAudioCreate 48000 2 3))
      overTheEnd).map Pair.written = some 4 := by decide +kernel
  rw [through] at written
  have below : final.written < 2 ^ 32 := by
    rw [Option.some.inj written]
    decide
  exact ⟨final,through,(agree below).1⟩

end ReacJack.TwoRings
