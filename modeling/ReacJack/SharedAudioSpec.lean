import ReacJack.SharedAudio

/-! One specification per ring operation, in natural numbers. `Sound` needs no
order between the two positions, only that their distance in 64-bit arithmetic
fits the ring, so what is said about fills also holds across the counters' wrap. -/
namespace ReacJack.SharedAudio
open BufferLoops CircularBuffer

variable {α : Type}

def fill (h : Header) : Nat := (h.writePos - h.readPos).toNat

structure Sound (h : Header) : Prop where
  positive : 0 < h.capacityFrames.toNat
  bounded : fill h ≤ h.capacityFrames.toNat

theorem writableToNat {h : Header} (sound : Sound h) :
    (sharedAudioWritableFrames h).toNat = h.capacityFrames.toNat - fill h := by
  have bounded := sound.bounded
  have small := h.capacityFrames.toNat_lt
  unfold sharedAudioWritableFrames fill at *
  simp only [UInt32.toNat_sub, UInt64.toNat_toUInt32]
  omega

theorem indexToNat (pos : UInt64) {capacity : UInt32} (positive : 0 < capacity.toNat) :
    (ringIndex pos capacity).toNat = pos.toNat % capacity.toNat := by
  have small := capacity.toNat_lt
  have inside := Nat.mod_lt pos.toNat positive
  simp only [ringIndex, UInt64.toNat_toUInt32, UInt64.toNat_mod, UInt32.toNat_toUInt64]
  exact Nat.mod_eq_of_lt (by omega)

theorem subToNat {a b : UInt32} (le : b.toNat ≤ a.toNat) : (a - b).toNat = a.toNat - b.toNat :=
  UInt32.toNat_sub_of_le a b (UInt32.le_iff_toNat_le.mpr le)

theorem firstToNat (frames : UInt32) {capacity index : UInt32} (inside : index.toNat < capacity.toNat) :
    (firstPart frames capacity index).toNat = min frames.toNat (capacity.toNat - index.toNat) := by
  have room := subToNat (Nat.le_of_lt inside)
  unfold firstPart
  split <;> rename_i h <;> rw [UInt32.lt_iff_toNat_lt, room] at h <;> omega

theorem toReadToNat {h : Header} (sound : Sound h) (frames : UInt32) :
    (toRead (h.writePos - h.readPos) frames).toNat = min (fill h) frames.toNat := by
  have bounded := sound.bounded
  have small := h.capacityFrames.toNat_lt
  unfold toRead fill at *
  split <;> rename_i less <;>
    simp only [UInt64.lt_iff_toNat_lt, UInt32.toNat_toUInt64, UInt64.toNat_toUInt32] at * <;> omega

theorem writeRefused {ring : SharedRing α} (sound : Sound ring.header) (channels : Nat → Nat → α)
    {frames : UInt32} (full : ring.header.capacityFrames.toNat - fill ring.header < frames.toNat) :
    sharedAudioWrite ring channels frames =
      (-1, {ring with header := {ring.header with overruns := ring.header.overruns + 1}}) := by
  rw [← writableToNat sound, ← UInt32.lt_iff_toNat_lt] at full
  exact if_pos full

theorem writeChannelCircular (samples src : Nat → α) (base : Nat) {frames capacity index : UInt32}
    (inside : index.toNat < capacity.toNat) :
    writeChannel samples base index (firstPart frames capacity index) frames src =
      copyIn samples base capacity.toNat index.toNat frames.toNat src := by
  have first := firstToNat frames inside
  simp only [writeChannel, copyIn, ← first]
  split
  · rename_i less
    rw [UInt32.lt_iff_toNat_lt] at less
    rw [subToNat (by omega)]
  · rename_i all
    rw [UInt32.lt_iff_toNat_lt] at all
    have nothing : frames.toNat - (firstPart frames capacity index).toNat = 0 := by omega
    rw [nothing, memcpyNothing]

theorem writeAccepted {ring : SharedRing α} (sound : Sound ring.header) (channels : Nat → Nat → α)
    {frames : UInt32} (fits : frames.toNat ≤ ring.header.capacityFrames.toNat - fill ring.header) :
    sharedAudioWrite ring channels frames = (0, {
      samples := copyInAll ring.samples ring.header.channels.toNat ring.header.capacityFrames.toNat
        (ring.header.writePos.toNat % ring.header.capacityFrames.toNat) frames.toNat channels
      header := {ring.header with writePos := ring.header.writePos + frames.toUInt64}}) := by
  have room : ¬ sharedAudioWritableFrames ring.header < frames := by
    rw [UInt32.lt_iff_toNat_lt, writableToNat sound]
    omega
  have index := indexToNat ring.header.writePos sound.positive
  have inside := Nat.mod_lt ring.header.writePos.toNat sound.positive
  rw [← index] at inside
  simp only [sharedAudioWrite, room, if_false, copyInAll, writeChannelCircular _ _ _ inside, index]

theorem distanceTake {w r k : UInt64} (le : k.toNat ≤ (w - r).toNat) :
    (w - (r + k)).toNat = (w - r).toNat - k.toNat := by
  have := w.toNat_lt
  have := r.toNat_lt
  have := k.toNat_lt
  simp only [UInt64.toNat_sub, UInt64.toNat_add] at *
  omega

theorem distanceGive {w r k : UInt64} (small : (w - r).toNat + k.toNat < 2 ^ 64) :
    (w + k - r).toNat = (w - r).toNat + k.toNat := by
  have := w.toNat_lt
  have := r.toNat_lt
  have := k.toNat_lt
  simp only [UInt64.toNat_sub, UInt64.toNat_add] at *
  omega

theorem finishReadFill {h : Header} (sound : Sound h) (frames : UInt32) :
    fill (finishRead h h.readPos (toRead (h.writePos - h.readPos) frames) frames) = fill h - frames.toNat := by
  have count := toReadToNat sound frames
  have taken := distanceTake (w := h.writePos) (r := h.readPos)
    (k := (toRead (h.writePos - h.readPos) frames).toUInt64)
    (by rw [UInt32.toNat_toUInt64, count]; exact Nat.min_le_left _ _)
  rw [UInt32.toNat_toUInt64, count] at taken
  simp only [fill, finishRead, taken]
  omega

theorem finishReadSound {h : Header} (sound : Sound h) (frames : UInt32) :
    Sound (finishRead h h.readPos (toRead (h.writePos - h.readPos) frames) frames) := by
  refine ⟨sound.positive,?_⟩
  rw [finishReadFill sound]
  have := sound.bounded
  simp only [finishRead]
  omega

def ringSample (ring : SharedRing α) (ch frame : Nat) : α :=
  ring.samples (ch * ring.header.capacityFrames.toNat +
    (ringIndex (ring.header.readPos + UInt64.ofNat frame) ring.header.capacityFrames).toNat)

def readCount (h : Header) (frames : UInt32) : UInt32 := toRead (h.writePos - h.readPos) frames

theorem readCountToNat {h : Header} (sound : Sound h) (frames : UInt32) :
    (readCount h frames).toNat = min (fill h) frames.toNat := toReadToNat sound frames

theorem readCountLe (h : Header) (frames : UInt32) : (readCount h frames).toNat ≤ frames.toNat := by
  unfold readCount toRead
  split
  · rename_i less
    rw [UInt64.lt_iff_toNat_lt, UInt32.toNat_toUInt64] at less
    rw [UInt64.toNat_toUInt32]
    exact (Nat.mod_le _ _).trans (Nat.le_of_lt less)
  · exact Nat.le_refl _

theorem readInterleavedTable [Zero α] (ring : SharedRing α) (out : Nat → α) (outChannels : UInt16)
    (frames : UInt32) :
    (sharedAudioReadInterleaved ring out outChannels frames).out =
      fillColumns outChannels.toNat (min ring.header.channels.toNat outChannels.toNat)
        (readCount ring.header frames).toNat (ringSample ring)
        (memset out 0 0 (frames.toNat * outChannels.toNat)) := by
  have narrow : (if ring.header.channels < outChannels.toUInt32 then ring.header.channels
      else outChannels.toUInt32).toNat = min ring.header.channels.toNat outChannels.toNat := by
    split <;> rename_i h <;>
      simp only [UInt32.lt_iff_toNat_lt, UInt16.toNat_toUInt32] at * <;> omega
  rw [← narrow]
  rfl

theorem readInterleavedAt [Zero α] (ring : SharedRing α) (out : Nat → α) (outChannels : UInt16)
    (frames : UInt32) {frame ch : Nat} (inside : frame < frames.toNat) (channel : ch < outChannels.toNat) :
    (sharedAudioReadInterleaved ring out outChannels frames).out (frame * outChannels.toNat + ch) =
      if ch < ring.header.channels.toNat ∧ frame < (readCount ring.header frames).toNat
      then ringSample ring ch frame else 0 := by
  have silent := cellBound inside channel
  rw [readInterleavedTable, fillColumnsAt _ _ (Nat.min_le_right _ _) channel,
    memsetInside _ _ (Nat.zero_le _) (by omega)]
  refine if_congr ?_ rfl rfl
  omega

theorem readInterleavedBeyond [Zero α] (ring : SharedRing α) (out : Nat → α) {outChannels : UInt16}
    {frames : UInt32} {i : Nat} (beyond : frames.toNat * outChannels.toNat ≤ i) :
    (sharedAudioReadInterleaved ring out outChannels frames).out i = out i := by
  have short := Nat.mul_le_mul_right outChannels.toNat (readCountLe ring.header frames)
  rw [readInterleavedTable, fillColumnsOutside _ _ (Nat.min_le_right _ _) (by omega),
    memsetOutside _ _ (by omega)]

theorem readInterleavedCount [Zero α] (ring : SharedRing α) (out : Nat → α) (outChannels : UInt16)
    (frames : UInt32) : (sharedAudioReadInterleaved ring out outChannels frames).count =
      readCount ring.header frames := rfl

theorem readInterleavedRing [Zero α] (ring : SharedRing α) (out : Nat → α) (outChannels : UInt16)
    (frames : UInt32) : (sharedAudioReadInterleaved ring out outChannels frames).ring =
      {ring with header :=
        finishRead ring.header ring.header.readPos (readCount ring.header frames) frames} := rfl

theorem readChannelCircular [Zero α] (buffer samples : Nat → α) (base : Nat)
    {count frames capacity index : UInt32} (inside : index.toNat < capacity.toNat)
    (le : count.toNat ≤ frames.toNat) :
    readChannel buffer samples base index (firstPart count capacity index) count frames =
      memset (copyOut buffer samples base capacity.toNat index.toNat count.toNat) count.toNat 0
        (frames.toNat - count.toNat) := by
  have first := firstToNat count inside
  have copied : (if firstPart count capacity index < count then
      memcpy (memcpy buffer 0 (fun i => samples (base + index.toNat + i)) (firstPart count capacity index).toNat)
        (firstPart count capacity index).toNat (fun i => samples (base + i))
        (count - firstPart count capacity index).toNat
      else memcpy buffer 0 (fun i => samples (base + index.toNat + i)) (firstPart count capacity index).toNat) =
      copyOut buffer samples base capacity.toNat index.toNat count.toNat := by
    simp only [copyOut, ← first]
    split
    · rename_i less
      rw [UInt32.lt_iff_toNat_lt] at less
      rw [subToNat (by omega)]
    · rename_i all
      rw [UInt32.lt_iff_toNat_lt] at all
      have nothing : count.toNat - (firstPart count capacity index).toNat = 0 := by omega
      rw [nothing, memcpyNothing]
  simp only [readChannel, copied]
  split
  · rw [subToNat le]
  · rename_i all
    rw [UInt32.lt_iff_toNat_lt] at all
    have nothing : frames.toNat - count.toNat = 0 := by omega
    rw [nothing, memset, memcpyNothing]

theorem readColumn [Zero α] (ring : SharedRing α) (channels : Nat → Nat → α) (frames : UInt32) (ch : Nat) :
    (sharedAudioRead ring channels frames).out ch =
      if ch < ring.header.channels.toNat then
        readChannel (channels ch) ring.samples (ch * ring.header.capacityFrames.toNat)
          (ringIndex ring.header.readPos ring.header.capacityFrames)
          (firstPart (readCount ring.header frames) ring.header.capacityFrames
            (ringIndex ring.header.readPos ring.header.capacityFrames))
          (readCount ring.header frames) frames
      else channels ch :=
  loopEach ring.header.channels.toNat (fun ch buffer =>
    readChannel buffer ring.samples (ch * ring.header.capacityFrames.toNat)
      (ringIndex ring.header.readPos ring.header.capacityFrames)
      (firstPart (readCount ring.header frames) ring.header.capacityFrames
        (ringIndex ring.header.readPos ring.header.capacityFrames))
      (readCount ring.header frames) frames) channels ch

theorem readAt [Zero α] {ring : SharedRing α} (sound : Sound ring.header) (channels : Nat → Nat → α)
    (frames : UInt32) {ch f : Nat} (channel : ch < ring.header.channels.toNat) (inside : f < frames.toNat) :
    (sharedAudioRead ring channels frames).out ch f =
      if f < (readCount ring.header frames).toNat then
        ring.samples (slot ring.header.capacityFrames.toNat ch (ring.header.readPos.toNat + f))
      else 0 := by
  have bounded := sound.bounded
  have count := readCountToNat sound frames
  have index := indexToNat ring.header.readPos sound.positive
  have small := Nat.mod_lt ring.header.readPos.toNat sound.positive
  rw [← index] at small
  rw [readColumn, if_pos channel, readChannelCircular _ _ _ small (by omega)]
  split
  · rename_i real
    rw [memsetOutside _ _ (by omega), index, copyOutAt _ _ (by omega) real, slot]
  · rw [memsetInside _ _ (by omega) (by omega)]

theorem readBeyond [Zero α] (ring : SharedRing α) (channels : Nat → Nat → α) (frames : UInt32) {ch : Nat}
    (beyond : ring.header.channels.toNat ≤ ch) :
    (sharedAudioRead ring channels frames).out ch = channels ch := by
  rw [readColumn, if_neg (by omega)]

theorem ringSampleAt {ring : SharedRing α} (positive : 0 < ring.header.capacityFrames.toNat)
    {ch frame : Nat} (unwrapped : ring.header.readPos.toNat + frame < 2 ^ 64) :
    ringSample ring ch frame =
      ring.samples (slot ring.header.capacityFrames.toNat ch (ring.header.readPos.toNat + frame)) := by
  rw [ringSample, indexToNat _ positive, slot, UInt64.toNat_add, UInt64.toNat_ofNat']
  congr 3
  omega

theorem seekCount {ring : SharedRing α} (sound : Sound ring.header) (targetFill : UInt32) :
    (sharedAudioSeekToFill ring targetFill).1.toNat = min (fill ring.header) targetFill.toNat := by
  have bounded := sound.bounded
  have small := ring.header.capacityFrames.toNat_lt
  simp only [sharedAudioSeekToFill, fill] at *
  split <;> rename_i less <;>
    simp only [UInt64.lt_iff_toNat_lt, UInt32.toNat_toUInt64, UInt64.toNat_toUInt32] at * <;> omega

theorem seekRing (ring : SharedRing α) (targetFill : UInt32) :
    (sharedAudioSeekToFill ring targetFill).2 = {ring with header := {ring.header with
      readPos := ring.header.writePos - (sharedAudioSeekToFill ring targetFill).1.toUInt64,
      resets := ring.header.resets + 1}} := rfl

theorem seekFill {ring : SharedRing α} (sound : Sound ring.header) (targetFill : UInt32) :
    fill (sharedAudioSeekToFill ring targetFill).2.header = min (fill ring.header) targetFill.toNat := by
  have count := seekCount sound targetFill
  have := ring.header.writePos.toNat_lt
  have := (sharedAudioSeekToFill ring targetFill).1.toNat_lt
  rw [seekRing, ← count]
  simp only [fill, UInt64.toNat_sub, UInt32.toNat_toUInt64]
  omega

theorem tooFullIff (h : Header) (targetFill tolerance : UInt32) :
    tooFull (h.writePos - h.readPos) targetFill tolerance = true ↔
      targetFill.toNat + tolerance.toNat < fill h := by
  have := targetFill.toNat_lt
  have := tolerance.toNat_lt
  simp only [tooFull, fill, decide_eq_true_eq, UInt64.lt_iff_toNat_lt, UInt64.toNat_add,
    UInt32.toNat_toUInt64]
  omega

theorem tooEmptyIff {h : Header} (sound : Sound h) (targetFill tolerance : UInt32) :
    tooEmpty (h.writePos - h.readPos) targetFill tolerance = true ↔
      fill h + tolerance.toNat < targetFill.toNat := by
  have := tolerance.toNat_lt
  have := h.capacityFrames.toNat_lt
  have := sound.bounded
  simp only [tooEmpty, fill, decide_eq_true_eq, UInt64.lt_iff_toNat_lt, UInt64.toNat_add,
    UInt32.toNat_toUInt64] at *
  omega

theorem clampCorrectionToNat (frames : UInt32) :
    (clampCorrection frames).toNat = min frames.toNat 8 := by
  have eight : maxCorrection.toNat = 8 := rfl
  unfold clampCorrection
  split <;> rename_i h <;> rw [UInt32.lt_iff_toNat_lt] at h <;> omega

theorem excessCorrection {h : Header} (sound : Sound h) {targetFill : UInt32}
    (above : targetFill.toNat ≤ fill h) :
    (clampCorrection (h.writePos - h.readPos - targetFill.toUInt64).toUInt32).toNat =
      min (fill h - targetFill.toNat) 8 := by
  have := sound.bounded
  have := h.capacityFrames.toNat_lt
  have excess := UInt64.toNat_sub_of_le (h.writePos - h.readPos) targetFill.toUInt64
    (by rw [UInt64.le_iff_toNat_le, UInt32.toNat_toUInt64]; exact above)
  rw [clampCorrectionToNat, UInt64.toNat_toUInt32, excess, UInt32.toNat_toUInt64]
  unfold fill at *
  omega

theorem regulatedDrop [Zero α] {ring : SharedRing α} (sound : Sound ring.header) (out : Nat → α)
    (outChannels : UInt16) (frames : UInt32) {targetFill tolerance : UInt32}
    (full : targetFill.toNat + tolerance.toNat < fill ring.header) :
    ∃ drop : UInt32, drop.toNat = min (fill ring.header - targetFill.toNat) 8 ∧
      sharedAudioReadInterleavedRegulated ring out outChannels frames targetFill tolerance =
        sharedAudioReadInterleaved (dropFrames ring ring.header.readPos drop) out outChannels frames := by
  refine ⟨clampCorrection (ring.header.writePos - ring.header.readPos - targetFill.toUInt64).toUInt32,?_,?_⟩
  · exact excessCorrection sound (by omega)
  · rw [← tooFullIff] at full
    simp only [sharedAudioReadInterleavedRegulated, full, if_true]

theorem regulatedInsert [Zero α] {ring : SharedRing α} (sound : Sound ring.header) (out : Nat → α)
    (outChannels : UInt16) {frames targetFill tolerance : UInt32}
    (low : fill ring.header + tolerance.toNat < targetFill.toNat) (wanted : 0 < frames.toNat) :
    ∃ insert : UInt32, insert.toNat = min (min (targetFill.toNat - fill ring.header) 8) frames.toNat ∧
      sharedAudioReadInterleavedRegulated ring out outChannels frames targetFill tolerance =
        fillTail (sharedAudioReadInterleaved ring out outChannels (frames - insert)) outChannels
          (frames - insert) insert := by
  have notFull : ¬ tooFull (ring.header.writePos - ring.header.readPos) targetFill tolerance = true := by
    rw [tooFullIff]
    omega
  have deficit := UInt64.toNat_sub_of_le targetFill.toUInt64 (ring.header.writePos - ring.header.readPos)
    (by rw [UInt64.le_iff_toNat_le, UInt32.toNat_toUInt64]; unfold fill at *; omega)
  rw [UInt32.toNat_toUInt64] at deficit
  rw [← tooEmptyIff sound] at low
  rw [← UInt32.toNat_zero, ← UInt32.lt_iff_toNat_lt] at wanted
  let insert := clampCorrection (targetFill.toUInt64 - (ring.header.writePos - ring.header.readPos)).toUInt32
  refine ⟨if frames < insert then frames else insert,?_,?_⟩
  · have := targetFill.toNat_lt
    have clamped : insert.toNat = min (targetFill.toNat - fill ring.header) 8 := by
      rw [clampCorrectionToNat, UInt64.toNat_toUInt32, deficit]
      unfold fill
      omega
    split <;> rename_i h <;> rw [UInt32.lt_iff_toNat_lt] at h <;> omega
  · simp only [sharedAudioReadInterleavedRegulated, notFull, low, wanted, decide_true, Bool.and_self,
      if_true, if_false, Bool.false_eq_true]
    rfl

theorem regulatedHold [Zero α] {ring : SharedRing α} (sound : Sound ring.header) (out : Nat → α)
    (outChannels : UInt16) {frames targetFill tolerance : UInt32}
    (high : fill ring.header ≤ targetFill.toNat + tolerance.toNat)
    (low : targetFill.toNat ≤ fill ring.header + tolerance.toNat ∨ frames.toNat = 0) :
    sharedAudioReadInterleavedRegulated ring out outChannels frames targetFill tolerance =
      sharedAudioReadInterleaved ring out outChannels frames := by
  have notFull : ¬ tooFull (ring.header.writePos - ring.header.readPos) targetFill tolerance = true := by
    rw [tooFullIff]
    omega
  have notEmpty : ¬ (tooEmpty (ring.header.writePos - ring.header.readPos) targetFill tolerance &&
      decide (0 < frames)) = true := by
    rw [Bool.and_eq_true, tooEmptyIff sound, decide_eq_true_eq, UInt32.lt_iff_toNat_lt, UInt32.toNat_zero]
    omega
  simp only [sharedAudioReadInterleavedRegulated, notFull, notEmpty, if_false, Bool.false_eq_true]

theorem dropFill {ring : SharedRing α} {drop : UInt32} (le : drop.toNat ≤ fill ring.header) :
    fill (dropFrames ring ring.header.readPos drop).header = fill ring.header - drop.toNat := by
  have taken := distanceTake (w := ring.header.writePos) (r := ring.header.readPos) (k := drop.toUInt64)
    (by rw [UInt32.toNat_toUInt64]; exact le)
  rw [UInt32.toNat_toUInt64] at taken
  exact taken

theorem dropSound {ring : SharedRing α} {drop : UInt32} (sound : Sound ring.header)
    (le : drop.toNat ≤ fill ring.header) : Sound (dropFrames ring ring.header.readPos drop).header := by
  have := sound.bounded
  refine ⟨sound.positive,?_⟩
  rw [dropFill le]
  change fill ring.header - drop.toNat ≤ ring.header.capacityFrames.toNat
  omega

theorem fillTailCount [Zero α] (r : ReadResult α (Nat → α)) (outChannels : UInt16) (kept insert : UInt32) :
    (fillTail r outChannels kept insert).count = r.count := by
  unfold fillTail
  split <;> rfl

theorem fillTailRing [Zero α] (r : ReadResult α (Nat → α)) (outChannels : UInt16) (kept insert : UInt32) :
    (fillTail r outChannels kept insert).ring =
      if 0 < r.count then {r.ring with header := {r.ring.header with
        insertedFrames := r.ring.header.insertedFrames + insert.toUInt64}} else r.ring := by
  unfold fillTail
  split <;> rfl

theorem fillTailOutside [Zero α] (r : ReadResult α (Nat → α)) {outChannels : UInt16} {kept insert : UInt32}
    {i : Nat} (outside : i < kept.toNat * outChannels.toNat ∨
      (kept.toNat + insert.toNat) * outChannels.toNat ≤ i) :
    (fillTail r outChannels kept insert).out i = r.out i := by
  rw [Nat.add_mul] at outside
  unfold fillTail
  split
  · refine loopInvariant (P := fun _ (b : Nat → α) => b i = r.out i) rfl ?_
    intro k b below before
    have row := Nat.mul_le_mul_right outChannels.toNat (show k + 1 ≤ insert.toNat from below)
    rw [Nat.add_mul, Nat.one_mul] at row
    rw [memcpyOutside _ _ (by omega), before]
  · exact memsetOutside _ _ (by omega)

theorem fillTailCopies [Zero α] (r : ReadResult α (Nat → α)) {outChannels : UInt16} {kept insert : UInt32}
    {j ch : Nat} (real : r.count.toNat ≤ kept.toNat) (inside : j < insert.toNat)
    (channel : ch < outChannels.toNat) :
    (fillTail r outChannels kept insert).out ((kept.toNat + j) * outChannels.toNat + ch) =
      if 0 < r.count.toNat then r.out ((r.count.toNat - 1) * outChannels.toNat + ch) else 0 := by
  have address : (kept.toNat + j) * outChannels.toNat + ch =
      kept.toNat * outChannels.toNat + (j * outChannels.toNat + ch) := by ring
  have below := cellBound inside channel
  unfold fillTail
  by_cases some : 0 < r.count
  · have last : (r.count - 1).toNat = r.count.toNat - 1 := by
      rw [UInt32.lt_iff_toNat_lt, UInt32.toNat_zero] at some
      rw [subToNat (by rw [UInt32.toNat_one]; omega), UInt32.toNat_one]
    have someNat : 0 < r.count.toNat := by
      rw [UInt32.lt_iff_toNat_lt, UInt32.toNat_zero] at some
      exact some
    have source := cellBound (show r.count.toNat - 1 < kept.toNat by omega) channel
    rw [if_pos someNat]
    simp only [some, if_true, last]
    -- the source row lies before the tail, so the rounds read what the read left there
    have filled := loopInvariant (n := insert.toNat) (s := r.out)
      (f := fun i out => memcpy out (kept.toNat * outChannels.toNat + i * outChannels.toNat)
        (fun k => out ((r.count.toNat - 1) * outChannels.toNat + k)) outChannels.toNat)
      (P := fun n (b : Nat → α) =>
        b ((r.count.toNat - 1) * outChannels.toNat + ch) = r.out ((r.count.toNat - 1) * outChannels.toNat + ch) ∧
        (j < n → b (kept.toNat * outChannels.toNat + (j * outChannels.toNat + ch)) =
          r.out ((r.count.toNat - 1) * outChannels.toNat + ch))) ⟨rfl,by omega⟩ ?_
    · rw [address]
      exact filled.2 inside
    · intro i b _ before
      have := Nat.le_add_right (kept.toNat * outChannels.toNat) (i * outChannels.toNat)
      refine ⟨by rw [memcpyOutside _ _ (by omega), before.1],?_⟩
      intro done
      by_cases here : j = i
      · subst here
        rw [memcpyInside _ _ (by omega) (by omega)]
        convert before.1 using 2
        omega
      · have earlier : j + 1 ≤ i := by omega
        have rows := Nat.mul_le_mul_right outChannels.toNat earlier
        rw [Nat.add_mul, Nat.one_mul] at rows
        rw [memcpyOutside _ _ (by omega), before.2 (by omega)]
  · have none : ¬ 0 < r.count.toNat := by
      rw [UInt32.lt_iff_toNat_lt, UInt32.toNat_zero] at some
      exact some
    rw [if_neg none]
    simp only [some, if_false]
    rw [address, memsetInside _ _ (by omega) (by omega)]

end ReacJack.SharedAudio
