import ReacJack.PipeWire
import ReacJack.DaemonSpec

/-! What the calls on the interleaved ring and a round of the capture thread do, in
natural numbers. The copying loops are granted enough rounds, so nothing here is
partial for a ring whose reader has not overtaken its writer. -/
namespace ReacJack.PipeWire
open BufferLoops CircularBuffer ReacDecode Daemon
open PipeWireRing (Copying chunk writeChunk audioRingInit audioRingWrite audioRingRead interleavePacket
  chunkToNat chunkProgress copyingEnds freeToNat fill readCount readCountToNat)

structure Sound (ring : AudioRing) : Prop where
  positive : 0 < ring.capacityFrames.toNat
  bounded : fill ring ≤ ring.capacityFrames.toNat

def Unbroken (ring : AudioRing) (frames : Nat) : Prop :=
  ring.writePos.toNat % ring.capacityFrames.toNat + frames ≤ ring.capacityFrames.toNat ∨
    ring.writePos.toNat + (ring.capacityFrames.toNat - ring.writePos.toNat % ring.capacityFrames.toNat) < 2 ^ 64

theorem unbrokenPacket {ring : AudioRing} (capacity : ring.capacityFrames = 96000) : Unbroken ring 12 := by
  have := ring.writePos.isLt
  have same : ring.capacityFrames.toNat = 96000 := by
    rw [capacity]
    rfl
  unfold Unbroken
  rw [same]
  omega

def Written (ring : AudioRing) (interleaved : Nat → Rat) (frames : Nat) (s : Copying 64 Rat) : Prop :=
  let width := ring.channels.toNat
  let capacity := ring.capacityFrames.toNat
  let index := ring.writePos.toNat % capacity
  let first := min frames (capacity - index)
  (s.moved.toNat = 0 ∧ s.buffer = ring.samples) ∨
    (s.moved.toNat = first ∧ s.buffer = memcpy ring.samples (index * width) interleaved (first * width)) ∨
    (s.moved.toNat = frames ∧ s.buffer =
      copyIn ring.samples 0 (capacity * width) (index * width) (frames * width) interleaved)

theorem writtenStep {ring : AudioRing} {interleaved : Nat → Rat} {frames : BitVec 64} {s : Copying 64 Rat}
    (positive : 0 < ring.capacityFrames.toNat) (fits : frames.toNat ≤ ring.capacityFrames.toNat)
    (unbroken : Unbroken ring frames.toNat) (written : Written ring interleaved frames.toNat s)
    (less : s.moved.toNat < frames.toNat) :
    Written ring interleaved frames.toNat (writeChunk ring interleaved frames s) := by
  obtain ⟨index,todo⟩ := chunkToNat ring.writePos positive (Nat.le_of_lt less)
  obtain ⟨moved,_,_⟩ := chunkProgress ring.writePos positive less
  have inside := Nat.mod_lt ring.writePos.toNat positive
  rcases written with ⟨none,same⟩ | ⟨first,same⟩ | ⟨all,_⟩
  · have here : (ring.writePos + s.moved).toNat = ring.writePos.toNat := by
      have := ring.writePos.isLt
      rw [BitVec.toNat_add]
      omega
    rw [here] at index todo
    rw [none, Nat.sub_zero] at todo
    refine .inr (.inl ⟨?_,?_⟩)
    · simp only [writeChunk, moved, todo, none, Nat.zero_add]
    · simp only [writeChunk, index, todo, same, none, Nat.zero_mul, Nat.zero_add]
  · have rest : s.moved.toNat = ring.capacityFrames.toNat -
        ring.writePos.toNat % ring.capacityFrames.toNat := by omega
    have wrapped : (ring.writePos + s.moved).toNat % ring.capacityFrames.toNat = 0 := by
      have unwrapped : (ring.writePos + s.moved).toNat = ring.writePos.toNat + s.moved.toNat := by
        unfold Unbroken at unbroken
        rw [BitVec.toNat_add]
        omega
      rw [unwrapped, rest]
      exact restartsAtZero ring.writePos.toNat positive
    rw [wrapped] at index todo
    have last : (chunk ring.capacityFrames ring.writePos frames s.moved).2.toNat =
        frames.toNat - s.moved.toNat := by omega
    refine .inr (.inr ⟨?_,?_⟩)
    · simp only [writeChunk, moved, last]
      omega
    · rw [copyInRows]
      simp only [writeChunk, index, last, same, Nat.zero_mul, ← first]
  · omega

theorem ringWriteAccepted {ring : AudioRing} (sound : Sound ring) (interleaved : Nat → Rat)
    {frames : BitVec 64} (fits : frames.toNat ≤ ring.capacityFrames.toNat - fill ring)
    (unbroken : Unbroken ring frames.toNat) :
    audioRingWrite ring interleaved frames = some (0, {ring with
      samples := copyIn ring.samples 0 (ring.capacityFrames.toNat * ring.channels.toNat)
        (ring.writePos.toNat % ring.capacityFrames.toNat * ring.channels.toNat)
        (frames.toNat * ring.channels.toNat) interleaved
      writePos := ring.writePos + frames}) := by
  have room : ¬ ring.capacityFrames - (ring.writePos - ring.readPos) < frames := by
    rw [BitVec.lt_def, freeToNat sound.bounded]
    omega
  obtain ⟨s,result,written,ended⟩ := copyingEnds ring.writePos frames (writeChunk ring interleaved frames)
    ring.samples (fun _ => rfl) sound.positive (P := Written ring interleaved frames.toNat)
    (fun s before less => writtenStep sound.positive (by omega) unbroken before less) (.inl ⟨rfl,rfl⟩)
  have buffer : s.buffer = copyIn ring.samples 0 (ring.capacityFrames.toNat * ring.channels.toNat)
      (ring.writePos.toNat % ring.capacityFrames.toNat * ring.channels.toNat)
      (frames.toNat * ring.channels.toNat) interleaved := by
    rcases written with ⟨none,same⟩ | ⟨first,same⟩ | ⟨_,same⟩
    · have nothing : frames.toNat = 0 := by omega
      rw [copyInRows, same, nothing]
      simp only [Nat.zero_min, Nat.zero_mul, Nat.sub_zero, memcpyNothing]
    · have all : min frames.toNat (ring.capacityFrames.toNat -
          ring.writePos.toNat % ring.capacityFrames.toNat) = frames.toNat := by omega
      rw [copyInRows, same, all, Nat.sub_self, Nat.zero_mul, memcpyNothing]
    · exact same
  simp only [audioRingWrite, room, if_false, result, Option.map_some, buffer]

theorem ringReadSpec {ring : AudioRing} (sound : Sound ring) (out : Nat → Rat) (frames : BitVec 64) :
    ∃ count readPos out', audioRingRead ring out frames = some (count,{ring with readPos},out') ∧
      (ring.writePos - readPos).toNat = fill ring - min (fill ring) frames.toNat := by
  obtain ⟨out',result,_⟩ := PipeWireRing.readSpec sound.positive out frames
  have took := readCountToNat ring frames
  refine ⟨_,_,out',result,?_⟩
  have le : readCount ring frames ≤ ring.writePos - ring.readPos :=
    BitVec.le_def.mpr (took.le.trans (Nat.min_le_left _ _))
  have left : ring.writePos - (ring.readPos + readCount ring frames) =
      ring.writePos - ring.readPos - readCount ring frames := by
    simp only [BitVec.sub_eq_add_neg, BitVec.neg_add, BitVec.add_assoc]
  rw [left, BitVec.toNat_sub_of_le le, took]
  rfl

theorem interleavedAt (interleaved : Nat → Rat) (channels : Nat → Nat → Rat) {channelCount : UInt16}
    {frames f ch : Nat} (inside : f < frames) (channel : ch < channelCount.toNat) :
    interleavePacket interleaved channels channelCount frames (f * channelCount.toNat + ch) =
      channels ch f := rowsFilledAt interleaved channels inside channel

theorem uncut {bytes : Bytes} {channels : Nat} (wellFormed : WellFormed (bytes.take reacjackPwPacketBytes) channels) :
    bytes.take reacjackPwPacketBytes = bytes := by
  have length := wellFormed.length
  have most := wellFormed.most
  rw [List.length_take, reacjackPwPacketBytes] at length
  exact List.take_of_length_le (by rw [reacjackPwPacketBytes]; omega)

theorem parsesWhole {bytes : Bytes} {channels : Nat} (wellFormed : WellFormed bytes channels) :
    reacParsePacket (some (bytes.take reacjackPwPacketBytes)) (some cleared) =
      (.ok,some (viewOf bytes channels)) := by
  have length := wellFormed.length
  have most := wellFormed.most
  have whole : bytes.take reacjackPwPacketBytes = bytes :=
    List.take_of_length_le (by rw [reacjackPwPacketBytes]; omega)
  rw [whole]
  exact parseWellFormed wellFormed cleared

structure Ready (app : ReacPw) : Prop where
  sound : Sound app.ring
  capacity : app.ring.capacityFrames = 96000
  channelsEq : app.ring.channels = app.channels

theorem readyStart (channels : UInt16) : Ready (appOf channels) := by
  refine ⟨⟨?_,?_⟩,rfl,rfl⟩
  · change 0 < (96000 : BitVec 64).toNat
    decide
  · change ((0 : BitVec 64) - 0).toNat ≤ (96000 : BitVec 64).toNat
    decide

def withPacket (ring : AudioRing) (interleaved : Nat → Rat) : AudioRing :=
  {ring with
    samples := copyIn ring.samples 0 (ring.capacityFrames.toNat * ring.channels.toNat)
      (ring.writePos.toNat % ring.capacityFrames.toNat * ring.channels.toNat)
      (12 * ring.channels.toNat) interleaved
    writePos := ring.writePos + 12}

def takePacket (app : ReacPw) (interleaved : Nat → Rat) (counter : UInt16) : ReacPw :=
  let app := noteCounter {app with ring := withPacket app.ring interleaved} counter
  {app with receivedPackets := app.receivedPackets + 1}

theorem captureFrameCases {s : Thread} (ready : Ready s.app) (bytes : Bytes) :
    ∃ next, captureFrame s bytes = some next ∧
      (¬ WellFormed bytes s.app.channels.toNat ∧
        (next.app = {s.app with nonReacPackets := s.app.nonReacPackets + 1} ∨ next.app = countMalformed s.app) ∨
      WellFormed bytes s.app.channels.toNat ∧ 96000 < fill s.app.ring + 12 ∧
        next.app = {s.app with ringOverruns := s.app.ringOverruns + 1} ∨
      ∃ interleaved, WellFormed bytes s.app.channels.toNat ∧ fill s.app.ring + 12 ≤ 96000 ∧
        (∀ ch f, ch < s.app.channels.toNat → f < 12 →
          interleaved (f * s.app.channels.toNat + ch) = packetSample bytes s.app.channels.toNat ch f) ∧
        next.app = takePacket s.app interleaved (viewOf bytes s.app.channels.toNat).counter) := by
  obtain ⟨sound,capacity,channelsEq⟩ := ready
  have capacityNat : s.app.ring.capacityFrames.toNat = 96000 := by
    rw [capacity]
    rfl
  cases parsed : reacParsePacket (some (bytes.take reacjackPwPacketBytes)) (some cleared) with
  | mk parseStatus view =>
    have unparsed : parseStatus ≠ .ok → ¬ WellFormed bytes s.app.channels.toNat := by
      intro failed wellFormed
      rw [parsesWhole wellFormed] at parsed
      cases parsed
      exact failed rfl
    simp only [captureFrame, parsed]
    split
    · rename_i other
      exact ⟨_,rfl,.inl ⟨unparsed (by rw [other]; decide),.inl rfl⟩⟩
    split
    · rename_i other
      exact ⟨_,rfl,.inl ⟨unparsed other,.inr rfl⟩⟩
    rename_i ok
    rw [not_not.mp ok] at parsed
    obtain ⟨channels,wellFormed,rfl⟩ := parsedWellFormed parsed
    have whole := uncut wellFormed
    rw [whole] at wellFormed ⊢
    obtain ⟨outputs,decoded,holds⟩ := decodeParsed wellFormed s.channelStorage
    have toNat := viewChannels bytes wellFormed.most
    simp only [Option.getD_some, decoded, ne_eq, not_true_eq_false, if_false]
    split
    · rename_i apart
      refine ⟨_,rfl,.inl ⟨?_,.inr rfl⟩⟩
      intro ours
      apply apart
      rw [← UInt16.toNat_inj, toNat]
      exact channelsUnique wellFormed ours
    rename_i same
    rw [not_not] at same
    rw [same] at toNat
    rw [toNat]
    rcases Nat.lt_or_ge (s.app.ring.capacityFrames.toNat - fill s.app.ring) 12 with full | fits
    · have refused := PipeWireRing.writeRefused sound.bounded (interleavePacket s.interleaved
        (storageBehind outputs s.channelStorage) s.app.channels reacFramesPerPacket)
        (show s.app.ring.capacityFrames.toNat - fill s.app.ring < (12 : BitVec 64).toNat from full)
      refine ⟨_,by rw [refused, Option.map_some],.inr (.inl ⟨wellFormed,by omega,?_⟩)⟩
      simp
    · have accepted := ringWriteAccepted sound (interleavePacket s.interleaved
        (storageBehind outputs s.channelStorage) s.app.channels reacFramesPerPacket)
        (show (12 : BitVec 64).toNat ≤ s.app.ring.capacityFrames.toNat - fill s.app.ring from fits)
        (unbrokenPacket capacity)
      refine ⟨_,by rw [accepted, Option.map_some],.inr (.inr ⟨interleavePacket s.interleaved
        (storageBehind outputs s.channelStorage) s.app.channels reacFramesPerPacket,
        wellFormed,by omega,?_,?_⟩)⟩
      · intro ch f channel inside
        have row := interleavedAt s.interleaved (storageBehind outputs s.channelStorage)
          (show f < reacFramesPerPacket from inside) (show ch < s.app.channels.toNat by rw [toNat]; exact channel)
        rw [toNat] at row
        rw [row]
        exact holds ch f channel inside
      · simp [takePacket, withPacket, noteCounter]

end ReacJack.PipeWire
