import ReacJack.Daemon
import ReacJack.ReacDecodeSpec
import ReacJack.SharedAudioSpec

/-! What one round of the capture loop can do: count a frame that is not audio of the
ring's shape, or hand the decoded packet to the ring, which takes it whole or refuses
it. -/
namespace ReacJack.Daemon
open BufferLoops CircularBuffer SharedAudio ReacDecode

def packetSample (packet : Bytes) (channels ch f : Nat) : Rat :=
  decodedSample (packet.drop 50) channels ch f

def Holds (channelStorage : Nat → Nat → Rat) (packet : Bytes) (channels : Nat) : Prop :=
  ∀ ch f, ch < channels → f < 12 → channelStorage ch f = packetSample packet channels ch f

def Opened (daemon : ReacDaemon) (channels : UInt16) (ring : SharedRing Rat) : Prop :=
  (daemon.ring = some ring ∧ daemon.channels = channels) ∨
    (daemon.ring = none ∧ ring = sharedAudioCreate 48000 channels 48000)

def takePacket (daemon : ReacDaemon) (channels : UInt16) (ring : SharedRing Rat) (counter : UInt16) :
    ReacDaemon :=
  let daemon := noteCounter {daemon with ring := some ring, channels} counter
  {daemon with receivedPackets := daemon.receivedPackets + 1}

theorem ensured {daemon next : ReacDaemon} {channels : UInt16} {created : Bool}
    (h : ensureRing daemon channels created = some next) :
    ((daemon.ring.isSome = true ∧ next = daemon) ∨ (daemon.ring = none ∧ next = {daemon with
      ring := some (sharedAudioCreate 48000 channels 48000), channels})) := by
  unfold ensureRing at h
  split at h
  · rename_i there
    exact .inl ⟨there,(Option.some.inj h).symm⟩
  · rename_i missing
    split at h
    · exact .inr ⟨by simpa using missing,(Option.some.inj h).symm⟩
    · contradiction

theorem startedLoop {daemon : ReacDaemon} {channelStorage : Nat → Nat → Rat} {created : Bool} {loop : Loop}
    (started : runCapture daemon channelStorage created = some loop) (missing : daemon.ring = none) :
    loop = ⟨daemon,channelStorage⟩ ∨
    loop = ⟨{daemon with ring := some (sharedAudioCreate 48000 daemon.channels 48000)},channelStorage⟩ := by
  unfold runCapture at started
  split at started
  · obtain ⟨opened,ensured_,rfl⟩ := Option.map_eq_some_iff.mp started
    rcases ensured ensured_ with ⟨already,_⟩ | ⟨_,rfl⟩
    · rw [missing] at already
      contradiction
    · exact .inr rfl
  · exact .inl (Option.some.inj started).symm

theorem ensureTotal (daemon : ReacDaemon) (channels : UInt16) :
    ∃ next ring, ensureRing daemon channels true = some next ∧ next.ring = some ring := by
  cases h : daemon.ring with
  | none =>
    refine ⟨{daemon with ring := some (sharedAudioCreate 48000 channels 48000), channels},_,?_,rfl⟩
    simp only [ensureRing, h, Option.isSome_none, Bool.false_eq_true, if_false, if_true]
    rfl
  | some ring =>
    refine ⟨daemon,ring,?_,h⟩
    simp only [ensureRing, h, Option.isSome_some, if_true]

theorem lentStorage (channelStorage : Nat → Nat → Rat) {channels : Nat} (most : channels ≤ 40) :
    Lent (channelPtrs channelStorage) channels := by
  intro ch inside
  have below : ch < reacMaxChannels := by
    unfold reacMaxChannels
    omega
  simp [channelPtrs, below]

theorem decodeParsed {packet : Bytes} {channels : Nat} (wellFormed : WellFormed packet channels)
    (channelStorage : Nat → Nat → Rat) :
    ∃ outputs, reacDecodeSamplesToChannels (viewOf packet channels).payload
        (viewOf packet channels).payloadSize (viewOf packet channels).channels reacFramesPerPacket
        (some (channelPtrs channelStorage)) = (.ok,outputs) ∧
      Holds (storageBehind outputs channelStorage) packet channels := by
  have toNat := viewChannels packet wellFormed.most
  have decoded : reacDecodeSamplesToChannels (some (packet.drop 50)) (36 * channels)
      (viewOf packet channels).channels reacFramesPerPacket (some (channelPtrs channelStorage)) = _ := decodeSpec
    (by rw [toNat]; exact wellFormed.positive) (by rw [toNat]; exact wellFormed.most)
    (by rw [toNat]; exact wellFormed.even) (by rw [toNat, reacFramesPerPacket]; omega)
    (by have := wellFormed.most; omega) (by rw [toNat]; exact lentStorage channelStorage wellFormed.most)
  rw [toNat] at decoded
  refine ⟨_,decoded,?_⟩
  intro ch f channel inside
  have here : channelPtrs channelStorage ch = some (channelStorage ch) := by
    have below : ch < reacMaxChannels := by
      have := wellFormed.most
      unfold reacMaxChannels
      omega
    simp only [channelPtrs, below, if_true]
  obtain ⟨filled,there,value⟩ := overwrittenDone
    (fun c f => decide (c < channels) && decide (f < reacFramesPerPacket))
    (decodedSample (packet.drop 50) channels) (f := f) here
    (by simp [channel, reacFramesPerPacket, inside])
  simp only [storageBehind, Option.bind_some, there, Option.getD_some, value, packetSample]

theorem captureFrameCases {s next : Loop} {packet : Bytes} {created : Bool} {hostTime : UInt64}
    (taken : captureFrame s packet created hostTime = some next) :
    next.daemon = {s.daemon with nonReacPackets := s.daemon.nonReacPackets + 1} ∨
    next.daemon = countMalformed s.daemon ∨
    ∃ channels ring counter storage, WellFormed packet channels.toNat ∧ Opened s.daemon channels ring ∧
      Holds storage packet channels.toNat ∧
      next.daemon = takePacket s.daemon channels (storePacket ring storage hostTime) counter := by
  cases parsed : reacParsePacket (some packet) (some cleared) with
  | mk parseStatus view =>
    simp only [captureFrame, parsed] at taken
    split at taken
    · exact .inl (by rw [← Option.some.inj taken])
    split at taken
    · exact .inr (.inl (by rw [← Option.some.inj taken]))
    rename_i ok
    rw [not_not.mp ok] at parsed
    obtain ⟨channels,wellFormed,rfl⟩ := parsedWellFormed parsed
    obtain ⟨daemon,opened,taken⟩ := Option.bind_eq_some_iff.mp taken
    obtain ⟨outputs,decoded,holds⟩ := decodeParsed wellFormed s.channelStorage
    have toNat := viewChannels packet wellFormed.most
    simp only [Option.getD_some, decoded, ne_eq, not_true_eq_false, if_false] at opened taken
    split at taken
    · rename_i other
      rcases ensured opened with ⟨_,rfl⟩ | ⟨_,rfl⟩
      · exact .inr (.inl (by rw [← Option.some.inj taken]))
      · exact absurd rfl other
    · rename_i same
      obtain ⟨ring,there,taken⟩ := Option.map_eq_some_iff.mp taken
      refine .inr (.inr ⟨(viewOf packet channels).channels,ring,(viewOf packet channels).counter,
        storageBehind outputs s.channelStorage,by rw [toNat]; exact wellFormed,?_,
        by rw [toNat]; exact holds,?_⟩)
      · rcases ensured opened with ⟨_,rfl⟩ | ⟨missing,rfl⟩
        · exact .inl ⟨there,(not_not.mp same).symm⟩
        · exact .inr ⟨missing,(Option.some.inj there).symm⟩
      · rw [← taken]
        rcases ensured opened with ⟨_,rfl⟩ | ⟨_,rfl⟩
        · simp only [takePacket, noteCounter, not_not.mp same]
        · rfl

theorem captureTaken {s : Loop} {packet : Bytes} {channels : UInt16} {ring : SharedRing Rat}
    (wellFormed : WellFormed packet channels.toNat) (there : s.daemon.ring = some ring)
    (same : s.daemon.channels = channels) (created : Bool) (hostTime : UInt64) :
    ∃ storage counter, Holds storage packet channels.toNat ∧
      captureFrame s packet created hostTime =
        some ⟨takePacket s.daemon channels (storePacket ring storage hostTime) counter,storage⟩ := by
  have parsed := parseWellFormed wellFormed cleared
  have view : (viewOf packet channels.toNat).channels = channels := by
    rw [← UInt16.toNat_inj]
    exact viewChannels packet wellFormed.most
  obtain ⟨outputs,decoded,holds⟩ := decodeParsed wellFormed s.channelStorage
  rw [view] at decoded
  refine ⟨storageBehind outputs s.channelStorage,(viewOf packet channels.toNat).counter,holds,?_⟩
  simp only [captureFrame, parsed, Option.getD_some, reduceCtorEq, if_false, ne_eq, not_true_eq_false,
    ensureRing, there, Option.isSome_some, if_true, Option.bind_some, view, same, decoded, Option.map_some,
    takePacket, noteCounter]

theorem storeRefused {ring : SharedRing Rat} (sound : Sound ring.header)
    (channelStorage : Nat → Nat → Rat) (hostTime : UInt64)
    (full : ring.header.capacityFrames.toNat - fill ring.header < 12) :
    storePacket ring channelStorage hostTime = {ring with header := {ring.header with
      overruns := ring.header.overruns + 1
      droppedPackets := ring.header.droppedPackets + 1}} := by
  have refused := writeRefused sound channelStorage
    (show ring.header.capacityFrames.toNat - fill ring.header < (12 : UInt32).toNat from full)
  simp only [storePacket, refused]
  rfl

theorem storeAccepted {ring : SharedRing Rat} (sound : Sound ring.header)
    (channelStorage : Nat → Nat → Rat) (hostTime : UInt64)
    (fits : 12 ≤ ring.header.capacityFrames.toNat - fill ring.header) :
    storePacket ring channelStorage hostTime = {
      samples := copyInAll ring.samples ring.header.channels.toNat ring.header.capacityFrames.toNat
        (ring.header.writePos.toNat % ring.header.capacityFrames.toNat) 12 channelStorage
      header := {ring.header with
        writePos := ring.header.writePos + 12
        clockSeq := ring.header.clockSeq + 2
        clockHostTime := hostTime
        clockSamplePos := ring.header.writePos + 12}} := by
  have accepted := writeAccepted sound channelStorage
    (show (12 : UInt32).toNat ≤ ring.header.capacityFrames.toNat - fill ring.header from fits)
  simp only [storePacket, accepted]
  rfl

structure Ready (ring : SharedRing Rat) (channels : UInt16) : Prop where
  sound : Sound ring.header
  capacity : ring.header.capacityFrames = 48000
  channelsEq : ring.header.channels = channels.toUInt32

theorem createdFill (channels : UInt16) :
    fill (sharedAudioCreate (α := Rat) 48000 channels 48000).header = 0 := by
  change ((0 : UInt64) - 0).toNat = 0
  decide

theorem readyCreated (channels : UInt16) : Ready (sharedAudioCreate 48000 channels 48000) channels := by
  refine ⟨⟨?_,?_⟩,rfl,rfl⟩
  · change 0 < (48000 : UInt32).toNat
    decide
  · rw [createdFill]
    exact Nat.zero_le _

theorem readyCapacity {ring : SharedRing Rat} {channels : UInt16} (ready : Ready ring channels) :
    ring.header.capacityFrames.toNat = 48000 := by
  rw [ready.capacity]
  rfl

theorem packetLength (writePos : UInt64) : (writePos + 12 - writePos).toNat = 12 := by
  have twelve : writePos + 12 - writePos = 12 := by grind
  rw [twelve]
  rfl

theorem acceptedFill {h : Header} (fits : 12 ≤ h.capacityFrames.toNat - fill h) :
    (h.writePos + 12 - h.readPos).toNat = fill h + 12 := by
  have small := h.capacityFrames.toNat_lt
  have room : (h.writePos - h.readPos).toNat + (12 : UInt64).toNat < 2 ^ 64 := by
    have twelve : (12 : UInt64).toNat = 12 := rfl
    unfold fill at fits
    omega
  exact distanceGive room

theorem readyStored {ring : SharedRing Rat} {channels : UInt16} (ready : Ready ring channels)
    (channelStorage : Nat → Nat → Rat) (hostTime : UInt64) :
    Ready (storePacket ring channelStorage hostTime) channels := by
  obtain ⟨sound,capacity,channelsEq⟩ := ready
  rcases Nat.lt_or_ge (ring.header.capacityFrames.toNat - fill ring.header) 12 with full | fits
  · rw [storeRefused sound channelStorage hostTime full]
    exact ⟨⟨sound.positive,sound.bounded⟩,capacity,channelsEq⟩
  · have filled := acceptedFill fits
    rw [storeAccepted sound channelStorage hostTime fits]
    refine ⟨⟨sound.positive,?_⟩,capacity,channelsEq⟩
    change (ring.header.writePos + 12 - ring.header.readPos).toNat ≤ ring.header.capacityFrames.toNat
    rw [filled]
    omega

end ReacJack.Daemon
