import ReacJack.JackBridge
import ReacJack.DecodedRows

/-! What each step does to the shape of the stream and to the ring. The first packet
fixes the channel count; from then on nothing changes it, and only whole payloads of
that count enter the ring. -/
namespace ReacJack.JackBridge
open ReacDecode JackRingbuffer DecodedRows

variable {capacity : Nat}

structure Shaped (b : Bridge capacity) (channels : Nat) : Prop where
  dataSize : b.dataSize = 36 * channels
  count : b.currentNumberOfChannels.toNat = channels

theorem shapedCongr {b next : Bridge capacity} {channels : Nat} (shaped : Shaped b channels)
    (size : next.dataSize = b.dataSize) (count : next.currentNumberOfChannels = b.currentNumberOfChannels) :
    Shaped next channels :=
  ⟨size.trans shaped.dataSize,by rw [count]; exact shaped.count⟩

theorem writeLeaves (b : Bridge capacity) (payload : Bytes) (bytes : Nat) : ∃ ringbuffer netBufferUnderrun,
    (writePayloadToRing b payload bytes).2 = {b with ringbuffer, netBufferUnderrun} := by
  simp only [writePayloadToRing]
  split
  · exact ⟨b.ringbuffer,b.netBufferUnderrun,rfl⟩
  split
  · exact ⟨b.ringbuffer,b.netBufferUnderrun + 1,rfl⟩
  · exact ⟨_,b.netBufferUnderrun,rfl⟩

theorem copyPayloadLeaves (b : Bridge capacity) (packet : ReacPacketView) :
    ∃ ringbuffer netBufferUnderrun error, copyPayload b packet =
      {notePacketCounter {b with receivedPackages := b.receivedPackages + 1} packet.counter with
        ringbuffer, netBufferUnderrun, error} := by
  let noted := notePacketCounter {b with receivedPackages := b.receivedPackages + 1} packet.counter
  obtain ⟨ringbuffer,underruns,left⟩ := writeLeaves noted (packet.payload.getD []) noted.dataSize
  simp only [copyPayload]
  split
  · exact ⟨ringbuffer,underruns,.ringRead,by rw [left]⟩
  · exact ⟨ringbuffer,underruns,noted.error,by rw [left]⟩

def payloadOf (packet : Bytes) : Bytes := (packet.drop 50).take (packet.length - 52)

theorem payloadLength {packet : Bytes} {channels : Nat} (wellFormed : WellFormed packet channels) :
    (payloadOf packet).length = 36 * channels := by
  have := wellFormed.length
  rw [payloadOf, List.length_take, List.length_drop]
  omega

theorem payloadTake {packet : Bytes} {channels : Nat} (wellFormed : WellFormed packet channels) :
    (packet.drop 50).take (36 * channels) = payloadOf packet := by
  have := wellFormed.length
  rw [payloadOf]
  congr 1
  omega

theorem supportedOf {packet : Bytes} {channels : Nat} (wellFormed : WellFormed packet channels) :
    Supported channels := ⟨wellFormed.positive,wellFormed.most,wellFormed.even⟩

def Stored (before after : Ringbuffer capacity) (packet : Bytes) (channels : Nat) : Prop :=
  after = before ∨ (WellFormed packet channels ∧ 36 * channels ≤ jackRingbufferWriteSpace before ∧
    after = (jackRingbufferWrite before (packet.drop 50) (36 * channels)).2)

theorem writeStores {b : Bridge capacity} {channels : Nat} {packet : Bytes} (shaped : Shaped b channels)
    (wellFormed : WellFormed packet channels) :
    Shaped (writePayloadToRing b (packet.drop 50) (36 * channels)).2 channels ∧
      Stored b.ringbuffer (writePayloadToRing b (packet.drop 50) (36 * channels)).2.ringbuffer packet channels := by
  have positive : ¬ 36 * channels = 0 := by
    have := wellFormed.positive
    omega
  rw [writePayloadToRing, if_neg positive]
  split
  · exact ⟨shapedCongr shaped rfl rfl,.inl rfl⟩
  · rename_i room
    exact ⟨shapedCongr shaped rfl rfl,.inr ⟨wellFormed,Nat.not_lt.mp room,rfl⟩⟩

theorem copyPayloadStores {b : Bridge capacity} {packet : Bytes} {channels : Nat} (shaped : Shaped b channels)
    (wellFormed : WellFormed packet channels) : Shaped (copyPayload b (viewOf packet channels)) channels ∧
      Stored b.ringbuffer (copyPayload b (viewOf packet channels)).ringbuffer packet channels := by
  let noted := notePacketCounter {b with receivedPackages := b.receivedPackages + 1} (viewOf packet channels).counter
  have size : noted.dataSize = 36 * channels := shaped.dataSize
  obtain ⟨kept,stored⟩ := writeStores (b := noted) (shapedCongr shaped rfl rfl) wellFormed
  have same : copyPayload b (viewOf packet channels) =
      if (writePayloadToRing noted (packet.drop 50) (36 * channels)).1 ≠ 0 then
        {(writePayloadToRing noted (packet.drop 50) (36 * channels)).2 with error := .ringRead}
      else (writePayloadToRing noted (packet.drop 50) (36 * channels)).2 := by
    rw [← size]
    rfl
  rw [same]
  split
  · exact ⟨shapedCongr kept rfl rfl,stored⟩
  · exact ⟨kept,stored⟩

theorem copyFrameCases {b : Bridge capacity} {channels : Nat} (shaped : Shaped b channels) (packet : Bytes) :
    ∃ next, Shaped (copyFrame b packet) next ∧ (next = channels ∨ channels = 0 ∧ WellFormed packet next) ∧
      Stored b.ringbuffer (copyFrame b packet).ringbuffer packet next := by
  cases parsed : reacParsePacket (some packet) (some cleared) with
  | mk parseStatus view =>
    simp only [copyFrame, parsed]
    split
    · exact ⟨channels,shapedCongr shaped rfl rfl,.inl rfl,.inl rfl⟩
    split
    · exact ⟨channels,shapedCongr shaped rfl rfl,.inl rfl,.inl rfl⟩
    rename_i ok
    rw [not_not.mp ok] at parsed
    obtain ⟨next,wellFormed,rfl⟩ := parsedWellFormed parsed
    have count := viewChannels packet wellFormed.most
    have size := shaped.dataSize
    simp only [Option.getD_some]
    split
    · rename_i first
      have shaped' : Shaped {b with
          dataSize := (viewOf packet next).payloadSize
          currentNumberOfChannels := (viewOf packet next).channels.toUInt32} next :=
        ⟨rfl,by rw [UInt16.toNat_toUInt32]; exact count⟩
      obtain ⟨kept,stored⟩ := copyPayloadStores shaped' wellFormed
      exact ⟨next,kept,.inr ⟨by omega,wellFormed⟩,stored⟩
    · split
      · exact ⟨channels,shapedCongr shaped rfl rfl,.inl rfl,.inl rfl⟩
      · rename_i same
        have payloadSize : b.dataSize = 36 * next := not_not.mp same
        obtain rfl : next = channels := by omega
        obtain ⟨kept,stored⟩ := copyPayloadStores shaped wellFormed
        exact ⟨next,kept,.inl rfl,stored⟩

theorem silentStops {outputs : Outputs} {bufferSize : Nat} (reading : Queried.silent outputs = .reading bufferSize) :
    False := by
  cases reading

theorem queryCases {b : Bridge capacity} {channels : Nat} (shaped : Shaped b channels) (most : channels ≤ 40)
    (cycle : Cycle) : Shaped (processQuery b cycle).1 channels ∧
      (processQuery b cycle).1.ringbuffer = b.ringbuffer ∧
      ∀ bufferSize, (processQuery b cycle).2 = .reading bufferSize →
        channels ≠ 0 ∧ bufferSize = 3 * channels * cycle.nframes.toNat ∧
          bufferSize ≤ b.processBufferBytes ∧ bufferSize ≤ jackRingbufferReadSpace b.ringbuffer := by
  have small := cycle.nframes.toNat_lt
  have count := shaped.count
  have nowrap : cycle.nframes.toNat * channels * 3 < 2 ^ 64 := by
    have : cycle.nframes.toNat * channels ≤ cycle.nframes.toNat * 40 := Nat.mul_le_mul_left _ most
    omega
  simp only [processQuery, reacBytesPerSample, count, Nat.mod_eq_of_lt nowrap]
  by_cases none : b.currentNumberOfChannels = 0 ∨ b.dataSize = 0
  · rw [if_pos none]
    exact ⟨shapedCongr shaped rfl rfl,rfl,fun _ reading => (silentStops reading).elim⟩
  by_cases large : b.processBufferBytes < cycle.nframes.toNat * channels * 3
  · rw [if_neg none, if_pos large]
    exact ⟨shapedCongr shaped rfl rfl,rfl,fun _ reading => (silentStops reading).elim⟩
  by_cases few : jackRingbufferReadSpace b.ringbuffer < cycle.nframes.toNat * channels * 3
  · rw [if_neg none, if_neg large, if_pos few]
    exact ⟨shapedCongr shaped rfl rfl,rfl,fun _ reading => (silentStops reading).elim⟩
  rw [if_neg none, if_neg large, if_neg few]
  refine ⟨shapedCongr shaped rfl rfl,rfl,?_⟩
  intro bufferSize reading
  cases reading
  refine ⟨?_,by ring,Nat.not_lt.mp large,Nat.not_lt.mp few⟩
  intro zero
  apply none
  exact .inl (by rw [← UInt32.toNat_inj]; exact count.trans zero)

theorem callbackDecodes {b : Bridge capacity} {channels bufferSize : Nat} (shaped : Shaped b channels)
    (supported : Supported channels) (cycle : Cycle) (size : bufferSize = 3 * channels * cycle.nframes.toNat)
    {processBuffer : Bytes} (whole : processBuffer.length = bufferSize) (lent : Lent cycle.buffers channels) :
    reacDecodeSamplesToChannels (some processBuffer) processBuffer.length b.currentNumberOfChannels.toUInt16
      cycle.nframes.toNat (some cycle.buffers) =
        (.ok,some (overwritten cycle.buffers
          (fun ch f => decide (ch < channels) && decide (f < cycle.nframes.toNat))
          (decodedSample processBuffer channels))) := by
  have narrow : b.currentNumberOfChannels.toUInt16.toNat = channels := by
    have := supported.most
    rw [UInt32.toNat_toUInt16, shaped.count]
    omega
  have small : bufferSize < 2 ^ 64 := by
    have product : 3 * channels * cycle.nframes.toNat < 121 * 2 ^ 32 :=
      Nat.mul_lt_mul_of_lt_of_lt (by have := supported.most; omega) cycle.nframes.toNat_lt
    omega
  have decoded : reacDecodeSamplesToChannels (some processBuffer) processBuffer.length
      b.currentNumberOfChannels.toUInt16 cycle.nframes.toNat (some cycle.buffers) = _ := decodeSpec
    (by rw [narrow]; exact supported.positive) (by rw [narrow]; exact supported.most)
    (by rw [narrow]; exact supported.even) (by rw [whole, narrow, size]; ring) (by rw [whole]; exact small)
    (by rw [narrow]; exact lent)
  rw [narrow] at decoded
  exact decoded

theorem readCases {b : Bridge capacity} {channels bufferSize : Nat} (shaped : Shaped b channels)
    (supported : Supported channels) (cycle : Cycle)
    (size : bufferSize = 3 * channels * cycle.nframes.toNat) :
    Shaped (processRead b cycle bufferSize).1 channels ∧
      (processRead b cycle bufferSize).1.ringbuffer = (jackRingbufferRead b.ringbuffer bufferSize).2 ∧
      ((processRead b cycle bufferSize).1.error = .ringRead ∨
        (processRead b cycle bufferSize).1.error = .jackPort ∨
        ((processRead b cycle bufferSize).1.error = .ok ∧
          bufferSize ≤ jackRingbufferReadSpace b.ringbuffer ∧ Lent cycle.buffers channels ∧
          (processRead b cycle bufferSize).2 = overwritten cycle.buffers
            (fun ch f => decide (ch < channels) && decide (f < cycle.nframes.toNat))
            (decodedSample (jackRingbufferRead b.ringbuffer bufferSize).1 channels))) := by
  have count := shaped.count
  simp only [processRead, count]
  split
  · exact ⟨shapedCongr shaped rfl rfl,rfl,.inl rfl⟩
  rename_i whole
  split
  · exact ⟨shapedCongr shaped rfl rfl,rfl,.inr (.inl rfl)⟩
  rename_i ports
  rw [not_not] at whole
  have lent : Lent cycle.buffers channels := lentIff.mpr ports
  rw [callbackDecodes shaped supported cycle size whole lent]
  simp only [ne_eq, not_true_eq_false, if_false, Option.getD_some]
  refine ⟨shapedCongr shaped rfl rfl,trivial,.inr (.inr ⟨trivial,?_,lent,trivial⟩)⟩
  rw [← whole, jackRingbufferRead, List.length_take, jackRingbufferReadSpace]
  omega

end ReacJack.JackBridge
