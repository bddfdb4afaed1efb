import ReacJack.BridgeStates
import ReacJack.PipeWireSpec

/-! The decoder once more with its accesses checked: a byte outside the window or a missing
buffer is a fault. What the parser lets through, and what a callback reads from its ring,
is decoded without one. -/
namespace ReacJack.DecodeWithin
open BufferLoops ReacDecode JackRingbuffer JackBridge BridgeStates
open Daemon (channelPtrs)

def decodePair (window : Bytes) (frame ch : Nat) (s : Cursor) : Option Cursor := do
  let byte0 ← window[s.input]?
  let byte1 ← window[s.input + 1]?
  let byte2 ← window[s.input + 2]?
  let byte3 ← window[s.input + 3]?
  let byte4 ← window[s.input + 4]?
  let byte5 ← window[s.input + 5]?
  let _ ← s.outputs ch
  let _ ← s.outputs (ch + 1)
  let sample1 := byte3.toUInt32 ||| byte0.toUInt32 <<< 8 ||| byte1.toUInt32 <<< 16
  let sample2 := byte4.toUInt32 ||| byte5.toUInt32 <<< 8 ||| byte2.toUInt32 <<< 16
  let outputs := store s.outputs ch frame (sample24ToFloat (signExtend24 sample1))
  let outputs := store outputs (ch + 1) frame (sample24ToFloat (signExtend24 sample2))
  some ⟨s.input + 6,outputs⟩

def decodeFrame (window : Bytes) (channels frame : Nat) (s : Cursor) : Option Cursor :=
  loopSome ((channels + 1) / 2) (fun pair s => decodePair window frame (2 * pair) s) s

def decode (window : Bytes) (channels frames : Nat) (outputs : Outputs) : Option Outputs :=
  (loopSome frames (fun frame s => decodeFrame window channels frame s) ⟨0,outputs⟩).map Cursor.outputs

theorem byteWithin {samples : Bytes} {n i : Nat} (inside : i < n) (within : n ≤ samples.length) :
    (samples.take n)[i]? = some (at_ samples i) := by
  rw [List.getElem?_take_of_lt inside, List.getElem?_eq_getElem (by omega), at_,
    List.getD_eq_getElem _ _ (by omega)]

theorem storeLent {outputs : Outputs} {channels : Nat} (lent : Lent outputs channels) (ch frame : Nat) (value : Rat) :
    Lent (store outputs ch frame value) channels := by
  intro c inside
  by_cases here : c = ch
  · subst here
    simp only [store, putHere, Option.isSome_map]
    exact lent c inside
  · simp only [store, putElsewhere _ _ here]
    exact lent c inside

theorem decodePairWithin {samples : Bytes} {channels n pair : Nat} {s : Cursor} (frame : Nat) (pairs : pair < channels / 2)
    (within : n ≤ samples.length) (inside : s.input + 6 ≤ n) (lent : Lent s.outputs channels) :
    decodePair (samples.take n) frame (2 * pair) s = some (ReacDecode.decodePair samples frame (2 * pair) s) ∧
      Lent (ReacDecode.decodePair samples frame (2 * pair) s).outputs channels := by
  refine ⟨?_,storeLent (storeLent lent _ _ _) _ _ _⟩
  obtain ⟨left,first⟩ := Option.isSome_iff_exists.mp (lent (2 * pair) (by omega))
  obtain ⟨right,second⟩ := Option.isSome_iff_exists.mp (lent (2 * pair + 1) (by omega))
  simp only [decodePair, byteWithin (show s.input < n by omega) within,
    byteWithin (show s.input + 1 < n by omega) within, byteWithin (show s.input + 2 < n by omega) within,
    byteWithin (show s.input + 3 < n by omega) within, byteWithin (show s.input + 4 < n by omega) within,
    byteWithin (show s.input + 5 < n by omega) within, first, second, Option.bind_eq_bind, Option.bind_some]
  rfl

theorem decodeFrameWithin {samples : Bytes} {channels frames frame : Nat} {s : Cursor} (even : channels % 2 = 0)
    (within : channels * frames * 3 ≤ samples.length) (inside : frame < frames)
    (here : s.input = 6 * (frame * (channels / 2))) (lent : Lent s.outputs channels) :
    decodeFrame (samples.take (channels * frames * 3)) channels frame s =
        some (ReacDecode.decodeFrame samples channels frame s) ∧
      (ReacDecode.decodeFrame samples channels frame s).input = 6 * ((frame + 1) * (channels / 2)) ∧
      Lent (ReacDecode.decodeFrame samples channels frame s).outputs channels := by
  -- Before each pair the pointer has six more bytes of the window in front of it.
  have pairs : (channels + 1) / 2 = channels / 2 := by omega
  have rows : (frame + 1) * (channels / 2) ≤ frames * (channels / 2) := Nat.mul_le_mul_right _ inside
  have next : (frame + 1) * (channels / 2) = frame * (channels / 2) + channels / 2 := Nat.succ_mul _ _
  have window : channels * frames * 3 = 6 * (frames * (channels / 2)) := by
    have half : channels = 2 * (channels / 2) := by omega
    calc channels * frames * 3 = 2 * (channels / 2) * frames * 3 := by rw [← half]
      _ = 6 * (frames * (channels / 2)) := by ring
  obtain ⟨result,input,lent'⟩ := loopSomeInvariant (n := channels / 2) (s := s)
    (f := fun pair s => ReacDecode.decodePair samples frame (2 * pair) s)
    (P := fun pair (t : Cursor) => t.input = 6 * (frame * (channels / 2) + pair) ∧ Lent t.outputs channels)
    ⟨by rw [here, Nat.add_zero],lent⟩ (fun pair t below before => by
      obtain ⟨pair_,kept⟩ := decodePairWithin (n := channels * frames * 3) frame below within
        (by rw [before.1, window]; omega) before.2
      refine ⟨pair_,?_,kept⟩
      change t.input + 6 = _
      rw [before.1]
      ring)
  refine ⟨by rw [decodeFrame, ReacDecode.decodeFrame, pairs]; exact result,?_,?_⟩
  · rw [ReacDecode.decodeFrame, pairs, next]
    exact input
  · rw [ReacDecode.decodeFrame, pairs]
    exact lent'

theorem decodeStays {samples : Bytes} {channels frames : Nat} {outputs : Outputs} (even : channels % 2 = 0)
    (within : channels * frames * 3 ≤ samples.length) (lent : Lent outputs channels) :
    decode (samples.take (channels * frames * 3)) channels frames outputs =
      some (overwritten outputs (fun ch f => decide (ch < channels) && decide (f < frames))
        (decodedSample samples channels)) := by
  obtain ⟨result,_⟩ := loopSomeInvariant (n := frames) (s := (⟨0,outputs⟩ : Cursor))
    (g := fun frame s => decodeFrame (samples.take (channels * frames * 3)) channels frame s)
    (f := fun frame s => ReacDecode.decodeFrame samples channels frame s)
    (P := fun frame (t : Cursor) => t.input = 6 * (frame * (channels / 2)) ∧ Lent t.outputs channels)
    ⟨by simp,lent⟩ (fun frame t inside before =>
      decodeFrameWithin even within inside before.1 before.2)
  rw [decode, result, decodeLoops frames even]
  rfl

theorem refusedUntouched (samples : Option Bytes) (sampleBytes : Nat) (channels : UInt16) (frames : Nat)
    (outputs : Option Outputs)
    (refused : (reacDecodeSamplesToChannels samples sampleBytes channels frames outputs).1 ≠ .ok) :
    (reacDecodeSamplesToChannels samples sampleBytes channels frames outputs).2 = outputs := by
  unfold reacDecodeSamplesToChannels at *
  split
  · rename_i samples outputs
    simp only [] at refused ⊢
    split
    · rfl
    split
    · rfl
    split
    · rfl
    · rename_i supported size lent
      rw [if_neg supported, if_neg size, if_neg lent] at refused
      exact absurd rfl refused
  · rfl

def betweenMarkers (packet : Bytes) : Bytes :=
  (packet.drop reacPacketOverhead).take (packet.length - reacPacketOverhead - reacEndMarkerBytes)

def samplesOf (channels frames : Nat) (ch f : Nat) : Bool := decide (ch < channels) && decide (f < frames)

theorem parsedDecodes {packet : Bytes} {old view : ReacPacketView}
    (parsed : reacParsePacket (some packet) (some old) = (.ok,some view)) {outputs : Outputs}
    (lent : Lent outputs view.channels.toNat) :
    let decoded := overwritten outputs (samplesOf view.channels.toNat reacFramesPerPacket)
      (decodedSample (packet.drop reacPacketOverhead) view.channels.toNat)
    reacDecodeSamplesToChannels view.payload view.payloadSize view.channels reacFramesPerPacket (some outputs) =
        (.ok,some decoded) ∧
      decode (betweenMarkers packet) view.channels.toNat reacFramesPerPacket outputs = some decoded := by
  intro decoded
  obtain ⟨channels,wellFormed,same⟩ := parsedWellFormed parsed
  cases Option.some.inj same
  have count := viewChannels packet wellFormed.most
  have length := wellFormed.length
  have payload : 36 * channels = channels * reacFramesPerPacket * 3 := by
    rw [reacFramesPerPacket]
    ring
  have window : betweenMarkers packet = (packet.drop 50).take (channels * reacFramesPerPacket * 3) := by
    rw [← payload, payloadTake wellFormed]
    rfl
  constructor
  · exact decodeSpec (by rw [count]; exact wellFormed.positive) (by rw [count]; exact wellFormed.most)
      (by rw [count]; exact wellFormed.even) (by rw [count]; exact payload)
      (by have := wellFormed.most; simp only [viewOf]; omega) lent
  · rw [window]
    rw [count] at lent
    simp only [decoded, count]
    refine decodeStays wellFormed.even ?_ lent
    rw [List.length_drop]
    omega

theorem callbackOk {capacity : Nat} {jackBufferFrames : UInt32} {s : System capacity}
    (reachable : Reachable jackBufferFrames s) {cycle : Cycle} {bufferSize : Nat}
    (processing : s.processing = some (cycle,bufferSize)) {processBuffer : Bytes}
    (whole : processBuffer.length = bufferSize) (lent : Lent cycle.buffers s.bridge.currentNumberOfChannels.toNat) :
    (reacDecodeSamplesToChannels (some processBuffer) processBuffer.length
      s.bridge.currentNumberOfChannels.toUInt16 cycle.nframes.toNat (some cycle.buffers)).1 = .ok ∧
    (decode processBuffer s.bridge.currentNumberOfChannels.toNat cycle.nframes.toNat cycle.buffers).isSome = true := by
  obtain ⟨channels,running⟩ := reachableRunning reachable
  obtain ⟨some_,size⟩ := running.pending cycle bufferSize processing
  have supported := running.supported.resolve_left some_
  have count := running.shaped.count
  rw [count] at lent ⊢
  have exact_ : channels * cycle.nframes.toNat * 3 = processBuffer.length := by
    rw [whole, size]
    ring
  rw [callbackDecodes running.shaped supported cycle size whole lent]
  have stays := decodeStays supported.even (Nat.le_of_eq exact_) lent
  rw [exact_, List.take_length] at stays
  exact ⟨rfl,by rw [stays]; rfl⟩

/-- After a successful parse decoding succeeds, reads only the payload and writes only the
packet's samples; no loop sees it fail, and where it fails nothing is written. -/
theorem decodeAllOrNothing :
    (∀ (packet : Bytes) (old view : ReacPacketView),
      reacParsePacket (some packet) (some old) = (.ok,some view) →
      ∀ outputs, Lent outputs view.channels.toNat →
        let decoded := overwritten outputs (samplesOf view.channels.toNat reacFramesPerPacket)
          (decodedSample (packet.drop reacPacketOverhead) view.channels.toNat)
        reacDecodeSamplesToChannels view.payload view.payloadSize view.channels reacFramesPerPacket
            (some outputs) = (.ok,some decoded) ∧
          decode (betweenMarkers packet) view.channels.toNat reacFramesPerPacket outputs = some decoded) ∧
    (∀ (packetBytes : Bytes) (view : ReacPacketView),
      reacParsePacket (some packetBytes) (some cleared) = (.ok,some view) → ∀ channelStorage,
        (reacDecodeSamplesToChannels view.payload view.payloadSize view.channels reacFramesPerPacket
          (some (channelPtrs channelStorage))).1 = .ok) ∧
    (∀ (capacity : Nat) (jackBufferFrames : UInt32) (s : System capacity), Reachable jackBufferFrames s →
      ∀ cycle bufferSize, s.processing = some (cycle,bufferSize) →
        let processBuffer := (jackRingbufferRead s.bridge.ringbuffer bufferSize).1
        processBuffer.length = bufferSize → Lent cycle.buffers s.bridge.currentNumberOfChannels.toNat →
        (reacDecodeSamplesToChannels (some processBuffer) processBuffer.length
            s.bridge.currentNumberOfChannels.toUInt16 cycle.nframes.toNat (some cycle.buffers)).1 = .ok ∧
          (decode processBuffer s.bridge.currentNumberOfChannels.toNat cycle.nframes.toNat
            cycle.buffers).isSome = true) ∧
    (∀ samples sampleBytes channels frames outputs,
      (reacDecodeSamplesToChannels samples sampleBytes channels frames outputs).1 ≠ .ok →
      (reacDecodeSamplesToChannels samples sampleBytes channels frames outputs).2 = outputs) := by
  refine ⟨?_,?_,?_,refusedUntouched⟩
  · exact fun packet old view parsed outputs lent => parsedDecodes parsed lent
  · intro packetBytes view parsed channelStorage
    obtain ⟨channels,wellFormed,same⟩ := parsedWellFormed parsed
    cases Option.some.inj same
    have lent := Daemon.lentStorage channelStorage wellFormed.most
    rw [← viewChannels packetBytes wellFormed.most] at lent
    rw [(parsedDecodes parsed lent).1]
  · exact fun capacity jackBufferFrames s reachable cycle bufferSize processing whole lent =>
      callbackOk reachable processing whole lent

theorem decodeAllOrNothingQuiet :
    (reacDecodeSamplesToChannels (some (ReacWire.quietPacket.drop 50)) 72 2 reacFramesPerPacket
      (some (channelPtrs fun _ _ => 1))).1 = .ok :=
  decodeAllOrNothing.2.1 ReacWire.quietPacket (viewOf ReacWire.quietPacket 2) (by decide +kernel) fun _ _ => 1

end ReacJack.DecodeWithin
