import Mathlib.Data.List.Basic
import ReacJack.ReacDecodeSpec

/-! The wire format, as the tests of the decoder build it: six bytes for the two
samples of a pair of channels, pair by pair and frame by frame, between a header
and an end marker. -/
namespace ReacJack.ReacWire
open BufferLoops ReacDecode

structure Sample24 where
  value : Int32
  low : -2 ^ 23 ≤ value.toInt
  high : value.toInt < 2 ^ 23

def putBe16 (data : Nat → UInt8) (i : Nat) (value : UInt16) : Nat → UInt8 :=
  put (put data i (value >>> 8).toUInt8) (i + 1) (value &&& 0xff).toUInt8

def putLe16 (data : Nat → UInt8) (i : Nat) (value : UInt16) : Nat → UInt8 :=
  put (put data i (value &&& 0xff).toUInt8) (i + 1) (value >>> 8).toUInt8

def putReacSamplePair (sample1 sample2 : Int32) : Bytes :=
  let value1 := sample1.toUInt32 &&& 0x00ffffff
  let value2 := sample2.toUInt32 &&& 0x00ffffff
  [(value1 >>> 8 &&& 0xff).toUInt8,(value1 >>> 16 &&& 0xff).toUInt8,(value2 >>> 16 &&& 0xff).toUInt8,
    (value1 &&& 0xff).toUInt8,(value2 &&& 0xff).toUInt8,(value2 >>> 8 &&& 0xff).toUInt8]

def encodeSamples (channels frames : Nat) (samples : Nat → Nat → Sample24) : Bytes :=
  (List.range frames).flatMap (fun frame => (List.range (channels / 2)).flatMap (fun pair =>
    putReacSamplePair (samples (2 * pair) frame).value (samples (2 * pair + 1) frame).value))

def makePacket (header : Nat → UInt8) (counter : UInt16) (channels : Nat)
    (samples : Nat → Nat → Sample24) : Bytes :=
  let packet := putBe16 header 12 reacEthertype
  let packet := putLe16 packet ethernetHeaderBytes counter
  (List.range reacPacketOverhead).map packet ++ encodeSamples channels reacFramesPerPacket samples ++
    [reacEndMarker0,reacEndMarker1]

theorem blocksLength {n k : Nat} {g : Nat → Bytes} (size : ∀ i, (g i).length = k) :
    ((List.range n).flatMap g).length = n * k := by
  induction n with
  | zero => simp
  | succ n ih =>
    rw [List.range_succ, List.flatMap_append, List.length_append, ih, List.flatMap_singleton, size,
      Nat.succ_mul]

theorem at_Append (first second : Bytes) (i : Nat) : at_ (first ++ second) i =
    if i < first.length then at_ first i else at_ second (i - first.length) := by
  simp only [at_, List.getD_eq_getElem?_getD]
  split
  · rename_i inside
    rw [List.getElem?_append_left inside]
  · rename_i outside
    rw [List.getElem?_append_right (Nat.not_lt.mp outside)]

theorem at_Blocks {n k i j : Nat} {g : Nat → Bytes} (size : ∀ i, (g i).length = k) (block : i < n)
    (inside : j < k) : at_ ((List.range n).flatMap g) (k * i + j) = at_ (g i) j := by
  induction n with
  | zero => contradiction
  | succ n ih =>
    rw [List.range_succ, List.flatMap_append, List.flatMap_singleton, at_Append, blocksLength size]
    have rows : k * i + j < n * k ↔ i < n := by
      constructor
      · intro less
        by_contra more
        have := Nat.mul_le_mul_left k (Nat.not_lt.mp more)
        rw [Nat.mul_comm n k] at less
        omega
      · intro less
        have : i * k + j < n * k := cellBound less inside
        rw [Nat.mul_comm k i]
        exact this
    by_cases earlier : i < n
    · rw [if_pos (rows.mpr earlier), ih earlier]
    · obtain rfl : i = n := by omega
      rw [if_neg (by rw [rows]; omega), Nat.mul_comm i k, Nat.add_sub_cancel_left]

theorem bytesExt {first second : Bytes} (length : first.length = second.length)
    (same : ∀ i, i < first.length → at_ first i = at_ second i) : first = second := by
  refine List.ext_getElem length fun i inside inside' => ?_
  have := same i inside
  simpa only [at_, List.getD_eq_getElem?_getD, List.getElem?_eq_getElem inside,
    List.getElem?_eq_getElem inside', Option.getD_some] using this

theorem wordOfBytes {v : UInt32} (small : v.toNat < 2 ^ 24) :
    word (v &&& 0xff).toUInt8 (v >>> 8 &&& 0xff).toUInt8 (v >>> 16 &&& 0xff).toUInt8 = v.toNat := by
  have mask : (0xff : UInt32).toNat = 2 ^ 8 - 1 := rfl
  have eight : (8 : UInt32).toNat % 32 = 8 := rfl
  have sixteen : (16 : UInt32).toNat % 32 = 16 := rfl
  simp only [word, UInt32.toNat_toUInt8, UInt32.toNat_and, UInt32.toNat_shiftRight, mask, eight, sixteen,
    Nat.and_two_pow_sub_one_eq_mod, Nat.shiftRight_eq_div_pow]
  omega

theorem maskedLt (x : UInt32) : (x &&& 0x00ffffff).toNat < 2 ^ 24 := by
  have mask : (0x00ffffff : UInt32).toNat = 2 ^ 24 - 1 := rfl
  rw [UInt32.toNat_and, mask, Nat.and_two_pow_sub_one_eq_mod]
  exact Nat.mod_lt _ (by decide)

theorem signedMasked (s : Sample24) : signed24 (s.value.toUInt32 &&& 0x00ffffff).toNat = s.value.toInt := by
  have mask : (0x00ffffff : UInt32).toNat = 2 ^ 24 - 1 := rfl
  have low := s.low
  have high := s.high
  have bits : s.value.toInt = s.value.toUInt32.toBitVec.toInt := rfl
  rw [BitVec.toInt_eq_toNat_cond, UInt32.toNat_toBitVec] at bits
  have := s.value.toUInt32.toNat_lt
  rw [UInt32.toNat_and, mask, Nat.and_two_pow_sub_one_eq_mod]
  unfold signed24
  split at bits <;> split <;> omega

def sampleOf (n : Nat) (small : n < 2 ^ 24) : Sample24 :=
  have value : (signExtend24 (UInt32.ofNat n)).toInt = signed24 n := by
    have same : (UInt32.ofNat n).toNat = n := by
      rw [UInt32.toNat_ofNat']
      omega
    rw [signExtend24ToInt (by rw [same]; exact small), same]
  ⟨signExtend24 (UInt32.ofNat n),by rw [value]; exact (signed24Range small).1,
    by rw [value]; exact (signed24Range small).2⟩

theorem sampleOfToInt {n : Nat} (small : n < 2 ^ 24) : (sampleOf n small).value.toInt = signed24 n := by
  have same : (UInt32.ofNat n).toNat = n := by
    rw [UInt32.toNat_ofNat']
    omega
  rw [sampleOf, signExtend24ToInt (by rw [same]; exact small), same]

theorem sampleOfMasked {n : Nat} (small : n < 2 ^ 24) :
    ((sampleOf n small).value.toUInt32 &&& 0x00ffffff).toNat = n := by
  refine signed24Injective (maskedLt _) small ?_
  rw [signedMasked, sampleOfToInt]

theorem pairLength (a b : Int32) : (putReacSamplePair a b).length = 6 := rfl

theorem frameLength (channels frame : Nat) (samples : Nat → Nat → Sample24) :
    ((List.range (channels / 2)).flatMap (fun pair =>
      putReacSamplePair (samples (2 * pair) frame).value (samples (2 * pair + 1) frame).value)).length =
      channels / 2 * 6 :=
  blocksLength fun _ => pairLength _ _

theorem encodeLength (channels frames : Nat) (samples : Nat → Nat → Sample24) :
    (encodeSamples channels frames samples).length = frames * (channels / 2 * 6) :=
  blocksLength fun frame => frameLength channels frame samples

theorem encodedPair {channels frames frame pair j : Nat} (samples : Nat → Nat → Sample24)
    (inFrames : frame < frames) (inPairs : pair < channels / 2) (inSix : j < 6) :
    at_ (encodeSamples channels frames samples) (6 * (frame * (channels / 2) + pair) + j) =
      at_ (putReacSamplePair (samples (2 * pair) frame).value (samples (2 * pair + 1) frame).value) j := by
  have row : 6 * pair + j < channels / 2 * 6 := by omega
  have address : 6 * (frame * (channels / 2) + pair) + j = channels / 2 * 6 * frame + (6 * pair + j) := by ring
  rw [address, encodeSamples, at_Blocks (fun frame => frameLength channels frame samples) inFrames row,
    at_Blocks (fun _ => pairLength _ _) inPairs inSix]

theorem rawEncoded {channels frames ch frame : Nat} (samples : Nat → Nat → Sample24) (rest : Bytes)
    (even : channels % 2 = 0) (channel : ch < channels) (inside : frame < frames) :
    rawSample (encodeSamples channels frames samples ++ rest) channels ch frame =
      ((samples ch frame).value.toUInt32 &&& 0x00ffffff).toNat := by
  have pair : ch / 2 < channels / 2 := by omega
  have bytes : ∀ j, j < 6 → at_ (encodeSamples channels frames samples ++ rest)
      (6 * (frame * (channels / 2) + ch / 2) + j) =
        at_ (putReacSamplePair (samples (2 * (ch / 2)) frame).value (samples (2 * (ch / 2) + 1) frame).value) j := by
    intro j inSix
    have below := cellBound inside pair
    rw [at_Append, if_pos (by rw [encodeLength, ← Nat.mul_assoc]; omega), encodedPair samples inside pair inSix]
  simp only [rawSample]
  split
  · rename_i first
    have here : 2 * (ch / 2) = ch := by omega
    rw [bytes 3 (by decide), ← Nat.add_zero (6 * _), bytes 0 (by decide), Nat.add_zero, bytes 1 (by decide),
      here]
    exact wordOfBytes (maskedLt _)
  · rename_i second
    have here : 2 * (ch / 2) + 1 = ch := by omega
    rw [bytes 4 (by decide), bytes 5 (by decide), bytes 2 (by decide), here]
    exact wordOfBytes (maskedLt _)

theorem decodedEncoded {channels frames ch frame : Nat} (samples : Nat → Nat → Sample24) (rest : Bytes)
    (even : channels % 2 = 0) (channel : ch < channels) (inside : frame < frames) :
    decodedSample (encodeSamples channels frames samples ++ rest) channels ch frame =
      (samples ch frame).value.toInt / 2 ^ 23 := by
  rw [decodedSample, rawEncoded samples rest even channel inside, signedMasked]

def samplesOf (payload : Bytes) (channels ch frame : Nat) : Sample24 :=
  sampleOf (rawSample payload channels ch frame) (rawSampleLt _ _ _ _)

theorem pairOfBytes (payload : Bytes) {channels frame pair j : Nat} (inSix : j < 6) :
    at_ (putReacSamplePair (samplesOf payload channels (2 * pair) frame).value
      (samplesOf payload channels (2 * pair + 1) frame).value) j =
        at_ payload (6 * (frame * (channels / 2) + pair) + j) := by
  let o := 6 * (frame * (channels / 2) + pair)
  have parity : 2 * pair % 2 = 0 ∧ 2 * pair / 2 = pair ∧ ¬ (2 * pair + 1) % 2 = 0 ∧
    (2 * pair + 1) / 2 = pair := by omega
  have even : rawSample payload channels (2 * pair) frame =
      word (at_ payload (o + 3)) (at_ payload o) (at_ payload (o + 1)) := by
    simp only [rawSample, parity, if_true, o]
  have odd : rawSample payload channels (2 * pair + 1) frame =
      word (at_ payload (o + 4)) (at_ payload (o + 5)) (at_ payload (o + 2)) := by
    simp only [rawSample, parity, if_false, o]
  have first := ((wordOfBytes (maskedLt _)).trans
    (sampleOfMasked (rawSampleLt payload channels (2 * pair) frame))).trans even
  have second := ((wordOfBytes (maskedLt _)).trans
    (sampleOfMasked (rawSampleLt payload channels (2 * pair + 1) frame))).trans odd
  obtain ⟨b3,b0,b1⟩ := wordInjective first
  obtain ⟨b4,b5,b2⟩ := wordInjective second
  have cases_ : j = 0 ∨ j = 1 ∨ j = 2 ∨ j = 3 ∨ j = 4 ∨ j = 5 := by omega
  rcases cases_ with rfl | rfl | rfl | rfl | rfl | rfl
  · exact b0
  · exact b1
  · exact b2
  · exact b3
  · exact b4
  · exact b5

theorem encodeSamplesOf {payload : Bytes} {channels frames : Nat}
    (length : frames * (channels / 2 * 6) ≤ payload.length) :
    encodeSamples channels frames (samplesOf payload channels) = payload.take (frames * (channels / 2 * 6)) := by
  refine bytesExt ?_ ?_
  · rw [encodeLength, List.length_take, Nat.min_eq_left length]
  · intro i inside
    rw [encodeLength] at inside
    have positive : 0 < channels / 2 := by
      rcases Nat.eq_zero_or_pos (channels / 2) with zero | some
      · rw [zero] at inside
        omega
      · exact some
    have within : i / 6 < frames * (channels / 2) := by
      rw [← Nat.mul_assoc] at inside
      omega
    obtain ⟨cell,column⟩ := cellOf positive (i / 6)
    have row : i / 6 / (channels / 2) < frames := Nat.div_lt_of_lt_mul (by rw [Nat.mul_comm]; exact within)
    have address : i = 6 * (i / 6 / (channels / 2) * (channels / 2) + i / 6 % (channels / 2)) + i % 6 := by
      rw [cell]
      omega
    have taken : at_ (payload.take (frames * (channels / 2 * 6))) i = at_ payload i := by
      simp only [at_, List.getD_eq_getElem?_getD, List.getElem?_take_of_lt inside]
    rw [taken, address, encodedPair _ row column (Nat.mod_lt _ (by decide)),
      pairOfBytes payload (Nat.mod_lt _ (by decide))]

theorem encodeCongr {channels frames : Nat} {samples samples' : Nat → Nat → Sample24}
    (even : channels % 2 = 0)
    (same : ∀ ch frame, ch < channels → frame < frames → (samples ch frame).value = (samples' ch frame).value) :
    encodeSamples channels frames samples = encodeSamples channels frames samples' := by
  unfold encodeSamples
  refine List.flatMap_congr fun frame inFrames => List.flatMap_congr fun pair inPairs => ?_
  rw [List.mem_range] at inFrames inPairs
  rw [same _ _ (by omega) inFrames, same _ _ (by omega) inFrames]

def headerBytes (header : Nat → UInt8) (counter : UInt16) : Nat → UInt8 :=
  putLe16 (putBe16 header 12 reacEthertype) ethernetHeaderBytes counter

theorem headerType (header : Nat → UInt8) (counter : UInt16) :
    headerBytes header counter 12 = 0x88 ∧ headerBytes header counter 13 = 0x19 := ⟨rfl,rfl⟩

theorem headerCounter (header : Nat → UInt8) (counter : UInt16) :
    256 * (headerBytes header counter 15).toNat + (headerBytes header counter 14).toNat = counter.toNat := by
  have small := counter.toNat_lt
  have mask : (0xff : UInt16).toNat = 2 ^ 8 - 1 := rfl
  have eight : (8 : UInt16).toNat % 16 = 8 := rfl
  have high : headerBytes header counter 15 = (counter >>> 8).toUInt8 := rfl
  have low : headerBytes header counter 14 = (counter &&& 0xff).toUInt8 := rfl
  rw [high, low]
  simp only [UInt16.toNat_toUInt8, UInt16.toNat_and, UInt16.toNat_shiftRight, mask, eight,
    Nat.and_two_pow_sub_one_eq_mod, Nat.shiftRight_eq_div_pow]
  omega

theorem headerElsewhere (header : Nat → UInt8) (counter : UInt16) {i : Nat}
    (outside : i < 12 ∨ 16 ≤ i) : headerBytes header counter i = header i := by
  unfold headerBytes putLe16 putBe16 ethernetHeaderBytes
  rw [putElsewhere, putElsewhere, putElsewhere, putElsewhere] <;> omega

theorem packetParts (header : Nat → UInt8) (counter : UInt16) (channels : Nat)
    (samples : Nat → Nat → Sample24) : makePacket header counter channels samples =
      (List.range 50).map (headerBytes header counter) ++
        (encodeSamples channels 12 samples ++ [reacEndMarker0,reacEndMarker1]) :=
  List.append_assoc _ _ _

theorem packetHeader (header : Nat → UInt8) (counter : UInt16) (channels : Nat)
    (samples : Nat → Nat → Sample24) {i : Nat} (inside : i < 50) :
    at_ (makePacket header counter channels samples) i = headerBytes header counter i := by
  rw [packetParts, at_Append, if_pos (by rw [List.length_map, List.length_range]; exact inside)]
  simp [at_, inside]

theorem packetDrop (header : Nat → UInt8) (counter : UInt16) (channels : Nat)
    (samples : Nat → Nat → Sample24) : (makePacket header counter channels samples).drop 50 =
      encodeSamples channels 12 samples ++ [reacEndMarker0,reacEndMarker1] := by
  rw [packetParts]
  exact List.drop_left' (by rw [List.length_map, List.length_range])

theorem packetLength (header : Nat → UInt8) (counter : UInt16) {channels : Nat}
    (samples : Nat → Nat → Sample24) (even : channels % 2 = 0) :
    (makePacket header counter channels samples).length = 50 + 36 * channels + 2 := by
  simp only [packetParts, List.length_append, List.length_map, List.length_range, encodeLength,
    List.length_cons, List.length_nil]
  omega

theorem packetTail (header : Nat → UInt8) (counter : UInt16) {channels : Nat}
    (samples : Nat → Nat → Sample24) (even : channels % 2 = 0) :
    at_ (makePacket header counter channels samples) (50 + 36 * channels) = 0xc2 ∧
      at_ (makePacket header counter channels samples) (50 + 36 * channels + 1) = 0xea := by
  have payload : (encodeSamples channels 12 samples).length = 36 * channels := by
    rw [encodeLength]
    omega
  have first := at_Drop (makePacket header counter channels samples) 50 (36 * channels)
  have second := at_Drop (makePacket header counter channels samples) 50 (36 * channels + 1)
  rw [packetDrop, at_Append, payload, if_neg (by omega), Nat.sub_self] at first
  rw [packetDrop, at_Append, payload, if_neg (by omega), Nat.add_sub_cancel_left] at second
  exact ⟨first.symm,second.symm⟩

theorem packetWellFormed (header : Nat → UInt8) (counter : UInt16) {channels : Nat}
    (samples : Nat → Nat → Sample24) (even : channels % 2 = 0) (positive : channels ≠ 0)
    (most : channels ≤ 40) : WellFormed (makePacket header counter channels samples) channels := by
  have length := packetLength header counter samples even
  have tail := packetTail header counter samples even
  refine ⟨length,positive,most,even,?_,?_⟩
  · rw [packetHeader _ _ _ _ (by decide), packetHeader _ _ _ _ (by decide)]
    exact headerType header counter
  · rw [length]
    exact tail

def quietPacket : Bytes := makePacket (fun _ => 0) 0 2 (fun _ _ => ⟨0,by decide,by decide⟩)

theorem quietWellFormed : WellFormed quietPacket (2 : UInt16).toNat :=
  packetWellFormed _ _ _ (by decide) (by decide) (by decide)

theorem packetCounter (header : Nat → UInt8) (counter : UInt16) (channels : Nat)
    (samples : Nat → Nat → Sample24) :
    readLe16 ((makePacket header counter channels samples).drop 14) = counter := by
  rw [← UInt16.toNat_inj, readLe16ToNat, at_Drop, at_Drop, packetHeader _ _ _ _ (by decide),
    packetHeader _ _ _ _ (by decide)]
  exact headerCounter header counter

def numberedPacket (n : Nat) : Bytes :=
  makePacket (fun _ => 0) (UInt16.ofNat n) 2 (fun _ _ => ⟨0,by decide,by decide⟩)

theorem numberedWellFormed (n : Nat) : WellFormed (numberedPacket n) (2 : UInt16).toNat :=
  packetWellFormed _ _ _ (by decide) (by decide) (by decide)

theorem numberedCounter (n channels : Nat) : (viewOf (numberedPacket n) channels).counter = UInt16.ofNat n :=
  packetCounter _ _ _ _

theorem rebuild {frame : Bytes} {channels : Nat} (wellFormed : WellFormed frame channels) :
    makePacket (at_ frame) (readLe16 (frame.drop 14)) channels (samplesOf (frame.drop 50) channels) =
      frame := by
  obtain ⟨length,_,_,even,ethertype,marker⟩ := wellFormed
  let counter := readLe16 (frame.drop 14)
  have tail := packetTail (at_ frame) counter (samplesOf (frame.drop 50) channels) even
  refine bytesExt (by rw [packetLength _ _ _ even, length]) ?_
  intro i inside
  rw [packetLength _ _ _ even] at inside
  rcases Nat.lt_or_ge i 50 with inHeader | behind
  · rw [packetHeader _ _ _ _ inHeader]
    have counted := headerCounter (at_ frame) counter
    have count := readLe16ToNat (frame.drop 14)
    rw [at_Drop, at_Drop] at count
    have := (headerBytes (at_ frame) counter 14).toNat_lt
    have := (at_ frame 14).toNat_lt
    have bytes : headerBytes (at_ frame) counter 14 = at_ frame 14 ∧
        headerBytes (at_ frame) counter 15 = at_ frame 15 := by
      simp only [← UInt8.toNat_inj]
      simp only [Nat.add_zero, Nat.reduceAdd, counter] at *
      omega
    have cases_ : i = 12 ∨ i = 13 ∨ i = 14 ∨ i = 15 ∨ (i < 12 ∨ 16 ≤ i) := by omega
    rcases cases_ with rfl | rfl | rfl | rfl | elsewhere
    · exact ethertype.1.symm
    · exact ethertype.2.symm
    · exact bytes.1
    · exact bytes.2
    · exact headerElsewhere _ _ elsewhere
  · rcases Nat.lt_or_ge i (50 + 36 * channels) with inPayload | last
    · have size : 12 * (channels / 2 * 6) = 36 * channels := by omega
      have dropped := at_Drop (makePacket (at_ frame) counter channels (samplesOf (frame.drop 50) channels))
        50 (i - 50)
      have dropped' := at_Drop frame 50 (i - 50)
      have back : 50 + (i - 50) = i := by omega
      rw [back] at dropped dropped'
      rw [← dropped, ← dropped', packetDrop, encodeSamplesOf (by rw [List.length_drop]; omega), size, at_Append,
        if_pos (by rw [List.length_take, List.length_drop]; omega)]
      simp only [at_, List.getD_eq_getElem?_getD, List.getElem?_take_of_lt (show i - 50 < 36 * channels by omega)]
    · have ends : i = 50 + 36 * channels ∨ i = 50 + 36 * channels + 1 := by omega
      have places : frame.length - 2 = 50 + 36 * channels ∧ frame.length - 1 = 50 + 36 * channels + 1 := by omega
      rw [places.1, places.2] at marker
      rcases ends with rfl | rfl
      · rw [tail.1, marker.1]
      · rw [tail.2, marker.2]

def Float32Exact (x : Rat) : Prop := ∃ m e : Int, |m| < 2 ^ 24 ∧ -149 ≤ e ∧ e ≤ 104 ∧ x = m * 2 ^ e

theorem sampleFloat32 (s : Sample24) : Float32Exact (s.value.toInt / 2 ^ 23) := by
  have low := s.low
  have high := s.high
  refine ⟨s.value.toInt,-23,?_,by decide,by decide,?_⟩
  · rw [abs_lt]
    omega
  · rw [zpow_neg, div_eq_mul_inv]
    rfl

def DecodesTo (view : ReacPacketView) (samples : Nat → Nat → Sample24) : Prop :=
  ∀ outputs, Lent outputs view.channels.toNat → ∃ decoded,
    reacDecodeSamplesToChannels view.payload view.payloadSize view.channels reacFramesPerPacket
      (some outputs) = (.ok,some decoded) ∧
    ∀ ch frame, ch < view.channels.toNat → frame < reacFramesPerPacket → ∃ buffer,
      decoded ch = some buffer ∧ buffer frame = (samples ch frame).value.toInt / 2 ^ 23 ∧
      Float32Exact (buffer frame)

theorem decodesTo {frame : Bytes} {channels : Nat} {samples : Nat → Nat → Sample24}
    (wellFormed : WellFormed frame channels)
    (values : ∀ ch f, ch < channels → f < 12 →
      decodedSample (frame.drop 50) channels ch f = (samples ch f).value.toInt / 2 ^ 23) :
    DecodesTo (viewOf frame channels) samples := by
  obtain ⟨length,positive,most,even,_,_⟩ := wellFormed
  have count := viewChannels frame most
  intro outputs lent
  refine ⟨_,decodeSpec (by rw [count]; exact positive) (by rw [count]; exact most)
    (by rw [count]; exact even) (by rw [count]; simp only [viewOf, reacFramesPerPacket]; omega)
    (by simp only [viewOf]; omega) lent,?_⟩
  intro ch f channel inside
  obtain ⟨buffer,here⟩ := Option.isSome_iff_exists.mp (lent ch channel)
  obtain ⟨filled,there,value⟩ := overwrittenDone
    (fun c f => decide (c < channels) && decide (f < 12)) (decodedSample (frame.drop 50) channels)
    (f := f) here
    (by rw [count] at channel; simp only [channel, show f < 12 from inside, decide_true, Bool.and_self])
  rw [count] at channel ⊢
  refine ⟨filled,there,?_⟩
  rw [value, values ch f channel inside]
  exact ⟨rfl,sampleFloat32 _⟩

theorem sameValue {s s' : Sample24} (same : (s.value.toInt : Rat) / 2 ^ 23 = s'.value.toInt / 2 ^ 23) :
    s.value = s'.value := by
  rw [div_left_inj' (by norm_num)] at same
  exact Int32.toInt_inj.mp (by exact_mod_cast same)

def silent : Outputs := fun _ => some (fun _ => 0)

theorem decodesUnique {view : ReacPacketView} {samples samples' : Nat → Nat → Sample24}
    (first : DecodesTo view samples) (second : DecodesTo view samples') {ch f : Nat}
    (channel : ch < view.channels.toNat) (inside : f < 12) :
    (samples ch f).value = (samples' ch f).value := by
  obtain ⟨decoded,result,values⟩ := first silent (fun _ _ => rfl)
  obtain ⟨decoded',result',values'⟩ := second silent (fun _ _ => rfl)
  rw [result] at result'
  cases result'
  obtain ⟨buffer,here,value,_⟩ := values ch f channel inside
  obtain ⟨buffer',here',value',_⟩ := values' ch f channel inside
  rw [here] at here'
  cases here'
  exact sameValue (value.symm.trans value')

theorem parseDecode {frame : Bytes} {old view : ReacPacketView}
    (parsed : reacParsePacket (some frame) (some old) = (.ok,some view)) :
    ∃ channels, WellFormed frame channels ∧ view = viewOf frame channels ∧ view.channels.toNat = channels ∧
      DecodesTo view (samplesOf (frame.drop 50) channels) := by
  obtain ⟨channels,wellFormed,same⟩ := parsedWellFormed parsed
  cases same
  refine ⟨channels,wellFormed,rfl,viewChannels frame wellFormed.most,decodesTo wellFormed ?_⟩
  intro ch f _ _
  rw [samplesOf, sampleOfToInt, decodedSample]

/-- What `make_packet` builds is parsed and decoded to the same samples; what is
parsed is what `make_packet` builds from the decoded samples; so different payloads
never decode alike. -/
theorem decoderInvertsWire :
    (∀ (header : Nat → UInt8) (counter : UInt16) (channels : Nat) (samples : Nat → Nat → Sample24)
      (old : ReacPacketView), channels % 2 = 0 → 2 ≤ channels → channels ≤ 40 → ∃ view,
      reacParsePacket (some (makePacket header counter channels samples)) (some old) = (.ok,some view) ∧
      view.counter = counter ∧ view.channels.toNat = channels ∧ view.payloadSize = 36 * channels ∧
      view.payload = some ((makePacket header counter channels samples).drop 50) ∧
      DecodesTo view samples) ∧
    (∀ (frame : Bytes) (old view : ReacPacketView),
      reacParsePacket (some frame) (some old) = (.ok,some view) → ∃ samples, DecodesTo view samples ∧
      makePacket (at_ frame) view.counter view.channels.toNat samples = frame) ∧
    (∀ (frame frame' : Bytes) (old view view' : ReacPacketView) (samples : Nat → Nat → Sample24),
      reacParsePacket (some frame) (some old) = (.ok,some view) →
      reacParsePacket (some frame') (some old) = (.ok,some view') →
      view.channels = view'.channels → DecodesTo view samples → DecodesTo view' samples →
      view.payload.map (List.take view.payloadSize) = view'.payload.map (List.take view'.payloadSize)) := by
  refine ⟨?_,?_,?_⟩
  · intro header counter channels samples old even least most
    have wellFormed := packetWellFormed header counter samples even (by omega) most
    refine ⟨_,parseWellFormed wellFormed old,packetCounter header counter channels samples,
      viewChannels _ most,rfl,rfl,decodesTo wellFormed ?_⟩
    intro ch f channel inside
    rw [packetDrop, decodedEncoded samples _ even channel inside]
  · intro frame old view parsed
    obtain ⟨channels,wellFormed,same,count,decodes⟩ := parseDecode parsed
    refine ⟨_,decodes,?_⟩
    rw [count, same]
    exact rebuild wellFormed
  · intro frame frame' old view view' samples parsed parsed' channels_ decodes decodes'
    obtain ⟨channels,wellFormed,rfl,count,first⟩ := parseDecode parsed
    obtain ⟨channels',wellFormed',rfl,count',second⟩ := parseDecode parsed'
    rw [channels_, count'] at count
    subst count
    have payload : ∀ {frame : Bytes}, WellFormed frame channels' →
        (frame.drop 50).take (36 * channels') = encodeSamples channels' 12 (samplesOf (frame.drop 50) channels') := by
      intro frame wellFormed
      have length := wellFormed.length
      have even := wellFormed.even
      have size : 12 * (channels' / 2 * 6) = 36 * channels' := by omega
      rw [encodeSamplesOf (by rw [List.length_drop]; omega), size]
    have equal : (frame.drop 50).take (36 * channels') = (frame'.drop 50).take (36 * channels') := by
      rw [payload wellFormed, payload wellFormed']
      refine encodeCongr wellFormed.even fun ch f channel inside => ?_
      have here := decodesUnique first decodes (by rw [viewChannels frame wellFormed.most]; exact channel) inside
      have there := decodesUnique second decodes' (by rw [count']; exact channel) inside
      exact here.trans there.symm
    simp only [viewOf, Option.map_some, equal]

def edgeSamples : Nat → Nat → Sample24 := fun ch frame =>
  if ch = 0 then (if frame = 0 then ⟨1,by decide,by decide⟩ else ⟨0x7fffff,by decide,by decide⟩)
  else if frame = 0 then ⟨-1,by decide,by decide⟩ else ⟨-0x800000,by decide,by decide⟩

theorem decoderInvertsWireEdges : ∃ view,
    reacParsePacket (some (makePacket (fun _ => 0) 0x1234 2 edgeSamples)) (some cleared) = (.ok,some view) ∧
    view.counter = 0x1234 ∧ DecodesTo view edgeSamples := by
  obtain ⟨view,parsed,counter,_,_,_,decodes⟩ := decoderInvertsWire.1 (fun _ => 0) 0x1234 2 edgeSamples
    cleared (by decide) (by decide) (by decide)
  exact ⟨view,parsed,counter,decodes⟩

end ReacJack.ReacWire
