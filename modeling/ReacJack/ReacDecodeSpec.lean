import Mathlib.Data.Nat.Bitwise
import ReacJack.ReacDecode

/-! What the decoder computes, in integers: byte triples are little-endian 24-bit
words, read as two's complement and scaled by 2^23. -/
namespace ReacJack.ReacDecode
open BufferLoops

def word (low middle high : UInt8) : Nat := low.toNat + 256 * middle.toNat + 65536 * high.toNat

theorem wordLt (low middle high : UInt8) : word low middle high < 2 ^ 24 := by
  have := low.toNat_lt
  have := middle.toNat_lt
  have := high.toNat_lt
  unfold word
  omega

theorem wordInjective {a b c a' b' c' : UInt8} (same : word a b c = word a' b' c') :
    a = a' ∧ b = b' ∧ c = c' := by
  have := a.toNat_lt
  have := b.toNat_lt
  have := c.toNat_lt
  have := a'.toNat_lt
  have := b'.toNat_lt
  have := c'.toNat_lt
  unfold word at same
  simp only [← UInt8.toNat_inj]
  omega

theorem assembled (low middle high : UInt8) :
    (low.toUInt32 ||| middle.toUInt32 <<< 8 ||| high.toUInt32 <<< 16).toNat = word low middle high := by
  have a := low.toNat_lt
  have b := middle.toNat_lt
  have c := high.toNat_lt
  have eight : (8 : UInt32).toNat % 32 = 8 := rfl
  have sixteen : (16 : UInt32).toNat % 32 = 16 := rfl
  have second : middle.toNat <<< 8 % 2 ^ 32 = middle.toNat <<< 8 := by
    rw [Nat.shiftLeft_eq]
    omega
  have third : high.toNat <<< 16 % 2 ^ 32 = high.toNat <<< 16 := by
    rw [Nat.shiftLeft_eq]
    omega
  have lower : low.toNat ||| middle.toNat <<< 8 = middle.toNat <<< 8 + low.toNat := by
    rw [Nat.shiftLeft_add_eq_or_of_lt (by omega), Nat.or_comm]
  simp only [UInt32.toNat_or, UInt32.toNat_shiftLeft, UInt8.toNat_toUInt32, eight, sixteen, second, third,
    lower]
  rw [Nat.or_comm, ← Nat.shiftLeft_add_eq_or_of_lt (by rw [Nat.shiftLeft_eq]; omega)]
  simp only [Nat.shiftLeft_eq, word]
  omega

def signed24 (n : Nat) : Int := if n < 2 ^ 23 then n else (n : Int) - 2 ^ 24

theorem signed24Range {n : Nat} (small : n < 2 ^ 24) : -2 ^ 23 ≤ signed24 n ∧ signed24 n < 2 ^ 23 := by
  unfold signed24
  split <;> omega

theorem signed24Injective {m n : Nat} (hm : m < 2 ^ 24) (hn : n < 2 ^ 24)
    (same : signed24 m = signed24 n) : m = n := by
  unfold signed24 at same
  split at same <;> split at same <;> omega

theorem signBit (value : UInt32) : value &&& 0x800000 ≠ 0 ↔ value.toNat / 2 ^ 23 % 2 = 1 := by
  have mask : (0x800000 : UInt32).toNat = 2 ^ 23 := rfl
  rw [ne_eq, ← UInt32.toNat_inj, UInt32.toNat_and, mask, UInt32.toNat_zero]
  rw [← decide_eq_true_iff (p := value.toNat / 2 ^ 23 % 2 = 1), ← Nat.testBit_eq_decide_div_mod_eq]
  rw [Nat.and_two_pow]
  cases value.toNat.testBit 23 <;> simp

theorem signExtend24ToInt {value : UInt32} (small : value.toNat < 2 ^ 24) :
    (signExtend24 value).toInt = signed24 value.toNat := by
  unfold signExtend24 signed24
  have converted : ∀ v : UInt32, v.toInt32.toInt = v.toBitVec.toInt := fun _ => rfl
  split
  · rename_i sign
    rw [signBit] at sign
    have high : (value ||| 0xff000000).toNat = value.toNat + 0xff000000 := by
      have mask : (0xff000000 : UInt32).toNat = 0xff <<< 24 := rfl
      rw [UInt32.toNat_or, mask, Nat.or_comm, ← Nat.shiftLeft_add_eq_or_of_lt small]
      simp only [Nat.shiftLeft_eq]
      omega
    rw [converted, BitVec.toInt_eq_toNat_cond, UInt32.toNat_toBitVec, high]
    split <;> split <;> omega
  · rename_i sign
    rw [signBit] at sign
    rw [converted, BitVec.toInt_eq_toNat_cond, UInt32.toNat_toBitVec]
    split <;> split <;> omega

theorem at_Drop (data : Bytes) (n i : Nat) : at_ (data.drop n) i = at_ data (n + i) := by
  simp only [at_, List.getD_eq_getElem?_getD, List.getElem?_drop]

theorem bytePairToNat (high low : UInt8) :
    (high.toUInt16 <<< 8 ||| low.toUInt16).toNat = 256 * high.toNat + low.toNat := by
  have a := high.toNat_lt
  have b := low.toNat_lt
  have eight : (8 : UInt16).toNat % 16 = 8 := rfl
  have shifted : high.toNat <<< 8 % 2 ^ 16 = high.toNat <<< 8 := by
    rw [Nat.shiftLeft_eq]
    omega
  simp only [UInt16.toNat_or, UInt16.toNat_shiftLeft, UInt8.toNat_toUInt16, eight, shifted]
  rw [← Nat.shiftLeft_add_eq_or_of_lt (by omega), Nat.shiftLeft_eq]
  omega

theorem readBe16ToNat (data : Bytes) : (readBe16 data).toNat = 256 * (at_ data 0).toNat + (at_ data 1).toNat :=
  bytePairToNat _ _

theorem readLe16ToNat (data : Bytes) : (readLe16 data).toNat = 256 * (at_ data 1).toNat + (at_ data 0).toNat := by
  rw [readLe16, UInt16.or_comm]
  exact bytePairToNat _ _

theorem isReac (data : Bytes) : readBe16 data = reacEthertype ↔ at_ data 0 = 0x88 ∧ at_ data 1 = 0x19 := by
  have a := (at_ data 0).toNat_lt
  have b := (at_ data 1).toNat_lt
  have type_ : reacEthertype.toNat = 256 * 0x88 + 0x19 := rfl
  have first : (0x88 : UInt8).toNat = 0x88 := rfl
  have second : (0x19 : UInt8).toNat = 0x19 := rfl
  rw [← UInt16.toNat_inj, ← UInt8.toNat_inj, ← UInt8.toNat_inj, readBe16ToNat, type_, first, second]
  omega

structure WellFormed (frame : Bytes) (channels : Nat) : Prop where
  length : frame.length = 50 + 36 * channels + 2
  positive : channels ≠ 0
  most : channels ≤ 40
  even : channels % 2 = 0
  ethertype : at_ frame 12 = 0x88 ∧ at_ frame 13 = 0x19
  marker : at_ frame (frame.length - 2) = 0xc2 ∧ at_ frame (frame.length - 1) = 0xea

theorem channelsUnique {frame : Bytes} {channels other : Nat} (one : WellFormed frame channels)
    (two : WellFormed frame other) : channels = other := by
  have first := one.length
  have second := two.length
  omega

def viewOf (frame : Bytes) (channels : Nat) : ReacPacketView where
  counter := readLe16 (frame.drop 14)
  channels := UInt16.ofNat channels
  payloadSize := 36 * channels
  payload := some (frame.drop 50)

theorem viewChannels {channels : Nat} (frame : Bytes) (most : channels ≤ 40) :
    (viewOf frame channels).channels.toNat = channels := by
  rw [viewOf, UInt16.toNat_ofNat']
  omega

theorem parseWellFormed {frame : Bytes} {channels : Nat} (wellFormed : WellFormed frame channels)
    (old : ReacPacketView) :
    reacParsePacket (some frame) (some old) = (.ok,some (viewOf frame channels)) := by
  obtain ⟨length,positive,most,even,ethertype,marker⟩ := wellFormed
  have long : ¬ frame.length < 50 + 2 := by omega
  have reac : readBe16 (frame.drop 12) = reacEthertype := by
    rw [isReac, at_Drop, at_Drop]
    exact ethertype
  have size : frame.length - 50 - 2 = 36 * channels := by omega
  have quantum : ¬ (36 * channels = 0 ∨ 36 * channels % 36 ≠ 0) := by omega
  have count : 36 * channels / 36 = channels := by omega
  have supported : ¬ (channels = 0 ∨ 40 < channels ∨ channels % 2 ≠ 0) := by omega
  simp only [reacParsePacket, reacPacketOverhead, ethernetHeaderBytes, reacPacketHeaderBytes,
    reacEndMarkerBytes, reacEndMarker0, reacEndMarker1, reacPayloadBytesFor, reacFramesPerPacket,
    reacBytesPerSample, reacMaxChannels, Nat.reduceAdd, Nat.reduceMul, Nat.reducePow, Nat.reduceMod, long, reac, marker.1, marker.2,
    size, quantum, count, supported, ne_eq, not_true_eq_false, or_self, if_false]
  rfl

theorem parsedWellFormed {frame : Bytes} {old : ReacPacketView} {view : Option ReacPacketView}
    (parsed : reacParsePacket (some frame) (some old) = (.ok,view)) :
    ∃ channels, WellFormed frame channels ∧ view = some (viewOf frame channels) := by
  simp only [reacParsePacket] at parsed
  split at parsed
  · cases parsed
  rename_i long
  split at parsed
  · cases parsed
  rename_i reac
  split at parsed
  · cases parsed
  rename_i marker
  split at parsed
  · cases parsed
  rename_i quantum
  split at parsed
  · cases parsed
  rename_i supported
  cases parsed
  rw [ne_eq, not_not, isReac, at_Drop, at_Drop] at reac
  rw [not_or, not_not, not_not] at marker
  have long_ : ¬ frame.length < 52 := long
  have whole : ¬ (frame.length - 50 - 2 = 0 ∨ (frame.length - 50 - 2) % 36 ≠ 0) := quantum
  have count : ¬ ((frame.length - 50 - 2) / 36 = 0 ∨ 40 < (frame.length - 50 - 2) / 36 ∨
    (frame.length - 50 - 2) / 36 % 2 ≠ 0) := supported
  have size : 36 * ((frame.length - 50 - 2) / 36) = frame.length - 50 - 2 := by omega
  refine ⟨(frame.length - 50 - 2) / 36,⟨by omega,by omega,by omega,by omega,reac,marker⟩,?_⟩
  rw [viewOf, size]
  rfl

/-- The sample of channel `ch` in frame `frame`: channels share six bytes in pairs,
pairs follow each other within a frame and frames within the payload. -/
def rawSample (samples : Bytes) (channels ch frame : Nat) : Nat :=
  let o := 6 * (frame * (channels / 2) + ch / 2)
  if ch % 2 = 0 then word (at_ samples (o + 3)) (at_ samples o) (at_ samples (o + 1))
  else word (at_ samples (o + 4)) (at_ samples (o + 5)) (at_ samples (o + 2))

theorem rawSampleLt (samples : Bytes) (channels ch frame : Nat) :
    rawSample samples channels ch frame < 2 ^ 24 := by
  unfold rawSample
  split <;> exact wordLt _ _ _

def decodedSample (samples : Bytes) (channels ch frame : Nat) : Rat :=
  signed24 (rawSample samples channels ch frame) / 2 ^ 23

def overwritten (outputs : Outputs) (done : Nat → Nat → Bool) (value : Nat → Nat → Rat) : Outputs :=
  fun ch => (outputs ch).map (fun buffer frame => if done ch frame then value ch frame else buffer frame)

theorem storeOverwritten (outputs : Outputs) (done : Nat → Nat → Bool) (value : Nat → Nat → Rat)
    (ch frame : Nat) : store (overwritten outputs done value) ch frame (value ch frame) =
      overwritten outputs (fun c f => done c f || (decide (c = ch) && decide (f = frame))) value := by
  funext c
  by_cases here : c = ch
  · subst here
    simp only [store, putHere, overwritten, Option.map_map]
    congr 1
    funext buffer f
    by_cases now : f = frame
    · subst now
      simp
    · simp [put, now]
  · simp only [store, putElsewhere _ _ here, overwritten, here, decide_false, Bool.false_and, Bool.or_false]

theorem sampleToRat {value : UInt32} {low middle high : UInt8}
    (assembled_ : value.toNat = word low middle high) :
    sample24ToFloat (signExtend24 value) = (signed24 (word low middle high) : Rat) / 2 ^ 23 := by
  rw [sample24ToFloat, signExtend24ToInt (by rw [assembled_]; exact wordLt _ _ _), assembled_]

theorem decodePairSpec {samples : Bytes} {channels frame pair : Nat} {s : Cursor} {outputs : Outputs}
    {done : Nat → Nat → Bool} (here : s.input = 6 * (frame * (channels / 2) + pair))
    (sofar : s.outputs = overwritten outputs done (decodedSample samples channels)) :
    decodePair samples frame (2 * pair) s = ⟨s.input + 6,overwritten outputs
      (fun c f => done c f || (decide (c / 2 = pair) && decide (f = frame)))
      (decodedSample samples channels)⟩ := by
  have even : decodedSample samples channels (2 * pair) frame =
      (signed24 (word (at_ samples (s.input + 3)) (at_ samples s.input) (at_ samples (s.input + 1))) : Rat) /
        2 ^ 23 := by
    have half : 2 * pair / 2 = pair := by omega
    have parity : 2 * pair % 2 = 0 := by omega
    simp only [decodedSample, rawSample, half, parity, if_true, here]
  have odd : decodedSample samples channels (2 * pair + 1) frame =
      (signed24 (word (at_ samples (s.input + 4)) (at_ samples (s.input + 5)) (at_ samples (s.input + 2))) : Rat) /
        2 ^ 23 := by
    have half : (2 * pair + 1) / 2 = pair := by omega
    have parity : ¬ (2 * pair + 1) % 2 = 0 := by omega
    simp only [decodedSample, rawSample, half, parity, if_false, here]
  simp only [decodePair, Nat.add_zero]
  rw [sampleToRat (assembled _ _ _), sampleToRat (assembled _ _ _), ← even, ← odd, sofar, storeOverwritten,
    storeOverwritten]
  congr 2
  funext c f
  rw [Bool.eq_iff_iff]
  simp only [Bool.or_eq_true, Bool.and_eq_true, decide_eq_true_eq]
  have split : c / 2 = pair ↔ c = 2 * pair ∨ c = 2 * pair + 1 := by omega
  rw [split]
  tauto

theorem overwrittenCongr {outputs : Outputs} {done done' : Nat → Nat → Bool} {value : Nat → Nat → Rat}
    (same : ∀ c f, done c f = true ↔ done' c f = true) :
    overwritten outputs done value = overwritten outputs done' value := by
  have equal : done = done' := by
    funext c f
    rw [Bool.eq_iff_iff]
    exact same c f
  rw [equal]

theorem overwrittenNowhere (outputs : Outputs) (value : Nat → Nat → Rat) :
    overwritten outputs (fun _ _ => false) value = outputs := by
  funext c
  simp only [overwritten, Bool.false_eq_true, if_false]
  cases outputs c <;> rfl

theorem overwrittenDone {outputs : Outputs} (done : Nat → Nat → Bool) (value : Nat → Nat → Rat)
    {ch f : Nat} {buffer : Nat → Rat} (here : outputs ch = some buffer) (named : done ch f = true) :
    ∃ filled, overwritten outputs done value ch = some filled ∧ filled f = value ch f := by
  refine ⟨_,by simp only [overwritten, here, Option.map_some]; rfl,?_⟩
  simp only [named, if_true]

theorem decodeFrameSpec {samples : Bytes} {channels frame : Nat} {outputs : Outputs}
    {done : Nat → Nat → Bool} (even : channels % 2 = 0) :
    decodeFrame samples channels frame
        ⟨6 * (frame * (channels / 2)),overwritten outputs done (decodedSample samples channels)⟩ =
      ⟨6 * ((frame + 1) * (channels / 2)),overwritten outputs
        (fun c f => done c f || (decide (c < channels) && decide (f = frame)))
        (decodedSample samples channels)⟩ := by
  have pairs : (channels + 1) / 2 = channels / 2 := by omega
  have rounds := loopInvariant (n := channels / 2)
    (f := fun pair s => decodePair samples frame (2 * pair) s)
    (s := ⟨6 * (frame * (channels / 2)),overwritten outputs done (decodedSample samples channels)⟩)
    (P := fun n (t : Cursor) => t = ⟨6 * (frame * (channels / 2) + n),overwritten outputs
      (fun c f => done c f || (decide (c / 2 < n) && decide (f = frame)))
      (decodedSample samples channels)⟩) ?_ ?_
  · have next : (frame + 1) * (channels / 2) = frame * (channels / 2) + channels / 2 := Nat.succ_mul _ _
    rw [decodeFrame, pairs, rounds, next]
    congr 1
    refine overwrittenCongr fun c f => ?_
    have inside : c / 2 < channels / 2 ↔ c < channels := by omega
    simp only [inside]
  · simp only [Nat.not_lt_zero, decide_false, Bool.false_and, Bool.or_false, Nat.add_zero]
  · rintro pair t _ rfl
    rw [decodePairSpec rfl rfl]
    congr 1
    refine overwrittenCongr fun c f => ?_
    have next : c / 2 < pair + 1 ↔ c / 2 < pair ∨ c / 2 = pair := by omega
    simp only [Bool.or_eq_true, Bool.and_eq_true, decide_eq_true_eq, next]
    tauto

theorem decodeLoops {samples : Bytes} {channels : Nat} (frames : Nat) {outputs : Outputs}
    (even : channels % 2 = 0) :
    loop frames (fun frame s => decodeFrame samples channels frame s) ⟨0,outputs⟩ =
      ⟨6 * (frames * (channels / 2)),overwritten outputs
        (fun c f => decide (c < channels) && decide (f < frames)) (decodedSample samples channels)⟩ := by
  refine loopInvariant (n := frames) (f := fun frame s => decodeFrame samples channels frame s)
    (s := ⟨0,outputs⟩) (P := fun n (t : Cursor) => t = ⟨6 * (n * (channels / 2)),overwritten outputs
      (fun c f => decide (c < channels) && decide (f < n)) (decodedSample samples channels)⟩) ?_ ?_
  · simp only [Nat.not_lt_zero, decide_false, Bool.and_false, overwrittenNowhere, Nat.zero_mul, Nat.mul_zero]
  · rintro frame t _ rfl
    rw [decodeFrameSpec even]
    congr 1
    refine overwrittenCongr fun c f => ?_
    have next : f < frame + 1 ↔ f < frame ∨ f = frame := by omega
    simp only [Bool.or_eq_true, Bool.and_eq_true, decide_eq_true_eq, next]
    tauto

def Lent (outputs : Outputs) (channels : Nat) : Prop := ∀ ch, ch < channels → (outputs ch).isSome = true

theorem lentIff {outputs : Outputs} {channels : Nat} :
    Lent outputs channels ↔ ¬ ∃ i < channels, (outputs i).isNone = true := by
  constructor
  · rintro lent ⟨ch,inside,missing⟩
    have := lent ch inside
    cases there : outputs ch <;> simp [there] at missing this
  · intro ports ch inside
    cases there : outputs ch with
    | none => exact absurd ⟨ch,inside,by rw [there]; rfl⟩ ports
    | some buffer => rfl

theorem decodeSpec {samples : Bytes} {sampleBytes frames : Nat} {channels : UInt16} {outputs : Outputs}
    (positive : channels.toNat ≠ 0) (most : channels.toNat ≤ 40) (even : channels.toNat % 2 = 0)
    (size : sampleBytes = channels.toNat * frames * 3) (small : sampleBytes < 2 ^ 64) (lent : Lent outputs channels.toNat) :
    reacDecodeSamplesToChannels (some samples) sampleBytes channels frames (some outputs) =
      (.ok,some (overwritten outputs
        (fun c f => decide (c < channels.toNat) && decide (f < frames))
        (decodedSample samples channels.toNat))) := by
  have supported : ¬ (channels.toNat = 0 ∨ reacMaxChannels < channels.toNat ∨ channels.toNat % 2 ≠ 0) := by
    unfold reacMaxChannels
    omega
  have exact_ : ¬ sampleBytes ≠ reacPayloadBytesFor channels.toNat frames := by
    rw [not_not, size]
    exact (Nat.mod_eq_of_lt (by rw [← size]; exact small)).symm
  have complete := lentIff.mp lent
  simp only [reacDecodeSamplesToChannels]
  rw [if_neg supported, if_neg exact_, if_neg complete, decodeLoops frames even]

end ReacJack.ReacDecode
