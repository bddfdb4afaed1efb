import ReacJack.RingStates

/-! The two plain readers of one ring side by side: block copies into channel buffers
against one modulo for each sample of a row buffer. -/
namespace ReacJack.ReaderAgreement
open CircularBuffer SharedAudio

variable {α : Type} [Zero α]

/-- The frames of a read stand in their slots one behind the other. The positions are
frame counts that only grow; where they would pass 2^64 this asks that the circle
closes there. -/
def Straight (h : Header) (frames : UInt32) : Prop :=
  h.readPos.toNat + (readCount h frames).toNat ≤ 2 ^ 64 ∨ h.capacityFrames.toNat ∣ 2 ^ 64

omit [Zero α] in
theorem sampleStraight {ring : SharedRing α} (positive : 0 < ring.header.capacityFrames.toNat) {frames : UInt32}
    (straight : Straight ring.header frames) {f : Nat} (real : f < (readCount ring.header frames).toNat) (ch : Nat) :
    ringSample ring ch f =
      ring.samples (slot ring.header.capacityFrames.toNat ch (ring.header.readPos.toNat + f)) := by
  rcases straight with below | closes
  · exact ringSampleAt positive (by omega)
  · have short := (readCount ring.header frames).toNat_lt
    have offset : (UInt64.ofNat f).toNat = f := by
      rw [UInt64.toNat_ofNat']
      omega
    rw [ringSample, indexToNat _ positive, slot, UInt64.toNat_add, offset, Nat.mod_mod_of_dvd _ closes]

theorem rowsFilled (ring : SharedRing α) (out out' : Nat → α) (outChannels : UInt16) (frames : UInt32) {f ch : Nat}
    (inside : f < frames.toNat) (channel : ch < outChannels.toNat) :
    (sharedAudioReadInterleaved ring out outChannels frames).out (f * outChannels.toNat + ch) =
      (sharedAudioReadInterleaved ring out' outChannels frames).out (f * outChannels.toNat + ch) := by
  rw [readInterleavedAt ring out outChannels frames inside channel,
    readInterleavedAt ring out' outChannels frames inside channel]

theorem columnsFilled {ring : SharedRing α} (sound : Sound ring.header) (channels channels' : Nat → Nat → α)
    (frames : UInt32) {ch f : Nat} (channel : ch < ring.header.channels.toNat) (inside : f < frames.toNat) :
    (sharedAudioRead ring channels frames).out ch f = (sharedAudioRead ring channels' frames).out ch f := by
  rw [readAt sound channels frames channel inside, readAt sound channels' frames channel inside]

theorem wideSilent (ring : SharedRing α) (out : Nat → α) (outChannels : UInt16) (frames : UInt32) {f ch : Nat}
    (inside : f < frames.toNat) (wide : ring.header.channels.toNat ≤ ch) (channel : ch < outChannels.toNat) :
    (sharedAudioReadInterleaved ring out outChannels frames).out (f * outChannels.toNat + ch) = 0 := by
  rw [readInterleavedAt ring out outChannels frames inside channel, if_neg (by omega)]

theorem cellsAgree {ring : SharedRing α} (sound : Sound ring.header) (channels : Nat → Nat → α) (out : Nat → α)
    (outChannels : UInt16) {frames : UInt32} (straight : Straight ring.header frames) {f ch : Nat}
    (inside : f < frames.toNat) (own : ch < ring.header.channels.toNat) (channel : ch < outChannels.toNat) :
    (sharedAudioReadInterleaved ring out outChannels frames).out (f * outChannels.toNat + ch) =
      (sharedAudioRead ring channels frames).out ch f := by
  rw [readInterleavedAt ring out outChannels frames inside channel, readAt sound channels frames own inside]
  by_cases real : f < (readCount ring.header frames).toNat
  · rw [if_pos ⟨own,real⟩, if_pos real]
    exact sampleStraight sound.positive straight real ch
  · rw [if_neg (fun both => real both.2), if_neg real]

/-- Both readers return the same count, leave the same ring and fill their output; what
they put there is the same, except where a read takes `read_pos` past 2^64. -/
theorem readersAgree {ring : SharedRing α} (reachable : Reachable ring) (channels : Nat → Nat → α) (out : Nat → α)
    (outChannels : UInt16) (frames : UInt32) :
    let rows := sharedAudioReadInterleaved ring out outChannels frames
    let columns := sharedAudioRead ring channels frames
    rows.count = columns.count ∧ rows.ring = columns.ring ∧
    (∀ out', ∀ f < frames.toNat, ∀ ch < outChannels.toNat,
      (sharedAudioReadInterleaved ring out' outChannels frames).out (f * outChannels.toNat + ch) =
        rows.out (f * outChannels.toNat + ch)) ∧
    (∀ channels', ∀ f < frames.toNat, ∀ ch < ring.header.channels.toNat,
      (sharedAudioRead ring channels' frames).out ch f = columns.out ch f) ∧
    (∀ f < frames.toNat, ∀ ch < outChannels.toNat, ring.header.channels.toNat ≤ ch →
      rows.out (f * outChannels.toNat + ch) = 0) ∧
    (Straight ring.header frames →
      ∀ f < frames.toNat, ∀ ch < min ring.header.channels.toNat outChannels.toNat,
        rows.out (f * outChannels.toNat + ch) = columns.out ch f) := by
  intro rows columns
  have sound := reachableSound reachable
  refine ⟨rfl,rfl,?_,?_,?_,?_⟩
  · exact fun out' f inside ch channel => rowsFilled ring out' out outChannels frames inside channel
  · exact fun channels' f inside ch channel => columnsFilled sound channels' channels frames channel inside
  · exact fun f inside ch channel wide => wideSilent ring out outChannels frames inside wide channel
  · intro straight f inside ch channel
    exact cellsAgree sound channels out outChannels straight inside (by omega) (by omega)

def wrapping : SharedRing Int :=
  let tone : Nat → Nat → Int := fun ch f => 100 * ch + f
  let ring := (sharedAudioWrite (sharedAudioCreate 48000 2 16) tone 12).2
  (sharedAudioWrite (sharedAudioRead ring (fun _ _ => 0) 12).ring tone 12).2

theorem readersAgreeWrapping :
    (sharedAudioReadInterleaved wrapping (fun _ => 0) 4 14).out (7 * 4 + 1) =
      (sharedAudioRead wrapping (fun _ _ => 0) 14).out 1 7 :=
  (readersAgree (.write _ 12 (.read _ 12 (.write _ 12 (.created 48000 2 16 (by decide)))))
    (fun _ _ => 0) (fun _ => 0) 4 14).2.2.2.2.2 (.inl (by decide +kernel)) 7 (by decide) 1 (by decide +kernel)

structure Pumped (ring : SharedRing Int) (k : Nat) : Prop where
  reachable : Reachable ring
  channels : ring.header.channels = 1
  capacity : ring.header.capacityFrames = 3
  writePos : ring.header.writePos = UInt64.ofNat (3 * k)
  readPos : ring.header.readPos = ring.header.writePos

theorem pumpedFill {ring : SharedRing Int} {k : Nat} (pumped : Pumped ring k) : fill ring.header = 0 := by
  rw [fill, pumped.readPos, UInt64.sub_self]
  rfl

theorem pumpedWrites {ring : SharedRing Int} {k : Nat} (pumped : Pumped ring k) (channels : Nat → Nat → Int)
    {frames : UInt32} (fits : frames.toNat ≤ 3) : sharedAudioWrite ring channels frames = (0, {
      samples := copyInAll ring.samples 1 3 (ring.header.writePos.toNat % 3) frames.toNat channels
      header := {ring.header with writePos := ring.header.writePos + frames.toUInt64}}) := by
  have capacity : ring.header.capacityFrames.toNat = 3 := by rw [pumped.capacity]; rfl
  have one : ring.header.channels.toNat = 1 := by rw [pumped.channels]; rfl
  have written := writeAccepted (reachableSound pumped.reachable) channels
    (show frames.toNat ≤ ring.header.capacityFrames.toNat - fill ring.header by
      rw [capacity, pumpedFill pumped]
      exact fits)
  rw [capacity, one] at written
  exact written

theorem pumps (k : Nat) : ∃ ring, Pumped ring k := by
  induction k with
  | zero => exact ⟨sharedAudioCreate 48000 1 3,.created 48000 1 3 (by decide),rfl,rfl,rfl,rfl⟩
  | succ k ih =>
    obtain ⟨ring,pumped⟩ := ih
    have written := pumpedWrites pumped (fun _ _ => 0) (show (3 : UInt32).toNat ≤ 3 by decide)
    refine ⟨(sharedAudioSeekToFill (sharedAudioWrite ring (fun _ _ => 0) 3).2 0).2,
      .seekToFill 0 (.write (fun _ _ => 0) 3 pumped.reachable),?_,?_,?_,?_⟩
    · rw [written]
      exact pumped.channels
    · rw [written]
      exact pumped.capacity
    · rw [written]
      change ring.header.writePos + 3 = UInt64.ofNat (3 * (k + 1))
      rw [pumped.writePos, Nat.mul_succ, UInt64.ofNat_add]
      rfl
    · rw [written, seekRing]
      simp [sharedAudioSeekToFill]

/-- At `2^64 - 1` two frames are read: the second is in slot 1, where the block copy finds it,
while the position itself goes back to 0. -/
theorem readersDiffer : ¬ ∀ (ring : SharedRing Int), Reachable ring →
    ∀ (channels : Nat → Nat → Int) (out : Nat → Int) (outChannels : UInt16) (frames : UInt32),
      ∀ f < frames.toNat, ∀ ch < min ring.header.channels.toNat outChannels.toNat,
        (sharedAudioReadInterleaved ring out outChannels frames).out (f * outChannels.toNat + ch) =
          (sharedAudioRead ring channels frames).out ch f := by
  intro agree
  obtain ⟨ring,pumped⟩ := pumps 6148914691236517205
  have written := pumpedWrites pumped (fun _ f => f) (show (2 : UInt32).toNat ≤ 3 by decide)
  have last : ring.header.writePos = 18446744073709551615 := pumped.writePos
  let next := (sharedAudioWrite ring (fun _ f => (f : Int)) 2).2
  have reachable : Reachable next := .write _ 2 pumped.reachable
  have one : next.header.channels.toNat = 1 := by
    simp only [next, written, pumped.channels]
    rfl
  have capacity : next.header.capacityFrames = 3 := by
    simp only [next, written]
    exact pumped.capacity
  have readAt_ : next.header.readPos = 18446744073709551615 := by
    simp only [next, written]
    exact pumped.readPos.trans last
  have two : readCount next.header 2 = 2 := by
    have writeAt : next.header.writePos = 1 := by
      simp only [next, written, last]
      rfl
    rw [readCount, writeAt, readAt_]
    rfl
  have stored : ∀ f < 2, next.samples (slot 3 0 (18446744073709551615 + f)) = f := by
    intro f inside
    have slots : copyInAll ring.samples 1 3 (ring.header.writePos.toNat % 3) 2 (fun _ f => (f : Int))
        (slot 3 0 (ring.header.writePos.toNat + f)) = f :=
      copyInAllAt ring.samples _ (by decide) inside Nat.zero_lt_one
    rw [last] at slots
    simp only [next, written, last]
    exact slots
  have same := agree next reachable (fun _ _ => 0) (fun _ => 0) 1 2 1 (by decide) 0 (by rw [one]; decide)
  rw [readInterleavedAt next _ 1 2 (by decide) (by decide),
    readAt (reachableSound reachable) _ 2 (by omega) (by decide), two, one, if_pos (by decide), if_pos (by decide),
    ringSample, capacity, readAt_] at same
  have first := stored 0 (by omega)
  have second := stored 1 (by omega)
  exact absurd ((first.symm.trans same).trans second) (by decide)

end ReacJack.ReaderAgreement
