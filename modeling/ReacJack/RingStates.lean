import ReacJack.SharedAudioSpec

/-! The rings that calls of the two sides lead to. There is no bound on how much was
written, so the positions may have passed 2^64. -/
namespace ReacJack.SharedAudio

variable {α : Type} [Zero α]

inductive Reachable : SharedRing α → Prop where
  | created (sampleRate : UInt32) (channels : UInt16) (capacityFrames : UInt32)
      (positive : 0 < capacityFrames.toNat) : Reachable (sharedAudioCreate sampleRate channels capacityFrames)
  | write {ring} (channels : Nat → Nat → α) (frames : UInt32) (before : Reachable ring) :
      Reachable (sharedAudioWrite ring channels frames).2
  | packetDropped {ring} (before : Reachable ring) :
      Reachable {ring with header := {ring.header with droppedPackets := ring.header.droppedPackets + 1}}
  | publishClock {ring} (hostTime samplePos : UInt64) (before : Reachable ring) :
      Reachable (sharedAudioPublishClock ring hostTime samplePos)
  | read {ring} (channels : Nat → Nat → α) (frames : UInt32) (before : Reachable ring) :
      Reachable (sharedAudioRead ring channels frames).ring
  | readInterleaved {ring} (out : Nat → α) (outChannels : UInt16) (frames : UInt32)
      (before : Reachable ring) : Reachable (sharedAudioReadInterleaved ring out outChannels frames).ring
  | readInterleavedRegulated {ring} (out : Nat → α) (outChannels : UInt16)
      (frames targetFill tolerance : UInt32) (before : Reachable ring) :
      Reachable (sharedAudioReadInterleavedRegulated ring out outChannels frames targetFill tolerance).ring
  | seekToFill {ring} (targetFill : UInt32) (before : Reachable ring) :
      Reachable (sharedAudioSeekToFill ring targetFill).2

omit [Zero α] in
theorem writeSound {ring : SharedRing α} (sound : Sound ring.header) (channels : Nat → Nat → α) (frames : UInt32) :
    Sound (sharedAudioWrite ring channels frames).2.header := by
  rcases Nat.lt_or_ge (ring.header.capacityFrames.toNat - fill ring.header) frames.toNat with full | fits
  · rw [writeRefused sound channels full]
    exact ⟨sound.positive,sound.bounded⟩
  · have bounded := sound.bounded
    have small := ring.header.capacityFrames.toNat_lt
    have given := distanceGive (w := ring.header.writePos) (r := ring.header.readPos) (k := frames.toUInt64)
      (by rw [UInt32.toNat_toUInt64]; unfold fill at *; omega)
    rw [UInt32.toNat_toUInt64] at given
    rw [writeAccepted sound channels fits]
    refine ⟨sound.positive,?_⟩
    unfold fill at *
    simp only [given]
    omega

omit [Zero α] in
theorem seekSound {ring : SharedRing α} (sound : Sound ring.header) (targetFill : UInt32) :
    Sound (sharedAudioSeekToFill ring targetFill).2.header := by
  refine ⟨sound.positive,?_⟩
  rw [seekFill sound]
  exact (Nat.min_le_left _ _).trans sound.bounded

theorem fillTailSound {r : ReadResult α (Nat → α)} (sound : Sound r.ring.header) (outChannels : UInt16)
    (kept insert : UInt32) : Sound (fillTail r outChannels kept insert).ring.header := by
  rw [fillTailRing]
  split
  · exact ⟨sound.positive,sound.bounded⟩
  · exact sound

theorem regulatedCases {ring : SharedRing α} (sound : Sound ring.header) (out : Nat → α) (outChannels : UInt16)
    (frames targetFill tolerance : UInt32) :
    (targetFill.toNat + tolerance.toNat < fill ring.header ∧
      ∃ drop : UInt32, drop.toNat = min (fill ring.header - targetFill.toNat) 8 ∧
        sharedAudioReadInterleavedRegulated ring out outChannels frames targetFill tolerance =
          sharedAudioReadInterleaved (dropFrames ring ring.header.readPos drop) out outChannels frames) ∨
    ((fill ring.header + tolerance.toNat < targetFill.toNat ∧ 0 < frames.toNat) ∧
      ∃ insert : UInt32, insert.toNat = min (min (targetFill.toNat - fill ring.header) 8) frames.toNat ∧
        sharedAudioReadInterleavedRegulated ring out outChannels frames targetFill tolerance =
          fillTail (sharedAudioReadInterleaved ring out outChannels (frames - insert)) outChannels
            (frames - insert) insert) ∨
    (fill ring.header ≤ targetFill.toNat + tolerance.toNat ∧
      ¬ (fill ring.header + tolerance.toNat < targetFill.toNat ∧ 0 < frames.toNat) ∧
        sharedAudioReadInterleavedRegulated ring out outChannels frames targetFill tolerance =
          sharedAudioReadInterleaved ring out outChannels frames) := by
  rcases Nat.lt_or_ge (targetFill.toNat + tolerance.toNat) (fill ring.header) with full | notFull
  · exact Or.inl ⟨full,regulatedDrop sound out outChannels frames full⟩
  · by_cases low : fill ring.header + tolerance.toNat < targetFill.toNat ∧ 0 < frames.toNat
    · exact Or.inr (Or.inl ⟨low,regulatedInsert sound out outChannels low.1 low.2⟩)
    · exact Or.inr (Or.inr ⟨notFull,low,regulatedHold sound out outChannels notFull (by omega)⟩)

theorem regulatedSound {ring : SharedRing α} (sound : Sound ring.header) (out : Nat → α) (outChannels : UInt16)
    (frames targetFill tolerance : UInt32) :
    Sound (sharedAudioReadInterleavedRegulated ring out outChannels frames targetFill tolerance).ring.header := by
  rcases regulatedCases sound out outChannels frames targetFill tolerance with
    ⟨full,drop,amount,result⟩ | ⟨_,insert,_,result⟩ | ⟨_,_,result⟩
  · rw [result]
    exact finishReadSound (dropSound sound (by omega)) frames
  · rw [result]
    exact fillTailSound (finishReadSound sound (frames - insert)) _ _ _
  · rw [result]
    exact finishReadSound sound frames

theorem reachableSound {ring : SharedRing α} (reachable : Reachable ring) : Sound ring.header := by
  induction reachable with
  | created sampleRate channels capacityFrames positive => exact ⟨positive,by simp [fill, sharedAudioCreate]⟩
  | write channels frames _ sound => exact writeSound sound channels frames
  | packetDropped _ sound => exact ⟨sound.positive,sound.bounded⟩
  | publishClock hostTime samplePos _ sound => exact ⟨sound.positive,sound.bounded⟩
  | read channels frames _ sound => exact finishReadSound sound frames
  | readInterleaved out outChannels frames _ sound => exact finishReadSound sound frames
  | readInterleavedRegulated out outChannels frames targetFill tolerance _ sound =>
    exact regulatedSound sound out outChannels frames targetFill tolerance
  | seekToFill targetFill _ sound => exact seekSound sound targetFill

end ReacJack.SharedAudio
