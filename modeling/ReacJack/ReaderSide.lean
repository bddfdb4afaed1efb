import ReacJack.SharedLedger

/-! What the reader of a ring can change, whichever of its calls it makes: its own
position and counters. The samples, the shape, the writer's position and everything
the writer counts or publishes stay. -/
namespace ReacJack.ReaderSide
open BoundedFifo SharedAudio SharedFifo SharedLedger

variable {α : Type}

structure Moved (ring ring' : SharedRing α) : Prop where
  samples : ring'.samples = ring.samples
  channels : ring'.header.channels = ring.header.channels
  capacityFrames : ring'.header.capacityFrames = ring.header.capacityFrames
  writePos : ring'.header.writePos = ring.header.writePos
  overruns : ring'.header.overruns = ring.header.overruns
  droppedPackets : ring'.header.droppedPackets = ring.header.droppedPackets
  clockSeq : ring'.header.clockSeq = ring.header.clockSeq
  clockHostTime : ring'.header.clockHostTime = ring.header.clockHostTime
  clockSamplePos : ring'.header.clockSamplePos = ring.header.clockSamplePos
  fillLe : fill ring'.header ≤ fill ring.header

theorem movedTrans {a b c : SharedRing α} (first : Moved a b) (second : Moved b c) : Moved a c where
  samples := second.samples.trans first.samples
  channels := second.channels.trans first.channels
  capacityFrames := second.capacityFrames.trans first.capacityFrames
  writePos := second.writePos.trans first.writePos
  overruns := second.overruns.trans first.overruns
  droppedPackets := second.droppedPackets.trans first.droppedPackets
  clockSeq := second.clockSeq.trans first.clockSeq
  clockHostTime := second.clockHostTime.trans first.clockHostTime
  clockSamplePos := second.clockSamplePos.trans first.clockSamplePos
  fillLe := second.fillLe.trans first.fillLe

theorem movedSound {ring ring' : SharedRing α} (moved : Moved ring ring') (sound : Sound ring.header) :
    Sound ring'.header := by
  refine ⟨?_,?_⟩
  · rw [moved.capacityFrames]
    exact sound.positive
  · rw [moved.capacityFrames]
    exact moved.fillLe.trans sound.bounded

theorem movedFinish {ring : SharedRing α} (sound : Sound ring.header) (frames : UInt32) :
    Moved ring {ring with
      header := finishRead ring.header ring.header.readPos (readCount ring.header frames) frames} := by
  refine ⟨rfl,rfl,rfl,rfl,rfl,rfl,rfl,rfl,rfl,?_⟩
  have left := finishReadFill sound frames
  change fill (finishRead ring.header ring.header.readPos (readCount ring.header frames) frames) ≤ _
  unfold readCount
  omega

theorem movedDrop {ring : SharedRing α} {drop : UInt32} (le : drop.toNat ≤ fill ring.header) :
    Moved ring (dropFrames ring ring.header.readPos drop) := by
  refine ⟨rfl,rfl,rfl,rfl,rfl,rfl,rfl,rfl,rfl,?_⟩
  rw [dropFill le]
  exact Nat.sub_le _ _

theorem movedTail [Zero α] {ring : SharedRing α} {r : ReadResult α (Nat → α)} (outChannels : UInt16)
    (kept insert : UInt32) (moved : Moved ring r.ring) :
    Moved ring (fillTail r outChannels kept insert).ring := by
  rw [fillTailRing]
  split
  · exact movedTrans moved ⟨rfl,rfl,rfl,rfl,rfl,rfl,rfl,rfl,rfl,Nat.le_refl _⟩
  · exact moved

theorem movedSeek {ring : SharedRing α} (sound : Sound ring.header) (targetFill : UInt32) :
    Moved ring (sharedAudioSeekToFill ring targetFill).2 := by
  refine ⟨rfl,rfl,rfl,rfl,rfl,rfl,rfl,rfl,rfl,?_⟩
  rw [seekFill sound]
  exact Nat.min_le_left _ _

theorem movedRegulated [Zero α] {ring : SharedRing α} (sound : Sound ring.header) (out : Nat → α)
    (outChannels : UInt16) (frames targetFill tolerance : UInt32) :
    Moved ring (sharedAudioReadInterleavedRegulated ring out outChannels frames targetFill tolerance).ring := by
  rcases Nat.lt_or_ge (targetFill.toNat + tolerance.toNat) (fill ring.header) with full | notFull
  · obtain ⟨drop,amount,result⟩ := regulatedDrop sound out outChannels frames full
    have le : drop.toNat ≤ fill ring.header := by omega
    rw [result]
    exact movedTrans (movedDrop le) (movedFinish (dropSound sound le) frames)
  · by_cases low : fill ring.header + tolerance.toNat < targetFill.toNat ∧ 0 < frames.toNat
    · obtain ⟨insert,_,result⟩ := regulatedInsert sound out outChannels low.1 low.2
      rw [result]
      exact movedTail outChannels (frames - insert) insert (movedFinish sound (frames - insert))
    · rw [regulatedHold sound out outChannels notFull (by omega)]
      exact movedFinish sound frames

theorem movedDistance {ring ring' : SharedRing α} (moved : Moved ring ring') :
    (ring'.header.readPos - ring.header.readPos).toNat = fill ring.header - fill ring'.header := by
  have le := moved.fillLe
  have := ring.header.writePos.toNat_lt
  have := ring.header.readPos.toNat_lt
  have := ring'.header.readPos.toNat_lt
  unfold fill at *
  rw [moved.writePos] at le ⊢
  simp only [UInt64.toNat_sub] at *
  omega

theorem movedRefines {capacity : Nat} {ring ring' : SharedRing α} {q : Queue (Frame α) capacity}
    (refines : Refines ring q) (moved : Moved ring ring') :
    Refines ring' (advance q (fill ring.header - fill ring'.header)) := by
  refine advanceRefines refines moved.samples moved.channels moved.capacityFrames moved.writePos ?_
  have distance := movedDistance moved
  have filled := refinesFill refines
  have sum := takenAddFill q
  have written := refines.written
  have taken := refines.taken
  have := ring.header.writePos.toNat_lt
  have := ring'.header.readPos.toNat_lt
  rw [UInt64.toNat_sub] at distance
  omega

theorem readTakes [Zero α] {ring : SharedRing α} (sound : Sound ring.header) (out : Nat → α)
    (outChannels : UInt16) (frames : UInt32) :
    (sharedAudioReadInterleaved ring out outChannels frames).count.toNat +
      fill (sharedAudioReadInterleaved ring out outChannels frames).ring.header = fill ring.header := by
  have count := readCountToNat sound frames
  have left := finishReadFill sound frames
  change (readCount ring.header frames).toNat +
    fill (finishRead ring.header ring.header.readPos (readCount ring.header frames) frames) = fill ring.header
  unfold readCount at *
  omega

theorem regulatedTakes [Zero α] {ring : SharedRing α} (sound : Sound ring.header) (out : Nat → α)
    (outChannels : UInt16) (frames targetFill tolerance : UInt32) :
    (sharedAudioReadInterleavedRegulated ring out outChannels frames targetFill tolerance).count.toNat +
      fill (sharedAudioReadInterleavedRegulated ring out outChannels frames targetFill tolerance).ring.header ≤
        fill ring.header := by
  rcases Nat.lt_or_ge (targetFill.toNat + tolerance.toNat) (fill ring.header) with full | notFull
  · obtain ⟨drop,amount,result⟩ := regulatedDrop sound out outChannels frames full
    have le : drop.toNat ≤ fill ring.header := by omega
    have taken := readTakes (dropSound sound le) out outChannels frames
    rw [result]
    rw [dropFill le] at taken
    omega
  · by_cases low : fill ring.header + tolerance.toNat < targetFill.toNat ∧ 0 < frames.toNat
    · obtain ⟨insert,_,result⟩ := regulatedInsert sound out outChannels low.1 low.2
      have taken := readTakes sound out outChannels (frames - insert)
      have same : fill (fillTail (sharedAudioReadInterleaved ring out outChannels (frames - insert)) outChannels
          (frames - insert) insert).ring.header = fill (sharedAudioReadInterleaved ring out outChannels
            (frames - insert)).ring.header := by
        rw [fillTailRing]
        split <;> rfl
      rw [result, fillTailCount, same]
      omega
    · rw [regulatedHold sound out outChannels notFull (by omega)]
      exact (readTakes sound out outChannels frames).le

def readerCall : Call α → Bool
  | .write _ _ => false
  | _ => true

theorem movedCall [Zero α] {s : Book α} (sound : Sound s.1.header) {call : Call α}
    (reads : readerCall call = true) : Moved s.1 (perform s call).1 := by
  cases call with
  | write channels frames => contradiction
  | read channels frames => exact movedFinish sound frames
  | readInterleaved out outChannels frames => exact movedFinish sound frames
  | readInterleavedRegulated out outChannels frames targetFill tolerance =>
    exact movedRegulated sound out outChannels frames targetFill tolerance
  | seekToFill targetFill => exact movedSeek sound targetFill

end ReacJack.ReaderSide
