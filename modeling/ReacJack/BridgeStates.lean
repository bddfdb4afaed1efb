import ReacJack.JackAlignment

/-! What the callback can rely on in every state that the threads of the bridge reach. -/
namespace ReacJack.BridgeStates
open ReacDecode JackRingbuffer JackBridge DecodedRows TransitionRuns

variable {capacity : Nat}

def Reachable (jackBufferFrames : UInt32) (s : System capacity) : Prop :=
  Reaches act (boot (bridgeOf capacity jackBufferFrames)) s

structure Detected (b : Bridge capacity) (channels : Nat) : Prop where
  shaped : Shaped b channels
  supported : channels = 0 ∨ Supported channels

structure Running (s : System capacity) (channels : Nat) : Prop extends Detected s.bridge channels where
  whole : ∃ frames, jackRingbufferReadSpace s.bridge.ringbuffer = 3 * channels * frames
  pending : ∀ cycle bufferSize, s.processing = some (cycle,bufferSize) →
    channels ≠ 0 ∧ bufferSize = 3 * channels * cycle.nframes.toNat

theorem reachableRunning {jackBufferFrames : UInt32} {s : System capacity} (reachable : Reachable jackBufferFrames s) :
    ∃ channels, Running s channels := by
  obtain ⟨schedule,reached⟩ := reachable
  obtain ⟨t,followed,rfl⟩ := runLifts (g := JackAlignment.trace) JackAlignment.Trail.system
    (fun t label next taken => ⟨_,by rw [JackAlignment.trace, taken]; rfl,rfl⟩)
    (t := JackAlignment.untouched (boot (bridgeOf capacity jackBufferFrames))) reached
  obtain ⟨channels,tracked⟩ := runInvariant (I := fun t => ∃ channels, JackAlignment.Tracked t channels)
    JackAlignment.traceTracked ⟨0,JackAlignment.untouchedTracked capacity jackBufferFrames⟩ followed
  obtain ⟨frames,bytes⟩ := JackAlignment.bytesWhole tracked
  exact ⟨channels,⟨tracked.shaped,tracked.supported⟩,⟨frames,bytes⟩,tracked.pending⟩

theorem detectedMost {b : Bridge capacity} {channels : Nat} (detected : Detected b channels) : channels ≤ 40 := by
  rcases detected.supported with rfl | supported
  · exact Nat.zero_le _
  · exact supported.most

end ReacJack.BridgeStates
