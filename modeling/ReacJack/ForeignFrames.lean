import ReacJack.ReacDecodeSpec
import ReacJack.PipeWire
import ReacJack.JackBridge

/-! Where the parser draws the line between other traffic and malformed packets. It wants
the length of a whole packet before it looks at the EtherType, so a short frame of any
protocol counts as a packet that is too short. -/
namespace ReacJack.ForeignFrames
open ReacDecode

variable {capacity : Nat}

def etherType (frame : Bytes) : Nat := 256 * (at_ frame 12).toNat + (at_ frame 13).toNat

def Reac (frame : Bytes) : Prop := etherType frame = 0x8819

instance (frame : Bytes) : Decidable (Reac frame) := by
  unfold Reac
  infer_instance

theorem reacIff (frame : Bytes) : Reac frame ↔ readBe16 (frame.drop 12) = reacEthertype := by
  have type_ : reacEthertype.toNat = 0x8819 := rfl
  rw [← UInt16.toNat_inj, readBe16ToNat, at_Drop, at_Drop, type_]
  exact Iff.rfl

theorem shortFrame {frame : Bytes} (short : frame.length < 52) (old : ReacPacketView) :
    reacParsePacket (some frame) (some old) = (.shortPacket,some cleared) :=
  if_pos short

theorem foreignFrame {frame : Bytes} (long : 52 ≤ frame.length) (foreign : ¬ Reac frame) (old : ReacPacketView) :
    reacParsePacket (some frame) (some old) = (.notReac,some cleared) := by
  have whole : ¬ frame.length < reacPacketOverhead + reacEndMarkerBytes := Nat.not_lt.mpr long
  have other : readBe16 (frame.drop 12) ≠ reacEthertype := fun same => foreign ((reacIff frame).mpr same)
  rw [reacParsePacket, if_neg whole, if_pos other]

theorem reacNotForeign {frame : Bytes} (reac : Reac frame) (old : ReacPacketView) :
    (reacParsePacket (some frame) (some old)).1 ≠ .notReac := by
  have same : ¬ readBe16 (frame.drop 12) ≠ reacEthertype := not_not.mpr ((reacIff frame).mp reac)
  simp only [reacParsePacket]
  split
  · simp
  split
  · simp
  split
  · simp
  split <;> simp

/-- What the three loops do with a frame that counts as foreign: that counter moves, and
nothing else, an error state included. -/
structure CountedForeign (frame : Bytes) (s : Daemon.Loop) (created : Bool) (hostTime : UInt64)
    (thread : PipeWire.Thread) (b : JackBridge.Bridge capacity) : Prop where
  status : ∀ old, (reacParsePacket (some frame) (some old)).1 = .notReac
  daemon : Daemon.captureFrame s frame created hostTime =
    some {s with daemon := {s.daemon with nonReacPackets := s.daemon.nonReacPackets + 1}}
  pipeWire : PipeWire.captureFrame thread frame =
    some {thread with app := {thread.app with nonReacPackets := thread.app.nonReacPackets + 1}}
  bridge : JackBridge.copyFrame b frame = {b with nonREAC := b.nonREAC + 1}

theorem etherTypeTake (frame : Bytes) {n : Nat} (enough : 14 ≤ n) : etherType (frame.take n) = etherType frame := by
  simp only [etherType, at_, List.getD_eq_getElem?_getD]
  rw [List.getElem?_take_of_lt (by omega), List.getElem?_take_of_lt (by omega)]

theorem longForeign {frame : Bytes} (long : 52 ≤ frame.length) (foreign : ¬ Reac frame) (s : Daemon.Loop)
    (created : Bool) (hostTime : UInt64) (thread : PipeWire.Thread) (b : JackBridge.Bridge capacity) :
    CountedForeign frame s created hostTime thread b := by
  have parsed := foreignFrame long foreign cleared
  -- what `recv` cuts off leaves the EtherType in place
  have cut : reacParsePacket (some (frame.take PipeWire.reacjackPwPacketBytes)) (some cleared) =
      (.notReac,some cleared) := by
    refine foreignFrame ?_ ?_ cleared
    · rw [List.length_take]
      exact Nat.le_min.mpr ⟨by decide,long⟩
    · rw [Reac, etherTypeTake frame (by decide)]
      exact foreign
  refine ⟨fun old => by rw [foreignFrame long foreign old],?_,?_,?_⟩
  · simp only [Daemon.captureFrame, parsed, if_true]
  · simp only [PipeWire.captureFrame, cut, if_true]
  · simp only [JackBridge.copyFrame, parsed, if_true]

theorem shortMalformed {frame : Bytes} (short : frame.length < 52) (s : Daemon.Loop) (created : Bool)
    (hostTime : UInt64) (thread : PipeWire.Thread) (b : JackBridge.Bridge capacity) :
    Daemon.captureFrame s frame created hostTime = some {s with daemon := Daemon.countMalformed s.daemon} ∧
      PipeWire.captureFrame thread frame = some {thread with app := PipeWire.countMalformed thread.app} ∧
      JackBridge.copyFrame b frame =
        {b with malformedPackets := b.malformedPackets + 1, error := .shortPacket} := by
  have parsed := shortFrame short cleared
  have cut : reacParsePacket (some (frame.take PipeWire.reacjackPwPacketBytes)) (some cleared) =
      (.shortPacket,some cleared) := by
    refine shortFrame ?_ cleared
    rw [List.length_take]
    exact Nat.lt_of_le_of_lt (Nat.min_le_right _ _) short
  refine ⟨?_,?_,?_⟩
  · simp [Daemon.captureFrame, parsed]
  · simp [PipeWire.captureFrame, cut]
  · simp [JackBridge.copyFrame, parsed]

/-- Other traffic is told apart exactly from the length of the shortest packet on, and
what has the EtherType is told apart at every length. -/
theorem foreignIffLong (frame : Bytes) (s : Daemon.Loop) (created : Bool)
    (hostTime : UInt64) (thread : PipeWire.Thread) (b : JackBridge.Bridge capacity) :
    ((¬ Reac frame → CountedForeign frame s created hostTime thread b) ↔ Reac frame ∨ 52 ≤ frame.length) ∧
      (Reac frame → (∀ channels, ¬ WellFormed frame channels) → ∀ old,
        (reacParsePacket (some frame) (some old)).1 ≠ .ok ∧
          (reacParsePacket (some frame) (some old)).1 ≠ .notReac) := by
  refine ⟨⟨?_,?_⟩,?_⟩
  · intro counted
    by_cases reac : Reac frame
    · exact .inl reac
    · right
      by_contra short
      have booked := (counted reac).status cleared
      rw [shortFrame (Nat.not_le.mp short) cleared] at booked
      contradiction
  · rintro (reac | long) foreign
    · exact absurd reac foreign
    · exact longForeign long foreign s created hostTime thread b
  · intro reac malformed old
    refine ⟨?_,reacNotForeign reac old⟩
    intro accepted
    have parsed : reacParsePacket (some frame) (some old) = (.ok,(reacParsePacket (some frame) (some old)).2) := by
      rw [← accepted]
    obtain ⟨channels,wellFormed,_⟩ := parsedWellFormed parsed
    exact malformed channels wellFormed

def arpRequest : Bytes := List.replicate 6 0xff ++ List.replicate 6 2 ++ [0x08,0x06] ++ List.replicate 28 0

theorem arpMalformed : ¬ ∀ frame : Bytes, 14 ≤ frame.length → ¬ Reac frame →
    (reacParsePacket (some frame) (some cleared)).1 = .notReac := by
  intro always
  exact absurd (always arpRequest (by decide) (by decide)) (by decide)

end ReacJack.ForeignFrames
