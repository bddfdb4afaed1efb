import ReacJack.PipeWireRing
import ReacJack.SharedFifo

/-! The interleaved ring as the same bounded queue of frames, while its positions stay
below the wrap of `size_t`. A row of the ring is a frame; the chunks the loops copy
do not show. -/
namespace ReacJack.PipeWireFifo
open BufferLoops CircularBuffer BoundedFifo PipeWireRing
open SharedFifo (Frame block blockLength blockBehind)

variable {w capacity : Nat} {α : Type}

structure Refines (ring : AudioRing w α) (q : Queue (Frame α) capacity) : Prop where
  capacityEq : ring.capacityFrames.toNat = capacity
  positive : 0 < capacity
  written : ring.writePos.toNat = q.stream.length
  taken : ring.readPos.toNat = q.taken
  stored : ∀ p frame, q.taken ≤ p → q.stream[p]? = some frame →
    ∀ ch, ch < ring.channels.toNat → ring.samples (p % capacity * ring.channels.toNat + ch) = frame ch

theorem refinesFill {ring : AudioRing w α} {q : Queue (Frame α) capacity} (refines : Refines ring q) :
    fill ring = q.fill := by
  have := q.takenLe
  have written := refines.written
  have taken := refines.taken
  rw [fill, Queue.fill, BitVec.toNat_sub_of_le (BitVec.le_def.mpr (by omega)), written, taken]

theorem refinesBounded {ring : AudioRing w α} {q : Queue (Frame α) capacity} (refines : Refines ring q) :
    0 < ring.capacityFrames.toNat ∧ fill ring ≤ ring.capacityFrames.toNat := by
  rw [refinesFill refines, refines.capacityEq]
  exact ⟨refines.positive,fillLeCapacity q⟩

theorem initRefines [Zero α] (channels : UInt16) {capacityFrames : BitVec w} (positive : 0 < capacityFrames.toNat) :
    Refines (audioRingInit channels capacityFrames : AudioRing w α)
      (empty : Queue (Frame α) capacityFrames.toNat) := by
  refine ⟨rfl,positive,rfl,rfl,?_⟩
  intro p frame _ found
  simp [empty] at found

theorem movedStores {ring : AudioRing w α} {q : Queue (Frame α) capacity} (refines : Refines ring q)
    {interleaved : Nat → α} {channels : Nat → Nat → α} {frames p : Nat} {frame : Frame α} {s : Copying w α}
    (rows : ∀ f < frames, ∀ ch < ring.channels.toNat,
      interleaved (f * ring.channels.toNat + ch) = channels ch f)
    (moved : Moved ring interleaved s) (all : s.moved.toNat = frames) (fits : frames ≤ capacity - q.fill)
    (live : q.taken ≤ p) (found : (q.stream ++ block channels frames)[p]? = some frame)
    {ch : Nat} (channel : ch < ring.channels.toNat) :
    s.buffer (p % capacity * ring.channels.toNat + ch) = frame ch := by
  have sum := takenAddFill q
  have le := fillLeCapacity q
  have written := refines.written
  have capacityEq := refines.capacityEq
  rcases Nat.lt_or_ge p q.stream.length with old | new
  · rw [List.getElem?_append_left old] at found
    rw [moved.others (p % capacity) ?_ ch channel, refines.stored p frame live found ch channel]
    intro f inside same
    rw [written, capacityEq] at same
    have := windowInjective (a := q.taken) (by omega) (by omega) same
    omega
  · obtain ⟨inside,rfl⟩ := blockBehind new found
    have stored := moved.rows (p - q.stream.length) (by omega) ch channel
    rw [written, capacityEq, Nat.add_sub_cancel' new, rows _ inside ch channel] at stored
    exact stored

theorem writeRefines {ring : AudioRing w α} {q next : Queue (Frame α) capacity} (refines : Refines ring q)
    {interleaved : Nat → α} {channels : Nat → Nat → α} {frames : BitVec w}
    (rows : ∀ f < frames.toNat, ∀ ch < ring.channels.toNat,
      interleaved (f * ring.channels.toNat + ch) = channels ch f)
    (offered_ : offer q (block channels frames.toNat) = some next) (small : next.stream.length < 2 ^ w) :
    ∃ ring', audioRingWrite ring interleaved frames = some (0,ring') ∧ Refines ring' next ∧
      ring'.channels = ring.channels := by
  obtain ⟨fits,stream,taken⟩ := offered offered_
  rw [blockLength] at fits
  obtain ⟨positive,bounded⟩ := refinesBounded refines
  have capacityEq := refines.capacityEq
  have written := refines.written
  have total : next.stream.length = q.stream.length + frames.toNat := by
    rw [stream, List.length_append, blockLength]
  obtain ⟨s,result,contents⟩ := writeAccepted positive bounded interleaved
    (show frames.toNat ≤ ring.capacityFrames.toNat - fill ring by rw [capacityEq, refinesFill refines]; exact fits)
  obtain ⟨moved,all⟩ := contents (by omega)
  refine ⟨_,result,⟨capacityEq,refines.positive,?_,?_,?_⟩,rfl⟩
  · rw [BitVec.toNat_add, Nat.mod_eq_of_lt (by omega)]
    omega
  · rw [taken]
    exact refines.taken
  · intro p frame live found ch channel
    rw [stream] at found
    rw [taken] at live
    exact movedStores refines rows moved all fits live found channel

theorem writeRefusedRefines {ring : AudioRing w α} {q : Queue (Frame α) capacity} (refines : Refines ring q)
    (interleaved : Nat → α) {channels : Nat → Nat → α} {frames : BitVec w}
    (full : offer q (block channels frames.toNat) = none) :
    audioRingWrite ring interleaved frames = some (-1,ring) := by
  rw [refusedIff, blockLength] at full
  refine writeRefused (refinesBounded refines).2 interleaved ?_
  rw [refines.capacityEq, refinesFill refines]
  exact full

theorem readRefines [Zero α] {ring : AudioRing w α} {q : Queue (Frame α) capacity} (refines : Refines ring q)
    (out : Nat → α) (frames : BitVec w) :
    ∃ ring' out', audioRingRead ring out frames = some (readCount ring frames,ring',out') ∧
      Refines ring' (advance q frames.toNat) ∧ ring'.channels = ring.channels ∧
      ∀ f < frames.toNat, ∀ ch < ring.channels.toNat,
        out' (f * ring.channels.toNat + ch) = frameOr q (fun _ => 0) f ch := by
  have count := readCountToNat ring frames
  have sum := takenAddFill q
  have written := refines.written
  have taken := refines.taken
  have below := ring.writePos.isLt
  rw [refinesFill refines] at count
  obtain ⟨out',result,real,silent⟩ := readSpec (refinesBounded refines).1 out frames
  refine ⟨_,out',result,⟨refines.capacityEq,refines.positive,written,?_,?_⟩,rfl,?_⟩
  · simp only [advance]
    rw [BitVec.toNat_add, Nat.mod_eq_of_lt (by omega)]
    omega
  · intro p frame live found ch channel
    exact refines.stored p frame ((Nat.le_add_right _ _).trans live) found ch channel
  · intro f inside ch channel
    rcases Nat.lt_or_ge f (readCount ring frames).toNat with fresh | ended
    · rw [real (by omega) f fresh ch channel, refines.capacityEq, taken]
      exact refines.stored _ _ (Nat.le_add_right _ _) (frameOrLive q _ (by omega)) ch channel
    · rw [silent f inside ended ch channel, frameOrEnded q _ (by omega)]

end ReacJack.PipeWireFifo
