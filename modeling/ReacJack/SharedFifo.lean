import Mathlib.Data.List.Forall2
import ReacJack.BoundedFifo
import ReacJack.TransitionRuns
import ReacJack.SharedAudioSpec

/-! The mapped ring as a bounded queue of multi-channel frames. A frame is the
sample of every channel at one position. The queue remembers the whole accepted
stream, so the relation can say which part of it the slots still hold. -/
namespace ReacJack.SharedFifo
open CircularBuffer BoundedFifo TransitionRuns SharedAudio

variable {α : Type} {capacity : Nat}

abbrev Frame (α : Type) := Nat → α

structure Refines (ring : SharedRing α) (q : Queue (Frame α) capacity) : Prop where
  capacityEq : ring.header.capacityFrames.toNat = capacity
  positive : 0 < capacity
  written : ring.header.writePos.toNat = q.stream.length
  taken : ring.header.readPos.toNat = q.taken
  stored : ∀ p frame, q.taken ≤ p → q.stream[p]? = some frame →
    ∀ ch, ch < ring.header.channels.toNat → ring.samples (slot capacity ch p) = frame ch

theorem refinesFill {ring : SharedRing α} {q : Queue (Frame α) capacity} (refines : Refines ring q) :
    fill ring.header = q.fill := by
  have := q.takenLe
  have := ring.header.writePos.toNat_lt
  have := refines.written
  have := refines.taken
  unfold fill Queue.fill
  rw [UInt64.toNat_sub]
  omega

theorem refinesSound {ring : SharedRing α} {q : Queue (Frame α) capacity} (refines : Refines ring q) :
    Sound ring.header := by
  refine ⟨by rw [refines.capacityEq]; exact refines.positive,?_⟩
  rw [refinesFill refines, refines.capacityEq]
  exact fillLeCapacity q

theorem createRefines [Zero α] (sampleRate : UInt32) (channels : UInt16) {capacity : UInt32}
    (positive : 0 < capacity.toNat) :
    Refines (sharedAudioCreate (α := α) sampleRate channels capacity)
      (empty : Queue (Frame α) capacity.toNat) := by
  refine ⟨rfl,positive,rfl,rfl,?_⟩
  intro p frame _ found
  simp [empty] at found

def block (channels : Nat → Nat → α) (frames : Nat) : List (Frame α) :=
  (List.range frames).map (fun f ch => channels ch f)

@[simp] theorem blockLength (channels : Nat → Nat → α) (frames : Nat) :
    (block channels frames).length = frames := by
  simp [block]

theorem blockAt {channels : Nat → Nat → α} {frames f : Nat} (inside : f < frames) :
    (block channels frames)[f]? = some (fun ch => channels ch f) := by
  simp [block, inside]

theorem blockBehind {stream : List (Frame α)} {channels : Nat → Nat → α} {frames p : Nat} {frame : Frame α}
    (new : stream.length ≤ p) (found : (stream ++ block channels frames)[p]? = some frame) :
    p - stream.length < frames ∧ frame = fun ch => channels ch (p - stream.length) := by
  rw [List.getElem?_append_right new] at found
  have inside : p - stream.length < frames := by
    have := (List.getElem?_eq_some_iff.mp found).1
    rwa [blockLength] at this
  rw [blockAt inside] at found
  exact ⟨inside,(Option.some.inj found).symm⟩

theorem storedBlock {ring : SharedRing α} {q : Queue (Frame α) capacity} (refines : Refines ring q)
    (channels : Nat → Nat → α) {frames p : Nat} {frame : Frame α} (fits : frames ≤ capacity - q.fill)
    (live : q.taken ≤ p) (found : (q.stream ++ block channels frames)[p]? = some frame)
    {ch : Nat} (channel : ch < ring.header.channels.toNat) :
    copyInAll ring.samples ring.header.channels.toNat capacity (q.stream.length % capacity) frames
      channels (slot capacity ch p) = frame ch := by
  have sum := takenAddFill q
  have le := fillLeCapacity q
  rcases Nat.lt_or_ge p q.stream.length with old | new
  · rw [List.getElem?_append_left old] at found
    rw [copyInAllElsewhere _ _ refines.positive (by omega), refines.stored p frame live found ch channel]
    intro ch' f _ inside same
    have := slotInjective (a := q.taken) (by omega) (by omega) same
    omega
  · obtain ⟨inside,rfl⟩ := blockBehind new found
    have position : p = q.stream.length + (p - q.stream.length) := by omega
    nth_rewrite 1 [position]
    rw [copyInAllAt _ _ (by omega) inside channel]

theorem writeRefines {ring : SharedRing α} {q next : Queue (Frame α) capacity}
    (refines : Refines ring q) {channels : Nat → Nat → α} {frames : UInt32}
    (offered_ : offer q (block channels frames.toNat) = some next)
    (small : next.stream.length < 2 ^ 64) :
    (sharedAudioWrite ring channels frames).1 = 0 ∧
      Refines (sharedAudioWrite ring channels frames).2 next := by
  obtain ⟨fits,stream,taken⟩ := offered offered_
  rw [blockLength] at fits
  have sound := refinesSound refines
  have filled := refinesFill refines
  have capacityEq := refines.capacityEq
  rw [writeAccepted sound channels (by rw [capacityEq, filled]; exact fits)]
  refine ⟨rfl,capacityEq,refines.positive,?_,?_,?_⟩
  · have total := refines.written
    rw [stream, List.length_append, blockLength] at small ⊢
    simp only [UInt64.toNat_add, UInt32.toNat_toUInt64]
    omega
  · rw [taken]
    exact refines.taken
  · intro p frame live found ch channel
    rw [stream] at found
    rw [taken] at live
    have kept := storedBlock refines channels fits live found channel
    simpa only [capacityEq, refines.written] using kept

theorem writeRefusedRefines {ring : SharedRing α} {q : Queue (Frame α) capacity}
    (refines : Refines ring q) (channels : Nat → Nat → α) {frames : UInt32}
    (full : offer q (block channels frames.toNat) = none) :
    sharedAudioWrite ring channels frames =
      (-1, {ring with header := {ring.header with overruns := ring.header.overruns + 1}}) := by
  rw [refusedIff, blockLength] at full
  exact writeRefused (refinesSound refines) channels
    (by rw [refines.capacityEq, refinesFill refines]; exact full)

theorem advanceRefines {ring ring' : SharedRing α} {q : Queue (Frame α) capacity}
    (refines : Refines ring q) {n : Nat} (samples : ring'.samples = ring.samples)
    (channels : ring'.header.channels = ring.header.channels)
    (capacityEq : ring'.header.capacityFrames = ring.header.capacityFrames)
    (writePos : ring'.header.writePos = ring.header.writePos)
    (readPos : ring'.header.readPos.toNat = q.taken + min n q.fill) : Refines ring' (advance q n) := by
  refine ⟨by rw [capacityEq]; exact refines.capacityEq,refines.positive,
    by rw [writePos]; exact refines.written,readPos,?_⟩
  intro p frame live found ch channel
  have before : q.taken ≤ p := (Nat.le_add_right _ _).trans live
  rw [channels] at channel
  rw [samples]
  exact refines.stored p frame before found ch channel

theorem forwardPosition {ring : SharedRing α} {q : Queue (Frame α) capacity} (refines : Refines ring q)
    {frames : UInt32} (le : frames.toNat ≤ q.fill) :
    (ring.header.readPos + frames.toUInt64).toNat = q.taken + frames.toNat := by
  have := takenAddFill q
  have := refines.written
  have := ring.header.writePos.toNat_lt
  have := refines.taken
  rw [UInt64.toNat_add, UInt32.toNat_toUInt64]
  omega

theorem finishReadRefines {ring : SharedRing α} {q : Queue (Frame α) capacity}
    (refines : Refines ring q) (frames : UInt32) :
    Refines
      {ring with header :=
        finishRead ring.header ring.header.readPos (readCount ring.header frames) frames}
      (advance q frames.toNat) := by
  refine advanceRefines refines rfl rfl rfl rfl ?_
  have count := readCountToNat (refinesSound refines) frames
  rw [refinesFill refines] at count
  have forward := forwardPosition refines (show (readCount ring.header frames).toNat ≤ q.fill by omega)
  simp only [finishRead]
  omega

theorem dropRefines {ring : SharedRing α} {q : Queue (Frame α) capacity} (refines : Refines ring q)
    {drop : UInt32} (le : drop.toNat ≤ q.fill) :
    Refines (dropFrames ring ring.header.readPos drop) (advance q drop.toNat) := by
  refine advanceRefines refines rfl rfl rfl rfl ?_
  rw [Nat.min_eq_left le]
  exact forwardPosition refines le

theorem seekRefines {ring : SharedRing α} {q : Queue (Frame α) capacity} (refines : Refines ring q)
    (targetFill : UInt32) :
    Refines (sharedAudioSeekToFill ring targetFill).2 (advance q (q.fill - targetFill.toNat)) := by
  refine advanceRefines refines rfl rfl rfl rfl ?_
  have count := seekCount (refinesSound refines) targetFill
  have := takenAddFill q
  have := refines.written
  have := ring.header.writePos.toNat_lt
  rw [refinesFill refines] at count
  simp only [seekRing, UInt64.toNat_sub, UInt32.toNat_toUInt64]
  omega

def AgreeTo (k : Nat) (a b : Frame α) : Prop := ∀ ch, ch < k → a ch = b ch

def rows (out : Nat → α) (width count : Nat) : List (Frame α) :=
  (List.range count).map (fun f ch => out (f * width + ch))

def columns (out : Nat → Nat → α) (count : Nat) : List (Frame α) :=
  (List.range count).map (fun f ch => out ch f)

@[simp] theorem rowsLength (out : Nat → α) (width count : Nat) : (rows out width count).length = count := by
  simp [rows]

@[simp] theorem columnsLength (out : Nat → Nat → α) (count : Nat) : (columns out count).length = count := by
  simp [columns]

theorem rowsAt (out : Nat → α) (width : Nat) {count f : Nat} (inside : f < (rows out width count).length) :
    (rows out width count)[f] = fun ch => out (f * width + ch) := by
  simp [rows]

theorem columnsAt (out : Nat → Nat → α) {count f : Nat} (inside : f < (columns out count).length) :
    (columns out count)[f] = fun ch => out ch f := by
  simp [columns]

theorem agreeFront {q : Queue (Frame α) capacity} {k n : Nat} {delivered : List (Frame α)}
    (length : delivered.length = min n q.fill)
    (same : ∀ f (h : f < delivered.length) frame, q.stream[q.taken + f]? = some frame →
      AgreeTo k delivered[f] frame) : List.Forall₂ (AgreeTo k) delivered (front q n) := by
  rw [List.forall₂_iff_get]
  refine ⟨by rw [length, frontLength],?_⟩
  intro f inside inside'
  refine same f inside _ ?_
  rw [frontLength] at inside'
  rw [← frontAt (n := n) (by omega)]
  exact List.getElem?_eq_getElem _

theorem liveSample {ring : SharedRing α} {q : Queue (Frame α) capacity} (refines : Refines ring q)
    {f ch : Nat} {frame : Frame α} (found : q.stream[q.taken + f]? = some frame)
    (channel : ch < ring.header.channels.toNat) : ringSample ring ch f = frame ch := by
  have inside := (List.getElem?_eq_some_iff.mp found).1
  have := refines.written
  have := ring.header.writePos.toNat_lt
  have taken := refines.taken
  rw [ringSampleAt (by rw [refines.capacityEq]; exact refines.positive) (by omega),
    refines.capacityEq, taken]
  exact refines.stored _ frame (Nat.le_add_right _ _) found ch channel

theorem readInterleavedFront [Zero α] {ring : SharedRing α} {q : Queue (Frame α) capacity}
    (refines : Refines ring q) (out : Nat → α) (outChannels : UInt16) (frames : UInt32) :
    List.Forall₂ (AgreeTo (min ring.header.channels.toNat outChannels.toNat))
      (rows (sharedAudioReadInterleaved ring out outChannels frames).out outChannels.toNat
        (readCount ring.header frames).toNat) (front q frames.toNat) := by
  have count := readCountToNat (refinesSound refines) frames
  rw [refinesFill refines] at count
  refine agreeFront (by rw [rowsLength]; omega) ?_
  intro f inside frame found ch channel
  rw [rowsLength] at inside
  have value := readInterleavedAt ring out outChannels frames (show f < frames.toNat by omega)
    (show ch < outChannels.toNat by omega)
  rw [if_pos ⟨by omega,inside⟩, liveSample refines found (by omega)] at value
  rw [rowsAt]
  exact value

theorem readInterleavedFrame [Zero α] {ring : SharedRing α} {q : Queue (Frame α) capacity}
    (refines : Refines ring q) (out : Nat → α) {outChannels : UInt16} {frames : UInt32} {f ch : Nat}
    (inside : f < frames.toNat) (own : ch < ring.header.channels.toNat) (channel : ch < outChannels.toNat) :
    (sharedAudioReadInterleaved ring out outChannels frames).out (f * outChannels.toNat + ch) =
      frameOr q (fun _ => 0) f ch := by
  have count := readCountToNat (refinesSound refines) frames
  rw [refinesFill refines] at count
  rw [readInterleavedAt ring out outChannels frames inside channel]
  by_cases real : f < (readCount ring.header frames).toNat
  · rw [if_pos ⟨own,real⟩]
    exact liveSample refines (frameOrLive q _ (by omega)) own
  · rw [if_neg (fun both => real both.2), frameOrEnded q _ (by omega)]

theorem readFront [Zero α] {ring : SharedRing α} {q : Queue (Frame α) capacity}
    (refines : Refines ring q) (channels : Nat → Nat → α) (frames : UInt32) :
    List.Forall₂ (AgreeTo ring.header.channels.toNat)
      (columns (sharedAudioRead ring channels frames).out (readCount ring.header frames).toNat)
      (front q frames.toNat) := by
  have sound := refinesSound refines
  have count := readCountToNat sound frames
  rw [refinesFill refines] at count
  refine agreeFront (by rw [columnsLength]; omega) ?_
  intro f inside frame found ch channel
  rw [columnsLength] at inside
  have value := readAt sound channels frames channel (show f < frames.toNat by omega)
  rw [if_pos inside, refines.capacityEq, refines.taken,
    refines.stored _ frame (Nat.le_add_right _ _) found ch channel] at value
  rw [columnsAt]
  exact value

end ReacJack.SharedFifo
