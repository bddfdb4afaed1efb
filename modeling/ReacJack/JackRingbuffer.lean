import ReacJack.ReacDecode
import ReacJack.BoundedFifo

/-! `jack/ringbuffer.h` as it is documented: a FIFO of bytes whose calls do not overlap.
The bytes it can hold are a parameter, since JACK rounds the size it is asked for up to
a power of two and keeps one byte for itself. -/
namespace ReacJack.JackRingbuffer
open ReacDecode BoundedFifo

structure Ringbuffer (capacity : Nat) where
  contents : Bytes
  fits : contents.length ≤ capacity

variable {capacity : Nat}

def jackRingbufferCreate (capacity : Nat) : Ringbuffer capacity := ⟨[],Nat.zero_le capacity⟩

def jackRingbufferReadSpace (rb : Ringbuffer capacity) : Nat := rb.contents.length

def jackRingbufferWriteSpace (rb : Ringbuffer capacity) : Nat := capacity - rb.contents.length

def jackRingbufferWrite (rb : Ringbuffer capacity) (src : Bytes) (cnt : Nat) : Nat × Ringbuffer capacity :=
  let written := min cnt (jackRingbufferWriteSpace rb)
  (written,⟨rb.contents ++ src.take written,by
    have := rb.fits
    rw [List.length_append, List.length_take]
    simp only [written, jackRingbufferWriteSpace]
    omega⟩)

def jackRingbufferRead (rb : Ringbuffer capacity) (cnt : Nat) : Bytes × Ringbuffer capacity :=
  (rb.contents.take cnt,⟨rb.contents.drop cnt,by
    have := rb.fits
    rw [List.length_drop]
    omega⟩)

def jackRingbufferReset (_ : Ringbuffer capacity) : Ringbuffer capacity := ⟨[],Nat.zero_le capacity⟩

def Backs (rb : Ringbuffer capacity) (q : Queue UInt8 capacity) : Prop :=
  rb.contents = q.stream.drop q.taken

theorem backsCreate : Backs (jackRingbufferCreate capacity) empty := rfl

theorem backsFill {rb : Ringbuffer capacity} {q : Queue UInt8 capacity} (backs : Backs rb q) :
    jackRingbufferReadSpace rb = q.fill := by
  rw [jackRingbufferReadSpace, backs, List.length_drop, Queue.fill]

theorem backsWrite {rb : Ringbuffer capacity} {q : Queue UInt8 capacity} (backs : Backs rb q) {src : Bytes}
    {cnt : Nat} (enough : cnt ≤ src.length) (space : cnt ≤ jackRingbufferWriteSpace rb) :
    ∃ next, offer q (src.take cnt) = some next ∧ (jackRingbufferWrite rb src cnt).1 = cnt ∧
      Backs (jackRingbufferWrite rb src cnt).2 next := by
  have whole : min cnt (jackRingbufferWriteSpace rb) = cnt := Nat.min_eq_left space
  cases h : offer q (src.take cnt) with
  | none =>
    have full := refusedIff.mp h
    have fill := backsFill backs
    rw [List.length_take, Nat.min_eq_left enough] at full
    simp only [jackRingbufferReadSpace, jackRingbufferWriteSpace] at fill space
    omega
  | some next =>
    obtain ⟨_,stream,taken⟩ := offered h
    refine ⟨next,rfl,whole,?_⟩
    simp only [Backs, jackRingbufferWrite, whole, stream, taken]
    rw [List.drop_append_of_le_length q.takenLe, backs]

theorem backsRead {rb : Ringbuffer capacity} {q : Queue UInt8 capacity} (backs : Backs rb q) (cnt : Nat) :
    (jackRingbufferRead rb cnt).1 = front q cnt ∧ Backs (jackRingbufferRead rb cnt).2 (advance q cnt) := by
  have contents : rb.contents = q.stream.drop q.taken := backs
  have fill := takenAddFill q
  refine ⟨congrArg (List.take cnt) contents,?_⟩
  simp only [Backs, jackRingbufferRead, advance]
  rw [contents, List.drop_drop]
  rcases Nat.le_total cnt q.fill with less | more
  · rw [Nat.min_eq_left less]
  · rw [Nat.min_eq_right more, List.drop_of_length_le (by omega), List.drop_of_length_le (by omega)]

theorem backsReset (rb : Ringbuffer capacity) (q : Queue UInt8 capacity) :
    Backs (jackRingbufferReset rb) (advance q q.fill) := by
  have fill := takenAddFill q
  simp only [Backs, jackRingbufferReset, advance, Nat.min_self, fill, List.drop_length]

end ReacJack.JackRingbuffer
