import Mathlib.Data.List.Basic

/-! What a bounded queue is for, without storage: the stream of everything that
was ever accepted and how much of it has been taken. The two bounds are part of
the value, so a queue that overtakes its writer or its reader cannot be built. -/
namespace ReacJack.BoundedFifo

structure Queue (F : Type) (capacity : Nat) where
  stream : List F
  taken : Nat
  takenLe : taken ≤ stream.length
  bounded : stream.length ≤ taken + capacity

variable {F : Type} {capacity : Nat}

def empty : Queue F capacity := ⟨[],0,Nat.le_refl 0,Nat.zero_le _⟩

def Queue.fill (q : Queue F capacity) : Nat := q.stream.length - q.taken

theorem fillLeCapacity (q : Queue F capacity) : q.fill ≤ capacity := by
  have := q.bounded
  unfold Queue.fill
  omega

theorem takenAddFill (q : Queue F capacity) : q.taken + q.fill = q.stream.length := by
  have := q.takenLe
  unfold Queue.fill
  omega

def offer (q : Queue F capacity) (block : List F) : Option (Queue F capacity) :=
  if fits : block.length ≤ capacity - q.fill then
    some ⟨q.stream ++ block,q.taken,
      by have := q.takenLe; rw [List.length_append]; omega,
      by have := takenAddFill q; have := fillLeCapacity q; rw [List.length_append]; omega⟩
  else none

theorem offered {q next : Queue F capacity} {block} (h : offer q block = some next) :
    block.length ≤ capacity - q.fill ∧ next.stream = q.stream ++ block ∧ next.taken = q.taken := by
  unfold offer at h
  split at h
  · rename_i fits
    cases Option.some.inj h
    exact ⟨fits,rfl,rfl⟩
  · contradiction

theorem refusedIff {q : Queue F capacity} {block} :
    offer q block = none ↔ capacity - q.fill < block.length := by
  unfold offer
  split <;> simp <;> omega

def front (q : Queue F capacity) (n : Nat) : List F := (q.stream.drop q.taken).take n

theorem frontLength (q : Queue F capacity) (n : Nat) : (front q n).length = min n q.fill := by
  simp [front, Queue.fill]

theorem frontAt {q : Queue F capacity} {n i : Nat} (inside : i < n) :
    (front q n)[i]? = q.stream[q.taken + i]? := by
  rw [front, List.getElem?_take_of_lt inside, List.getElem?_drop]

def frameOr (q : Queue F capacity) (silence : F) (i : Nat) : F := (q.stream[q.taken + i]?).getD silence

theorem frameOrLive (q : Queue F capacity) (silence : F) {i : Nat} (live : i < q.fill) :
    q.stream[q.taken + i]? = some (frameOr q silence i) := by
  unfold Queue.fill at live
  rw [frameOr, List.getElem?_eq_getElem (by omega)]
  rfl

theorem frameOrEnded (q : Queue F capacity) (silence : F) {i : Nat} (ended : q.fill ≤ i) :
    frameOr q silence i = silence := by
  have := q.takenLe
  unfold Queue.fill at ended
  rw [frameOr, List.getElem?_eq_none (by omega)]
  rfl

def advance (q : Queue F capacity) (n : Nat) : Queue F capacity where
  stream := q.stream
  taken := q.taken + min n q.fill
  takenLe := by have := takenAddFill q; omega
  bounded := by have := q.bounded; omega

@[simp] theorem advanceZero (q : Queue F capacity) : advance q 0 = q := by
  cases q
  simp [advance]

theorem takenThenFront (q : Queue F capacity) (n : Nat) :
    q.stream.take q.taken ++ front q n = (advance q n).stream.take (advance q n).taken := by
  have sum := takenAddFill q
  have whole : (q.stream.drop q.taken).take n = (q.stream.drop q.taken).take (min n q.fill) := by
    rw [List.take_eq_take_iff]
    simp [Queue.fill]
  rw [front, whole, advance, List.take_add]

end ReacJack.BoundedFifo
