import ReacJack.BoundedFifo
import ReacJack.CircularBuffer

/-! A bounded queue in a circle of slots that two parties pass back and forth. A slot says
itself whose turn it is: one party only fills slots that are free, the other frees the
oldest. Neither keeps the other's position. -/
namespace ReacJack.SlotQueue
open BufferLoops CircularBuffer BoundedFifo

variable {σ : Type} {capacity : Nat} {free : σ → Prop}

structure Occupied (free : σ → Prop) (slots : Nat → σ) (q : Queue σ capacity) : Prop where
  items : ∀ item ∈ q.stream, ¬ free item
  live : ∀ k item, q.taken ≤ k → q.stream[k]? = some item → slots (k % capacity) = item
  idle : ∀ k, q.stream.length ≤ k → k < q.taken + capacity → free (slots (k % capacity))

theorem emptyOccupied {slots : Nat → σ} (all : ∀ k < capacity, free (slots k)) :
    Occupied free slots (empty : Queue σ capacity) := by
  refine ⟨by simp [empty],by simp [empty],?_⟩
  intro k _ below
  have small : k < capacity := by
    have : k < 0 + capacity := below
    omega
  exact all _ (Nat.mod_lt _ (Nat.zero_lt_of_lt small))

theorem freeHasRoom {slots : Nat → σ} {q : Queue σ capacity} (occupied : Occupied free slots q)
    (positive : 0 < capacity) (here : free (slots (q.stream.length % capacity))) :
    q.stream.length < q.taken + capacity := by
  have bounded := q.bounded
  by_contra full
  have last : q.stream.length = q.taken + capacity := by omega
  have found : q.stream[q.taken]? = some q.stream[q.taken] := List.getElem?_eq_getElem (by omega)
  have held := occupied.live q.taken _ (Nat.le_refl _) found
  rw [last, Nat.add_mod_right, held] at here
  exact occupied.items _ (List.getElem_mem _) here

theorem oldest {slots : Nat → σ} {q : Queue σ capacity} (occupied : Occupied free slots q)
    (some_ : q.taken < q.stream.length) : slots (q.taken % capacity) = q.stream[q.taken] :=
  occupied.live q.taken _ (Nat.le_refl _) (List.getElem?_eq_getElem some_)

theorem busyIsOldest {slots : Nat → σ} {q : Queue σ capacity} (occupied : Occupied free slots q)
    (positive : 0 < capacity) (here : ¬ free (slots (q.taken % capacity))) : q.taken < q.stream.length := by
  by_contra none
  have le := q.takenLe
  exact here (occupied.idle q.taken (by omega) (by omega))

theorem unchanged {slots : Nat → σ} {q : Queue σ capacity} {k p : Nat} (value : σ)
    (low : q.taken ≤ p ∧ p < q.taken + capacity) (here : q.taken ≤ k ∧ k < q.taken + capacity) (apart : k ≠ p) :
    put slots (p % capacity) value (k % capacity) = slots (k % capacity) :=
  putElsewhere slots value (fun same => apart (windowInjective here low same))

theorem occupiedPrepare {slots : Nat → σ} {q : Queue σ capacity} (occupied : Occupied free slots q)
    (room : q.stream.length < q.taken + capacity) {item : σ} (still : free item) :
    Occupied free (put slots (q.stream.length % capacity) item) q := by
  -- What is prepared in the next free slot is nobody's business while the slot stays free.
  have le := q.takenLe
  refine ⟨occupied.items,?_,?_⟩
  · intro k old live found
    have below := (List.getElem?_eq_some_iff.mp found).1
    rw [unchanged item ⟨le,room⟩ (by omega) (by omega)]
    exact occupied.live k old live found
  · intro k above below
    by_cases here : k = q.stream.length
    · subst here
      rw [putHere]
      exact still
    · rw [unchanged item ⟨le,room⟩ (by omega) here]
      exact occupied.idle k above below

theorem occupiedFill {slots : Nat → σ} {q next : Queue σ capacity} (occupied : Occupied free slots q) {item : σ}
    (busy : ¬ free item) (offered_ : offer q [item] = some next) :
    Occupied free (put slots (q.stream.length % capacity) item) next := by
  obtain ⟨fits,stream,taken⟩ := offered offered_
  have le := q.takenLe
  have sum := takenAddFill q
  have room : q.stream.length < q.taken + capacity := by
    rw [List.length_singleton] at fits
    omega
  refine ⟨?_,?_,?_⟩
  · intro other member
    rw [stream, List.mem_append, List.mem_singleton] at member
    rcases member with old | rfl
    · exact occupied.items other old
    · exact busy
  · intro k other live found
    rw [stream] at found
    rw [taken] at live
    rcases Nat.lt_or_ge k q.stream.length with old | new
    · rw [List.getElem?_append_left old] at found
      rw [unchanged item ⟨le,room⟩ (by omega) (by omega)]
      exact occupied.live k other live found
    · have below := (List.getElem?_eq_some_iff.mp found).1
      rw [List.length_append, List.length_singleton] at below
      obtain rfl : k = q.stream.length := by omega
      rw [putHere]
      simpa using found
  · intro k above below
    rw [stream, List.length_append, List.length_singleton] at above
    rw [taken] at below
    rw [unchanged item ⟨le,room⟩ (by omega) (by omega)]
    exact occupied.idle k (by omega) below

theorem occupiedFree {slots : Nat → σ} {q : Queue σ capacity} (occupied : Occupied free slots q)
    (some_ : q.taken < q.stream.length) {item : σ} (freed : free item) :
    Occupied free (put slots (q.taken % capacity) item) (advance q 1) := by
  have bounded := q.bounded
  have one : min 1 q.fill = 1 := by
    have := takenAddFill q
    omega
  have taken : (advance q 1).taken = q.taken + 1 := by simp only [advance, one]
  refine ⟨occupied.items,?_,?_⟩
  · intro k other live found
    have below := (List.getElem?_eq_some_iff.mp found).1
    rw [taken] at live
    have length : (advance q 1).stream.length = q.stream.length := rfl
    rw [unchanged (q := q) item (by omega) (by omega) (by omega)]
    exact occupied.live k other (by omega) found
  · intro k above below
    rw [taken] at below
    have length : (advance q 1).stream.length = q.stream.length := rfl
    by_cases last : k = q.taken + capacity
    · subst last
      rw [Nat.add_mod_right, putHere]
      exact freed
    · rw [unchanged (q := q) item (by omega) (by omega) (by omega)]
      exact occupied.idle k above (by omega)

end ReacJack.SlotQueue
