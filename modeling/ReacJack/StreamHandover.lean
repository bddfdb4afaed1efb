import Mathlib.Logic.Function.Basic
import Mathlib.Data.List.Basic

/-! Frames handed from one side to another through cells in memory. One side stores the
values of a block into the cells of free frames, in any order, and then publishes the
block; the other claims published frames, loads their cells in any order and then gives
them back. All either side knows of the other is a position, which may be stale. A value
of `Handover` carries the reasons why nothing is torn or lost, so every operation here
is also the proof that it keeps them. -/
namespace ReacJack.StreamHandover

variable {K V : Type} {cell : Nat → Nat → K} {width capacity : Nat}

def Separate (cell : Nat → Nat → K) (width capacity : Nat) : Prop :=
  ∀ a p q ch ch', ch < width → ch' < width → a ≤ p → p < a + capacity → a ≤ q → q < a + capacity →
    cell p ch = cell q ch' → p = q ∧ ch = ch'

/-- The published stream, how much of it was given back and how much of the rest is
claimed; the block on its way and which of its values are not stored yet. -/
structure Handover (V : Type) (cell : Nat → Nat → K) (width capacity : Nat) where
  memory : K → V
  stream : List (Nat → V)
  taken : Nat
  claimed : Nat
  block : List (Nat → V)
  missing : Nat → Nat → Prop
  claimedLe : taken + claimed ≤ stream.length
  bounded : stream.length + block.length ≤ taken + capacity
  live : ∀ p frame ch, taken ≤ p → stream[p]? = some frame → ch < width → memory (cell p ch) = frame ch
  stored : ∀ f frame ch, block[f]? = some frame → ch < width → ¬ missing f ch →
    memory (cell (stream.length + f) ch) = frame ch

theorem nothingClaimed : 0 + 0 ≤ ([] : List (Nat → V)).length := Nat.zero_le _

theorem nothingStored : ([] : List (Nat → V)).length + ([] : List (Nat → V)).length ≤ 0 + capacity :=
  Nat.zero_le _

def empty (memory : K → V) : Handover V cell width capacity where
  memory := memory
  stream := []
  taken := 0
  claimed := 0
  block := []
  missing := fun _ _ => False
  claimedLe := nothingClaimed
  bounded := nothingStored
  live := fun _ _ _ _ found _ => absurd (found.symm.trans List.getElem?_nil) (Option.some_ne_none _)
  stored := fun _ _ _ found _ _ => absurd (found.symm.trans List.getElem?_nil) (Option.some_ne_none _)

def commit (h : Handover V cell width capacity) (block : List (Nat → V))
    (room : h.stream.length + block.length ≤ h.taken + capacity) : Handover V cell width capacity where
  memory := h.memory
  stream := h.stream
  taken := h.taken
  claimed := h.claimed
  block := block
  missing := fun _ _ => True
  claimedLe := h.claimedLe
  bounded := room
  live := h.live
  stored := fun _ _ _ _ _ here => absurd trivial here

theorem storesApart (separate : Separate cell width capacity) (h : Handover V cell width capacity)
    {f p ch ch' : Nat} (inside : f < h.block.length) (channel : ch < width) (channel' : ch' < width)
    (unread : h.taken ≤ p) (published : p < h.stream.length) :
    cell (h.stream.length + f) ch ≠ cell p ch' := by
  intro same
  have bounded := h.bounded
  have := (separate h.taken _ _ _ _ channel channel' (by omega) (by omega) unread (by omega) same).1
  omega

variable [DecidableEq K]

def store (separate : Separate cell width capacity) (h : Handover V cell width capacity) {f ch : Nat}
    {frame : Nat → V} (found : h.block[f]? = some frame) (channel : ch < width) :
    Handover V cell width capacity where
  memory := Function.update h.memory (cell (h.stream.length + f) ch) (frame ch)
  stream := h.stream
  taken := h.taken
  claimed := h.claimed
  block := h.block
  missing := fun f' ch' => h.missing f' ch' ∧ ¬ (f' = f ∧ ch' = ch)
  claimedLe := h.claimedLe
  bounded := h.bounded
  live := by
    intro p frame' ch' unread found' channel'
    have inside := (List.getElem?_eq_some_iff.mp found).1
    have published := (List.getElem?_eq_some_iff.mp found').1
    rw [Function.update_of_ne (storesApart separate h inside channel channel' unread published).symm]
    exact h.live p frame' ch' unread found' channel'
  stored := by
    intro f' frame' ch' found' channel' here
    have inside := (List.getElem?_eq_some_iff.mp found).1
    have inside' := (List.getElem?_eq_some_iff.mp found').1
    have bounded := h.bounded
    have claimedLe := h.claimedLe
    by_cases same : f' = f ∧ ch' = ch
    · obtain ⟨rfl,rfl⟩ := same
      rw [found] at found'
      rw [Function.update_self, Option.some.inj found']
    · have apart : cell (h.stream.length + f') ch' ≠ cell (h.stream.length + f) ch := by
        intro equal
        have := separate h.taken _ _ _ _ channel' channel (by omega) (by omega) (by omega) (by omega) equal
        exact same ⟨by omega,this.2⟩
      rw [Function.update_of_ne apart]
      exact h.stored f' frame' ch' found' channel' (fun left => here ⟨left,same⟩)

omit [DecidableEq K]

def publish (h : Handover V cell width capacity)
    (complete : ∀ f ch, f < h.block.length → ch < width → ¬ h.missing f ch) : Handover V cell width capacity where
  memory := h.memory
  stream := h.stream ++ h.block
  taken := h.taken
  claimed := h.claimed
  block := []
  missing := fun _ _ => False
  claimedLe := by
    have := h.claimedLe
    rw [List.length_append]
    omega
  bounded := by
    have := h.bounded
    rw [List.length_append]
    exact this
  live := by
    intro p frame ch unread found channel
    rcases Nat.lt_or_ge p h.stream.length with old | new
    · rw [List.getElem?_append_left old] at found
      exact h.live p frame ch unread found channel
    · rw [List.getElem?_append_right new] at found
      have inside := (List.getElem?_eq_some_iff.mp found).1
      have value := h.stored _ frame ch found channel (complete _ ch inside channel)
      rwa [Nat.add_sub_cancel' new] at value
  stored := by simp

def claim (h : Handover V cell width capacity) (n : Nat) (published : h.taken + n ≤ h.stream.length) :
    Handover V cell width capacity :=
  {h with claimed := n, claimedLe := published}

def release (h : Handover V cell width capacity) : Handover V cell width capacity where
  memory := h.memory
  stream := h.stream
  taken := h.taken + h.claimed
  claimed := 0
  block := h.block
  missing := h.missing
  claimedLe := h.claimedLe
  bounded := by
    have := h.bounded
    omega
  live := fun p frame ch unread => h.live p frame ch (by omega)
  stored := h.stored

theorem loads (h : Handover V cell width capacity) {f ch : Nat} {frame : Nat → V}
    (found : h.stream[h.taken + f]? = some frame) (channel : ch < width) :
    h.memory (cell (h.taken + f) ch) = frame ch :=
  h.live _ frame ch (Nat.le_add_right _ _) found channel

end ReacJack.StreamHandover
