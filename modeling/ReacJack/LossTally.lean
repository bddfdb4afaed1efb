import ReacJack.Daemon
import Mathlib.Data.List.Chain

/-! Packets numbered without end carry the number's low sixteen bits. As long as fewer
than 32768 packets are missing in a row, the counter's jumps tell how many. -/
namespace ReacJack.LossTally
open Daemon (counterGap)

def Follows (m n : Nat) : Prop := m < n ∧ n - m - 1 < 32768

def lostOf : List Nat → Nat
  | [] => 0
  | first :: rest => rest.getLastD first - first + 1 - (rest.length + 1)

theorem gapExact {m n : Nat} (follows : Follows m n) :
    (counterGap true (UInt16.ofNat m) (UInt16.ofNat n)).toNat = n - m - 1 := by
  obtain ⟨after,near⟩ := follows
  have expected : (UInt16.ofNat m + 1).toNat = (m + 1) % 65536 := by
    rw [UInt16.toNat_add, UInt16.toNat_ofNat', UInt16.toNat_one]
    omega
  have gap : (UInt16.ofNat n - (UInt16.ofNat m + 1)).toNat = n - m - 1 := by
    rw [UInt16.toNat_sub, expected, UInt16.toNat_ofNat']
    omega
  have same : UInt16.ofNat n = UInt16.ofNat m + 1 ↔ n = m + 1 := by
    rw [← UInt16.toNat_inj, expected, UInt16.toNat_ofNat']
    omega
  simp only [counterGap, Bool.true_and, ne_eq, same]
  by_cases next : n = m + 1
  · simp only [next, not_true_eq_false, decide_false, Bool.false_eq_true, if_false, UInt64.toNat_zero]
    omega
  · have few : UInt16.ofNat n - (UInt16.ofNat m + 1) < 32768 := by
      rw [UInt16.lt_iff_toNat_lt, gap]
      exact near
    simp only [next, not_false_eq_true, decide_true, few, if_true, UInt16.toNat_toUInt64, gap]

theorem firstGap (last counter : UInt16) : counterGap false last counter = 0 := by
  simp [counterGap]

def Tally (have_ : Bool) (last : UInt16) (lost : Nat) : List Nat → Prop
  | [] => have_ = false ∧ lost = 0
  | first :: rest => have_ = true ∧ last = UInt16.ofNat (rest.getLastD first) ∧ first ≤ rest.getLastD first ∧
      lost + (rest.length + 1) = rest.getLastD first - first + 1

theorem tallyLost {have_ : Bool} {last : UInt16} {lost : Nat} {captured : List Nat}
    (tally : Tally have_ last lost captured) : lost = lostOf captured := by
  cases captured with
  | nil => exact tally.2
  | cons first rest =>
    obtain ⟨_,_,_,total⟩ := tally
    simp only [lostOf]
    omega

theorem tallyStep {have_ : Bool} {last : UInt16} {lost n : Nat} {captured : List Nat}
    (tally : Tally have_ last lost captured) (inOrder : (captured ++ [n]).IsChain Follows) :
    Tally true (UInt16.ofNat n) (lost + (counterGap have_ last (UInt16.ofNat n)).toNat) (captured ++ [n]) := by
  cases captured with
  | nil =>
    obtain ⟨rfl,rfl⟩ := tally
    rw [firstGap]
    exact ⟨rfl,rfl,Nat.le_refl _,by simp⟩
  | cons first rest =>
    obtain ⟨rfl,rfl,le,total⟩ := tally
    have follows : Follows (rest.getLastD first) n := by
      have joined := (List.isChain_append.mp inOrder).2.2
      exact joined _ (by rw [List.getLast?_cons, List.getLastD_eq_getLast?]; rfl) n rfl
    rw [gapExact follows]
    obtain ⟨after,_⟩ := follows
    have last : (rest ++ [n]).getLastD first = n := by
      rw [List.getLastD_eq_getLast?, List.getLast?_concat, Option.getD_some]
    simp only [List.cons_append, Tally, last, List.length_append, List.length_singleton, true_and]
    omega

end ReacJack.LossTally
