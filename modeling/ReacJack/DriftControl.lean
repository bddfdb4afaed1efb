import Mathlib.Algebra.Order.Ring.Int
import Mathlib.Algebra.Order.Group.Abs
import Mathlib.Algebra.BigOperators.Group.List.Basic

/-! A level fed and drained in cycles and nudged back by a fixed step whenever it
leaves a band. When the drift over any window of cycles is at most one step per
cycle plus a jitter, the level leaves the band by no more than the jitter and one
drain: look back to the last cycle in which the controller pushed the other way. -/
namespace ReacJack.DriftControl

structure Flow where
  written : Nat
  read : Nat

def net (flows : List Flow) : Int := (flows.map (fun f => (f.written : Int) - f.read)).sum

@[simp] theorem netNil : net [] = 0 := rfl

@[simp] theorem netAppend (first second : List Flow) : net (first ++ second) = net first + net second := by
  simp [net]

@[simp] theorem netSingle (f : Flow) : net [f] = f.written - f.read := by
  simp [net]

structure Band where
  target : Int
  tolerance : Int
  step : Int
  readMax : Int
  stepLe : step ≤ tolerance
  stepNonneg : 0 ≤ step

variable (b : Band)

def correction (level : Int) : Int :=
  if b.target + b.tolerance < level then -b.step
  else if level < b.target - b.tolerance then b.step
  else 0

variable {b} in
theorem correctionHigh {level : Int} (high : b.target + b.tolerance < level) : correction b level = -b.step :=
  if_pos high

variable {b} in
theorem correctionLow {level : Int} (notHigh : level ≤ b.target + b.tolerance)
    (low : level < b.target - b.tolerance) : correction b level = b.step := by
  rw [correction, if_neg (by omega), if_pos low]

variable {b} in
theorem correctionNone {level : Int} (notHigh : level ≤ b.target + b.tolerance)
    (notLow : b.target - b.tolerance ≤ level) : correction b level = 0 := by
  rw [correction, if_neg (by omega), if_neg (by omega)]

def nextLevel (level : Int) (f : Flow) : Int :=
  level + f.written - f.read + correction b (level + f.written)

structure Held (done : List Flow) (level : Int) : Prop where
  high : ∃ head tail, done = head ++ tail ∧
    level ≤ b.target + b.tolerance + net tail - b.step * tail.length
  low : ∃ head tail, done = head ++ tail ∧
    b.target - b.tolerance - b.readMax + net tail + b.step * tail.length ≤ level

variable {b}

theorem heldStart {level : Int} (drain : 0 ≤ b.readMax) (low : b.target - b.tolerance ≤ level)
    (high : level ≤ b.target + b.tolerance) : Held b [] level :=
  ⟨⟨[],[],rfl,by simpa using high⟩,⟨[],[],rfl,by simp; omega⟩⟩

theorem heldStep {done : List Flow} {level : Int} {f : Flow} (held : Held b done level)
    (least : b.step ≤ f.read) (most : f.read ≤ b.readMax) :
    Held b (done ++ [f]) (nextLevel b level f) := by
  have := b.stepLe
  have := b.stepNonneg
  obtain ⟨⟨head,tail,rfl,high⟩,⟨head',tail',same,low⟩⟩ := held
  have longer : ∀ (n : Nat), b.step * ((n + 1 : Nat) : Int) = b.step * n + b.step := by
    intro n
    rw [Nat.cast_succ, mul_add, mul_one]
  constructor
  · by_cases full : b.target + b.tolerance < level + f.written
    · refine ⟨head,tail ++ [f],List.append_assoc _ _ _,?_⟩
      simp only [nextLevel, correction, full, if_true, netAppend, netSingle, List.length_append,
        List.length_singleton, longer]
      omega
    · -- anything but a push down: the level is inside the band again
      refine ⟨head ++ tail ++ [f],[],(List.append_nil _).symm,?_⟩
      simp only [nextLevel, correction, full, if_false, netNil, List.length_nil, Nat.cast_zero, mul_zero]
      split <;> omega
  · rw [same]
    by_cases empty : level + f.written < b.target - b.tolerance
    · have notFull : ¬ b.target + b.tolerance < level + f.written := by omega
      refine ⟨head',tail' ++ [f],List.append_assoc _ _ _,?_⟩
      simp only [nextLevel, correction, notFull, empty, if_true, if_false, netAppend, netSingle,
        List.length_append, List.length_singleton, longer]
      omega
    · refine ⟨head' ++ tail' ++ [f],[],(List.append_nil _).symm,?_⟩
      simp only [nextLevel, correction, empty, if_false, netNil, List.length_nil, Nat.cast_zero, mul_zero]
      split <;> omega

def Windowed (step jitter : Int) (flows : List Flow) : Prop :=
  ∀ before window after, flows = before ++ window ++ after →
    |net window| ≤ step * window.length + jitter

theorem windowedPrefix {step jitter : Int} {first second : List Flow}
    (windowed : Windowed step jitter (first ++ second)) : Windowed step jitter first := by
  rintro before window after rfl
  exact windowed before window (after ++ second) (by simp only [List.append_assoc])

theorem windowedEach {step jitter : Int} {flows : List Flow} (nonneg : 0 ≤ jitter)
    (each : ∀ f ∈ flows, |(f.written : Int) - f.read| ≤ step) : Windowed step jitter flows := by
  rintro before window after rfl
  have inside : ∀ f ∈ window, |(f.written : Int) - f.read| ≤ step :=
    fun f member => each f (List.mem_append_left _ (List.mem_append_right _ member))
  have total : |net window| ≤ step * window.length := by
    induction window with
    | nil => simp
    | cons f rest ih =>
      have first := inside f List.mem_cons_self
      have later := ih (fun g member => each g (by simp at member ⊢; tauto))
        (fun g member => inside g (List.mem_cons_of_mem _ member))
      calc |net (f :: rest)| = |((f.written : Int) - f.read) + net rest| := by simp [net]
        _ ≤ |(f.written : Int) - f.read| + |net rest| := abs_add_le _ _
        _ ≤ step + step * rest.length := add_le_add first later
        _ = step * (f :: rest).length := by rw [List.length_cons, Nat.cast_succ, mul_add, mul_one, add_comm]
  omega

theorem heldBounds {done : List Flow} {level jitter : Int} (held : Held b done level)
    (windowed : Windowed b.step jitter done) :
    b.target - b.tolerance - b.readMax - jitter ≤ level ∧ level ≤ b.target + b.tolerance + jitter := by
  obtain ⟨⟨head,tail,rfl,high⟩,⟨head',tail',same,low⟩⟩ := held
  have up := abs_le.mp (windowed head tail [] (List.append_nil _).symm)
  have down := abs_le.mp (windowed head' tail' [] (by rw [same, List.append_nil]))
  constructor <;> omega

end ReacJack.DriftControl
