import Mathlib.Algebra.Order.Field.Basic
import Mathlib.Algebra.Order.Group.MinMax
import Mathlib.Tactic.FieldSimp
import Mathlib.Tactic.Linarith
import Mathlib.Tactic.Ring

/-! The slope between two points near a line, and what is left of its error when the
slope is clamped to a range and an old slope is kept while the new one is close. -/
namespace ReacJack.NoisyLine

section Range
variable {K : Type} [LinearOrder K]

def clamp (low high x : K) : K := max low (min high x)

theorem clampInside {low high x : K} (above : low ≤ x) (below : x ≤ high) : clamp low high x = x := by
  rw [clamp, min_eq_right below, max_eq_right above]

theorem clampRange {low high : K} (le : low ≤ high) (x : K) : low ≤ clamp low high x ∧ clamp low high x ≤ high :=
  ⟨le_max_left .., max_le le (min_le_left ..)⟩

end Range

variable {K : Type} [Field K] [LinearOrder K] [IsStrictOrderedRing K]

def Near (offset slope jitter x y : K) : Prop := |y - (offset + slope * x)| ≤ jitter

theorem slopeError {offset slope jitter x₀ y₀ x y : K} (start : Near offset slope jitter x₀ y₀)
    (stop : Near offset slope jitter x y) (apart : x₀ < x) :
    |(y - y₀) / (x - x₀) - slope| ≤ 2 * jitter / (x - x₀) := by
  have width : 0 < x - x₀ := sub_pos.mpr apart
  have errors : (y - y₀) / (x - x₀) - slope =
      ((y - (offset + slope * x)) - (y₀ - (offset + slope * x₀))) / (x - x₀) := by
    rw [eq_div_iff width.ne', sub_mul, div_mul_cancel₀ _ width.ne']
    ring
  have both : |(y - (offset + slope * x)) - (y₀ - (offset + slope * x₀))| ≤ 2 * jitter := by
    have := abs_sub (y - (offset + slope * x)) (y₀ - (offset + slope * x₀))
    unfold Near at start stop
    linarith
  rw [errors, abs_div, abs_of_pos width]
  exact div_le_div_of_nonneg_right both width.le

theorem clampNear {low high slope x error : K} (above : low ≤ slope) (below : slope ≤ high)
    (near : |x - slope| ≤ error) : |clamp low high x - slope| ≤ error := by
  have inside := clampInside above below
  calc |clamp low high x - slope| = |clamp low high x - clamp low high slope| := by rw [inside]
    _ ≤ max |low - low| |min high x - min high slope| := abs_max_sub_max_le_max ..
    _ ≤ max |low - low| (max |high - high| |x - slope|) := max_le_max_left _ (abs_min_sub_min_le_max ..)
    _ = |x - slope| := by simp
    _ ≤ error := near

theorem keptNear {kept estimate slope error tolerance : K} (near : |estimate - slope| ≤ error)
    (close : |estimate - kept| ≤ tolerance) : |kept - slope| ≤ error + tolerance := by
  have triangle := abs_sub_le kept estimate slope
  rw [abs_sub_comm kept estimate] at triangle
  linarith

end ReacJack.NoisyLine
