import Mathlib.Algebra.BigOperators.Group.List.Lemmas
import Mathlib.Algebra.Order.Field.Basic
import Mathlib.Tactic.FieldSimp
import Mathlib.Tactic.Linarith
import Mathlib.Tactic.Positivity
import Mathlib.Tactic.Ring

/-!
# Least squares

The line through a list of points for which the sum of the squared residuals is least. Its slope
and intercept are computed from five sums.
-/

namespace LeastSquares

section
variable {K : Type*} [Field K] (points : List (K × K))

def sumX : K := (points.map fun p => p.1).sum
def sumY : K := (points.map fun p => p.2).sum
def sumXX : K := (points.map fun p => p.1 * p.1).sum
def sumXY : K := (points.map fun p => p.1 * p.2).sum
def sumYY : K := (points.map fun p => p.2 * p.2).sum

/-- The number of points. -/
def count : K := points.length

/-- The sum of the squared residuals of the line with slope `k` and intercept `c`. -/
def residuals (k c : K) : K :=
  (points.map fun p => (p.2 - (k * p.1 + c)) * (p.2 - (k * p.1 + c))).sum

/-- The sum of the squared deviations from the mean, along the first coordinate. -/
def spread : K := sumXX points - sumX points * sumX points / count points

def slopeOf : K := (sumXY points - sumX points * sumY points / count points) / spread points

def interceptOf : K := (sumY points - slopeOf points * sumX points) / count points

/-- The sum of the squared deviations from the mean, along the second coordinate. -/
def total : K := residuals points 0 (sumY points / count points)

variable {points}

theorem residuals_eq (k c : K) :
    residuals points k c = sumYY points - 2 * k * sumXY points - 2 * c * sumY points +
      k * k * sumXX points + 2 * k * c * sumX points + c * c * count points := by
  unfold residuals sumX sumY sumXX sumXY sumYY count
  induction points with
  | nil => simp
  | cons p points ih =>
    simp only [List.map_cons, List.sum_cons, ih, List.length_cons, Nat.cast_add, Nat.cast_one]
    ring

/-- A line is worse than the one computed by what its slope and its height at the mean differ. -/
theorem residuals_split (hcount : count points ≠ 0) (hspread : spread points ≠ 0) (k c : K) :
    residuals points k c = residuals points (slopeOf points) (interceptOf points) +
      spread points * ((k - slopeOf points) * (k - slopeOf points)) +
      count points * ((c - interceptOf points + (k - slopeOf points) * sumX points / count points) *
        (c - interceptOf points + (k - slopeOf points) * sumX points / count points)) := by
  have hslope : slopeOf points * spread points =
      sumXY points - sumX points * sumY points / count points := div_mul_cancel₀ _ hspread
  have hintercept : interceptOf points * count points =
      sumY points - slopeOf points * sumX points := div_mul_cancel₀ _ hcount
  have hxx : sumXX points = spread points + sumX points * sumX points / count points := by
    unfold spread
    ring
  have hxy : sumXY points =
      slopeOf points * spread points + sumX points * sumY points / count points := by
    rw [hslope]
    ring
  have hy : sumY points = interceptOf points * count points + slopeOf points * sumX points := by
    rw [hintercept]
    ring
  rw [residuals_eq, residuals_eq, hxx, hxy, hy]
  field_simp
  ring

/-- The line through the origin with the same slope misses the points by the intercept besides. -/
theorem residuals_origin (hcount : count points ≠ 0) (hspread : spread points ≠ 0) :
    residuals points (slopeOf points) 0 = residuals points (slopeOf points) (interceptOf points) +
      count points * (interceptOf points * interceptOf points) := by
  rw [residuals_split hcount hspread, sub_self]
  ring

theorem interceptOf_eq_zero_iff (hcount : count points ≠ 0) (hspread : spread points ≠ 0) :
    interceptOf points = 0 ↔ sumY points * sumXX points = sumX points * sumXY points := by
  have hslope : slopeOf points * spread points =
      sumXY points - sumX points * sumY points / count points := div_mul_cancel₀ _ hspread
  have hdiff : (sumY points - slopeOf points * sumX points) * spread points =
      sumY points * sumXX points - sumX points * sumXY points := by
    calc (sumY points - slopeOf points * sumX points) * spread points
        = sumY points * spread points - slopeOf points * spread points * sumX points := by ring
      _ = sumY points * sumXX points - sumX points * sumXY points := by
          rw [hslope, spread]
          ring
  rw [interceptOf, div_eq_zero_iff, or_iff_left hcount, ← mul_left_inj' hspread, zero_mul, hdiff,
    sub_eq_zero]

theorem residuals_perm {points' : List (K × K)} (h : points.Perm points') (k c : K) :
    residuals points k c = residuals points' k c :=
  (h.map _).sum_eq

end

section
variable {K : Type*} [Field K] [LinearOrder K] {points : List (K × K)} {k c : K}

/-- No line has a smaller residual. -/
def Minimises (points : List (K × K)) (k c : K) : Prop :=
  ∀ k' c', residuals points k c ≤ residuals points k' c'

theorem Minimises.perm {points' : List (K × K)} (h : Minimises points k c)
    (hperm : points.Perm points') : Minimises points' k c := by
  intro k' c'
  rw [← residuals_perm hperm, ← residuals_perm hperm]
  exact h k' c'

variable [IsStrictOrderedRing K]

theorem residuals_nonneg (k c : K) : 0 ≤ residuals points k c := by
  refine List.sum_nonneg fun x hx => ?_
  obtain ⟨p, -, rfl⟩ := List.mem_map.mp hx
  exact mul_self_nonneg _

/-- The residual is zero exactly if every point is on the line. -/
theorem residuals_eq_zero_iff : residuals points k c = 0 ↔ ∀ p ∈ points, p.2 = k * p.1 + c := by
  induction points with
  | nil => simp [residuals]
  | cons p points ih =>
    have hcons : residuals (p :: points) k c =
        (p.2 - (k * p.1 + c)) * (p.2 - (k * p.1 + c)) + residuals points k c := by
      rw [residuals, List.map_cons, List.sum_cons]
      rfl
    rw [hcons, add_eq_zero_iff_of_nonneg (mul_self_nonneg _) (residuals_nonneg k c),
      mul_self_eq_zero, sub_eq_zero, ih, List.forall_mem_cons]

theorem count_pos (h : points ≠ []) : 0 < count points := by
  have hlen : 0 < points.length := List.length_pos_of_ne_nil h
  unfold count
  exact_mod_cast hlen

/-- The spread is the residual of the first coordinates from their mean. -/
theorem spread_nonneg (h : points ≠ []) : 0 ≤ spread points := by
  have hcount := count_pos h
  have hnonneg : 0 ≤ residuals (points.map fun p => (p.2, p.1)) 0 (sumX points / count points) :=
    residuals_nonneg _ _
  have hswap : residuals (points.map fun p => (p.2, p.1)) 0 (sumX points / count points) =
      spread points := by
    have hyy : sumYY (points.map fun p => (p.2, p.1)) = sumXX points := by
      simp [sumYY, sumXX, Function.comp_def]
    have hy : sumY (points.map fun p => (p.2, p.1)) = sumX points := by
      simp [sumY, sumX, Function.comp_def]
    have hn : count (points.map fun p => (p.2, p.1)) = count points := by simp [count]
    rw [residuals_eq, hyy, hy, hn, spread]
    field_simp
    ring
  rwa [hswap] at hnonneg

theorem minimises_line (h : points ≠ []) (hspread : spread points ≠ 0) :
    Minimises points (slopeOf points) (interceptOf points) := by
  have hcount := count_pos h
  intro k' c'
  rw [residuals_split hcount.ne' hspread k' c', add_assoc]
  exact le_add_of_nonneg_right (add_nonneg (mul_nonneg (spread_nonneg h) (mul_self_nonneg _))
    (mul_nonneg hcount.le (mul_self_nonneg _)))

theorem eq_zero_of_add_add_le {r a b : K} (h : r + a + b ≤ r) (ha : 0 ≤ a) (hb : 0 ≤ b) :
    a = 0 ∧ b = 0 := by
  constructor <;> linarith

/-- The line of least squares is the only one. -/
theorem minimises_iff (h : points ≠ []) (hspread : spread points ≠ 0) :
    Minimises points k c ↔ k = slopeOf points ∧ c = interceptOf points := by
  constructor
  · intro hmin
    have hcount := count_pos h
    have hle := hmin (slopeOf points) (interceptOf points)
    rw [residuals_split hcount.ne' hspread k c] at hle
    obtain ⟨hk, hc⟩ := eq_zero_of_add_add_le hle
      (mul_nonneg (spread_nonneg h) (mul_self_nonneg _)) (mul_nonneg hcount.le (mul_self_nonneg _))
    have hslope : k - slopeOf points = 0 := by
      rcases mul_eq_zero.mp hk with hzero | hzero
      · exact absurd hzero hspread
      · exact mul_self_eq_zero.mp hzero
    have hheight :
        c - interceptOf points + (k - slopeOf points) * sumX points / count points = 0 := by
      rcases mul_eq_zero.mp hc with hzero | hzero
      · exact absurd hzero hcount.ne'
      · exact mul_self_eq_zero.mp hzero
    rw [hslope, zero_mul, zero_div, add_zero] at hheight
    exact ⟨sub_eq_zero.mp hslope, sub_eq_zero.mp hheight⟩
  · rintro ⟨rfl, rfl⟩
    exact minimises_line h hspread

/-- A line through all points is that of least squares. -/
theorem minimises_of_line (h : ∀ p ∈ points, p.2 = k * p.1 + c) : Minimises points k c := by
  intro k' c'
  rw [residuals_eq_zero_iff.mpr h]
  exact residuals_nonneg k' c'

end
end LeastSquares
