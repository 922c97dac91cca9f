import Ecotiter.Calibration
import Ecotiter.LeastSquares

/-!
# The regression of the speed calibration

`calculateSpeedCalibration` computes the slope of the line of least squares, which has an intercept.
Its coefficient of determination is that of the line through the origin with the same slope.
-/

namespace Ecotiter
open LeastSquares

section
variable {points : List (ℚ × ℚ)}

theorem ne_nil_of_two (h : 2 ≤ points.length) : points ≠ [] := by
  rintro rfl
  exact absurd h (by decide)

theorem spread_ne_zero (h : 1 / 1000000 ≤ |spread points|) : spread points ≠ 0 := by
  intro hzero
  rw [hzero, abs_zero] at h
  linarith

/-- The result in terms of the line of least squares. -/
theorem calculateSpeedCalibration_eq (h2 : 2 ≤ points.length)
    (hspread : 1 / 1000000 ≤ |spread points|) :
    calculateSpeedCalibration points = ⟨slopeOf points,
      if 1 / 1000000 < total points then 1 - residuals points (slopeOf points) 0 / total points
      else 0⟩ := by
  have hdenom : ¬ (-(1 / 1000000) < spread points ∧ spread points < 1 / 1000000) := by
    rw [← abs_lt]
    exact not_lt.mpr hspread
  have hres : residuals points (slopeOf points) 0 = (points.map fun p =>
      (p.2 - slopeOf points * p.1) * (p.2 - slopeOf points * p.1)).sum := by
    simp only [residuals, add_zero]
  have htotal : total points = (points.map fun p =>
      (p.2 - sumY points / count points) * (p.2 - sumY points / count points)).sum := by
    simp only [total, residuals, zero_mul, zero_add]
  rw [hres, htotal]
  unfold calculateSpeedCalibration
  rw [if_neg (not_lt.mpr h2)]
  exact if_neg hdenom

/-- The slope returned is that of every line with the least sum of squared residuals. It is exact
for points on a line and does not depend on their order. -/
theorem speedCalibration_leastSquares (h2 : 2 ≤ points.length)
    (hspread : 1 / 1000000 ≤ |spread points|) :
    (∃ c, Minimises points (calculateSpeedCalibration points).k c) ∧
      (∀ k c, Minimises points k c → k = (calculateSpeedCalibration points).k) ∧
      (∀ m c, (∀ p ∈ points, p.2 = m * p.1 + c) → (calculateSpeedCalibration points).k = m) ∧
      ∀ points', points.Perm points' →
        (calculateSpeedCalibration points').k = (calculateSpeedCalibration points).k := by
  have hne := ne_nil_of_two h2
  have hzero := spread_ne_zero hspread
  have hk : (calculateSpeedCalibration points).k = slopeOf points :=
    congrArg SpeedCalResult.k (calculateSpeedCalibration_eq h2 hspread)
  rw [hk]
  refine ⟨⟨_, minimises_line hne hzero⟩, fun k c hmin => ((minimises_iff hne hzero).mp hmin).1,
    fun m c hline => ?_, fun points' hperm => ?_⟩
  · exact ((minimises_iff hne hzero).mp (minimises_of_line hline)).1.symm
  · have hspread' : spread points' = spread points := by
      unfold spread sumXX sumX count
      rw [(hperm.map _).sum_eq, (hperm.map _).sum_eq, hperm.length_eq]
    have h2' : 2 ≤ points'.length := hperm.length_eq ▸ h2
    rw [calculateSpeedCalibration_eq h2' (hspread' ▸ hspread)]
    have hmin := (minimises_line hne hzero).perm hperm
    exact ((minimises_iff (ne_nil_of_two h2') (hspread' ▸ hzero)).mp hmin).1.symm

theorem speedCalibration_leastSquares_three :
    ∃ c, Minimises [(50, 2), (100, 41 / 10), (150, 59 / 10)]
      (calculateSpeedCalibration [(50, 2), (100, 41 / 10), (150, 59 / 10)]).k c :=
  (speedCalibration_leastSquares (by decide) (by decide +kernel)).1

/-- What a coefficient of determination satisfies. -/
structure Determines (points : List (ℚ × ℚ)) (k r : ℚ) : Prop where
  nonneg : 0 ≤ r
  le_one : r ≤ 1
  perfect : r = 1 ↔ ∃ m c, ∀ p ∈ points, p.2 = m * p.1 + c
  fitted : ∀ c, Minimises points k c → r = 1 - residuals points k c / total points

/-- The share of the line of least squares is a coefficient of determination. -/
theorem determines_line (hne : points ≠ []) (hspread : spread points ≠ 0)
    (htotal : 0 < total points) : Determines points (slopeOf points)
      (1 - residuals points (slopeOf points) (interceptOf points) / total points) where
  nonneg := by
    have hmin := minimises_line hne hspread 0 (sumY points / count points)
    have hle : residuals points (slopeOf points) (interceptOf points) / total points ≤ 1 :=
      (div_le_one htotal).mpr hmin
    linarith
  le_one := by
    have hnonneg : 0 ≤ residuals points (slopeOf points) (interceptOf points) / total points :=
      div_nonneg (residuals_nonneg _ _) htotal.le
    linarith
  perfect := by
    rw [sub_eq_self, div_eq_zero_iff, or_iff_left htotal.ne']
    constructor
    · intro hzero
      exact ⟨_, _, residuals_eq_zero_iff.mp hzero⟩
    · rintro ⟨m, c, hline⟩
      have hmin := minimises_line hne hspread m c
      rw [residuals_eq_zero_iff.mpr hline] at hmin
      exact le_antisymm hmin (residuals_nonneg _ _)
  fitted c hmin := by
    rw [((minimises_iff hne hspread).mp hmin).2]

/-- The coefficient returned is the one of the line of least squares exactly if that line goes
through the origin. -/
theorem rSquared_determines_iff (h2 : 2 ≤ points.length)
    (hspread : 1 / 1000000 ≤ |spread points|) (htotal : 1 / 1000000 < total points) :
    Determines points (calculateSpeedCalibration points).k
        (calculateSpeedCalibration points).rSquared ↔
      sumY points * sumXX points = sumX points * sumXY points := by
  have hne := ne_nil_of_two h2
  have hzero := spread_ne_zero hspread
  have hcount := count_pos hne
  have hpos : 0 < total points := by linarith
  rw [calculateSpeedCalibration_eq h2 hspread, if_pos htotal,
    ← interceptOf_eq_zero_iff hcount.ne' hzero]
  constructor
  · intro h
    have hfitted := h.fitted _ (minimises_line hne hzero)
    dsimp only at hfitted
    rw [residuals_origin hcount.ne' hzero, sub_right_inj, div_left_inj' hpos.ne',
      add_eq_left] at hfitted
    rcases mul_eq_zero.mp hfitted with hn | hsquare
    · exact absurd hn hcount.ne'
    · exact mul_self_eq_zero.mp hsquare
  · intro h
    have hline := determines_line hne hzero hpos
    rwa [h] at hline

theorem rSquared_determines_origin :
    Determines [(100, 1), (200, 2)] (calculateSpeedCalibration [(100, 1), (200, 2)]).k
        (calculateSpeedCalibration [(100, 1), (200, 2)]).rSquared ↔
      sumY [(100, (1 : ℚ)), (200, 2)] * sumXX [(100, 1), (200, 2)] =
        sumX [(100, 1), (200, 2)] * sumXY [(100, 1), (200, 2)] :=
  rSquared_determines_iff (by decide) (by decide +kernel) (by decide +kernel)

/-- Two points on a line with an intercept: the coefficient returned is -3. -/
theorem rSquared_intercept :
    ¬ ∀ points : List (ℚ × ℚ), 2 ≤ points.length → 1 / 1000000 ≤ |spread points| →
      1 / 1000000 < total points → Determines points (calculateSpeedCalibration points).k
        (calculateSpeedCalibration points).rSquared := by
  intro h
  have hdetermines := h [(100, 2), (200, 3)] (by decide) (by decide +kernel) (by decide +kernel)
  have hnonneg := hdetermines.nonneg
  have hvalue : (calculateSpeedCalibration [(100, 2), (200, 3)]).rSquared = -3 := by decide +kernel
  rw [hvalue] at hnonneg
  linarith

end
end Ecotiter
