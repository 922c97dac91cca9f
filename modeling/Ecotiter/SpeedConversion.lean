import Mathlib.Data.Rat.Floor
import Mathlib.Tactic.Ring
import Ecotiter.IntegerRounding
import Ecotiter.MotorCalibration

/-!
# The frequency of a speed

`speedMlMinToHz` converts the quotient to `uint32_t` before it compares it with the limits. Where
the quotient is in the range of the type this is the nearest frequency within the limits.
-/

namespace Ecotiter
open IntegerRounding

/-- The quotient rounded to a nearest integer and brought between the limits. -/
def nearestFrequency (speedMlMin : ℚ) (cal : CalibrationData) : ℤ :=
  max cal.minFreqHz (min cal.maxFreqHz ⌊speedMlMin / cal.speedCoeff + 1 / 2⌋)

/-- The quotient is in the range of `uint32_t` or nothing depends on it. Outside the range its
residue is on the right side of the limits only by accident. -/
def QuotientFits (speedMlMin : ℚ) (cal : CalibrationData) : Prop :=
  let x := speedMlMin / cal.speedCoeff + 1 / 2
  (-1 < x ∧ x < 2 ^ 32) ∨ cal.minFreqHz = cal.maxFreqHz ∨
    x ≤ -1 ∧ truncate x % 2 ^ 32 ≤ cal.minFreqHz ∨
    2 ^ 32 ≤ x ∧ cal.maxFreqHz ≤ truncate x % 2 ^ 32

theorem toU32_cast (x : ℚ) : (toU32 x : ℤ) = truncate x % 2 ^ 32 :=
  Int.toNat_of_nonneg (Int.emod_nonneg _ (by norm_num))

section
variable {cal : CalibrationData} {s : ℚ}

/-- In its range the conversion is the integer part, and zero for a negative fraction. -/
theorem toU32_inRange {x : ℚ} (hlow : -1 < x) (hhigh : x < 2 ^ 32) : (toU32 x : ℤ) = max 0 ⌊x⌋ := by
  have hfloor : ⌊x⌋ < 2 ^ 32 := Int.floor_lt.mpr (by exact_mod_cast hhigh)
  rw [toU32_cast]
  by_cases hx : 0 ≤ x
  · have hnonneg := Int.floor_nonneg.mpr hx
    rw [truncate_of_nonneg hx]
    omega
  · have hceil : ⌈x⌉ = 0 := by
      rw [Int.ceil_eq_iff]
      push_cast
      constructor <;> linarith
    have hneg : ⌊x⌋ < 0 := Int.floor_lt.mpr (by exact_mod_cast not_le.mp hx)
    rw [truncate_of_neg (not_le.mp hx), hceil]
    omega

theorem speedMlMinToHz_cast (hk : 1 / 1000000 ≤ cal.speedCoeff) :
    (speedMlMinToHz s cal : ℤ) =
      min (cal.maxFreqHz : ℤ) (max cal.minFreqHz (toU32 (s / cal.speedCoeff + 1 / 2))) := by
  rw [speedMlMinToHz_eq hk]
  push_cast
  rfl

/-- The conversion gives the nearest frequency exactly where the quotient fits. -/
theorem speedMlMinToHz_eq_nearest_iff (hk : 1 / 1000000 ≤ cal.speedCoeff)
    (hlimits : cal.minFreqHz ≤ cal.maxFreqHz) (hmax : cal.maxFreqHz < 2 ^ 16) :
    (speedMlMinToHz s cal : ℤ) = nearestFrequency s cal ↔ QuotientFits s cal := by
  unfold nearestFrequency QuotientFits
  rw [speedMlMinToHz_cast hk]
  generalize s / cal.speedCoeff + 1 / 2 = x
  dsimp only
  by_cases hrange : -1 < x ∧ x < 2 ^ 32
  · rw [toU32_inRange hrange.1 hrange.2]
    refine iff_of_true ?_ (.inl hrange)
    omega
  · rw [← toU32_cast]
    by_cases hlow : x ≤ -1
    · have hfloor : ⌊x⌋ < 0 := Int.floor_lt.mpr (by push_cast; linarith)
      have hhigh : ¬ 2 ^ 32 ≤ x := by
        rw [not_le]
        linarith
      simp only [hrange, hlow, hhigh, true_and, false_and, false_or, or_false]
      omega
    · have hhigh : 2 ^ 32 ≤ x := not_lt.mp fun h => hrange ⟨not_le.mp hlow, h⟩
      have hfloor : 2 ^ 32 ≤ ⌊x⌋ := Int.le_floor.mpr (by exact_mod_cast hhigh)
      simp only [hrange, hlow, hhigh, true_and, false_and, false_or]
      omega

theorem nearestFrequency_mono {s' : ℚ} (hk : 1 / 1000000 ≤ cal.speedCoeff) (h : s ≤ s') :
    nearestFrequency s cal ≤ nearestFrequency s' cal := by
  have hpos : 0 < cal.speedCoeff := by linarith
  have hquot : s / cal.speedCoeff + 1 / 2 ≤ s' / cal.speedCoeff + 1 / 2 :=
    add_le_add_left (div_le_div_of_nonneg_right h hpos.le) _
  exact max_le_max_left _ (min_le_min_left _ (Int.floor_mono hquot))

/-- Between the limits the frequency is off by at most half a coefficient. -/
theorem nearestFrequency_error (hk : 1 / 1000000 ≤ cal.speedCoeff)
    (hmin : cal.minFreqHz ≤ ⌊s / cal.speedCoeff + 1 / 2⌋)
    (hmax : ⌊s / cal.speedCoeff + 1 / 2⌋ ≤ cal.maxFreqHz) :
    |nearestFrequency s cal * cal.speedCoeff - s| ≤ cal.speedCoeff / 2 := by
  have hpos : 0 < cal.speedCoeff := by linarith
  have hround : nearestFrequency s cal = round (s / cal.speedCoeff) := by
    rw [nearestFrequency, round_eq]
    omega
  have herror := abs_sub_round (s / cal.speedCoeff)
  have hscaled : (round (s / cal.speedCoeff) : ℚ) * cal.speedCoeff - s =
      -(s / cal.speedCoeff - round (s / cal.speedCoeff)) * cal.speedCoeff := by
    have hs : s = s / cal.speedCoeff * cal.speedCoeff := (div_mul_cancel₀ s hpos.ne').symm
    linarith
  rw [hround, hscaled, abs_mul, abs_neg, abs_of_pos hpos]
  calc |s / cal.speedCoeff - round (s / cal.speedCoeff)| * cal.speedCoeff
      ≤ 1 / 2 * cal.speedCoeff := mul_le_mul_of_nonneg_right herror hpos.le
    _ = cal.speedCoeff / 2 := by ring

/-- The conversion gives the nearest frequency exactly where the quotient fits. It keeps to the
limits everywhere, does not decrease where the quotients fit, and is accurate between the limits. -/
theorem speedMlMinToHz_nearest (cal : CalibrationData) (hk : 1 / 1000000 ≤ cal.speedCoeff)
    (hlimits : cal.minFreqHz ≤ cal.maxFreqHz) (hmax : cal.maxFreqHz < 2 ^ 16) :
    (∀ s, (speedMlMinToHz s cal : ℤ) = nearestFrequency s cal ↔ QuotientFits s cal) ∧
      (∀ s, cal.minFreqHz ≤ speedMlMinToHz s cal ∧ speedMlMinToHz s cal ≤ cal.maxFreqHz) ∧
      (∀ s s', QuotientFits s cal → QuotientFits s' cal → s ≤ s' →
        speedMlMinToHz s cal ≤ speedMlMinToHz s' cal) ∧
      ∀ s, cal.minFreqHz ≤ ⌊s / cal.speedCoeff + 1 / 2⌋ →
        ⌊s / cal.speedCoeff + 1 / 2⌋ ≤ cal.maxFreqHz →
        |speedMlMinToHz s cal * cal.speedCoeff - s| ≤ cal.speedCoeff / 2 := by
  have heq := fun s => speedMlMinToHz_eq_nearest_iff (s := s) hk hlimits hmax
  refine ⟨heq, fun s => ?_, fun s s' hs hs' hle => ?_, fun s hlow hhigh => ?_⟩
  · rw [speedMlMinToHz_eq hk]
    omega
  · have hmono := nearestFrequency_mono hk hle
    rw [← (heq s).mpr hs, ← (heq s').mpr hs'] at hmono
    exact_mod_cast hmono
  · have hfits : QuotientFits s cal := by
      have hfloor := Int.floor_le (s / cal.speedCoeff + 1 / 2)
      have hlt := Int.lt_floor_add_one (s / cal.speedCoeff + 1 / 2)
      have hnonneg : (0 : ℚ) ≤ ⌊s / cal.speedCoeff + 1 / 2⌋ := by
        exact_mod_cast (Int.natCast_nonneg _).trans hlow
      have hsmall : (⌊s / cal.speedCoeff + 1 / 2⌋ : ℚ) + 1 ≤ 2 ^ 16 := by
        have hint : ⌊s / cal.speedCoeff + 1 / 2⌋ + 1 ≤ 2 ^ 16 := by omega
        exact_mod_cast hint
      refine Or.inl ⟨?_, ?_⟩ <;> linarith
    have herror := nearestFrequency_error hk hlow hhigh
    rw [← (heq s).mpr hfits] at herror
    exact_mod_cast herror

theorem speedMlMinToHz_nearest_default :
    CalibrationData.default.minFreqHz ≤ speedMlMinToHz 10 .default ∧
      |speedMlMinToHz 10 .default * CalibrationData.default.speedCoeff - 10| ≤
        CalibrationData.default.speedCoeff / 2 := by
  have h := speedMlMinToHz_nearest .default CalibrationData.default_speedCoeff_le (by decide)
    (by decide)
  have hround : ⌊10 / CalibrationData.default.speedCoeff + 1 / 2⌋ = 328 := by
    norm_num [CalibrationData.default_speedCoeff, Int.floor_eq_iff]
  refine ⟨(h.2.1 10).1, h.2.2.2 10 ?_ ?_⟩
  · rw [hround]
    decide
  · rw [hround]
    decide

/-- A speed of -1 ml/min is converted to the highest frequency, not the lowest. -/
theorem speedMlMinToHz_negative :
    ¬ ∀ (s : ℚ) (cal : CalibrationData), 1 / 1000000 ≤ cal.speedCoeff →
      cal.minFreqHz ≤ cal.maxFreqHz → cal.maxFreqHz < 2 ^ 16 →
      (speedMlMinToHz s cal : ℤ) = nearestFrequency s cal := by
  intro h
  have heq := h (-1) .default CalibrationData.default_speedCoeff_le (by decide) (by decide)
  have hvalues : speedMlMinToHz (-1) .default = 3000 ∧ nearestFrequency (-1) .default = 30 := by
    decide +kernel
  rw [hvalues.1, hvalues.2] at heq
  omega

end
end Ecotiter
