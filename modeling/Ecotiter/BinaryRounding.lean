import Mathlib.Data.Int.Log
import Mathlib.Data.Rat.Floor
import Mathlib.Tactic.Linarith
import Mathlib.Tactic.FieldSimp
import Mathlib.Algebra.Order.Field.Power

/-!
# Rounding to a binary floating-point format

Rational numbers are rounded to the nearest number with a given number of significant bits and a
least spacing, halves to even. There is no largest number.
-/

/-- The format of a binary floating-point number: its significant bits and the exponent of the
spacing around zero. -/
structure BinaryFormat where
  precision : ℕ
  minExponent : ℤ

namespace BinaryFormat

/-- The nearest integer, halves to even. -/
def nearestEven (x : ℚ) : ℤ :=
  if x - ⌊x⌋ < 1 / 2 then ⌊x⌋
  else if 1 / 2 < x - ⌊x⌋ then ⌊x⌋ + 1
  else ⌊x⌋ + ⌊x⌋ % 2

/-- The distance between the numbers of the format around `x`. -/
def spacing (f : BinaryFormat) (x : ℚ) : ℚ :=
  2 ^ max (Int.log 2 |x| + 1 - f.precision) f.minExponent

def round (f : BinaryFormat) (x : ℚ) : ℚ := nearestEven (x / f.spacing x) * f.spacing x

theorem nearestEven_intCast (k : ℤ) : nearestEven k = k := by
  have hzero : (k : ℚ) - ⌊(k : ℚ)⌋ = 0 := by
    rw [Int.floor_intCast, sub_self]
  rw [nearestEven, hzero, if_pos (by norm_num), Int.floor_intCast]

theorem nearestEven_error (x : ℚ) : |(nearestEven x : ℚ) - x| ≤ 1 / 2 := by
  have hlow := Int.floor_le x
  have hhigh := Int.lt_floor_add_one x
  have hparity : (0 : ℤ) ≤ ⌊x⌋ % 2 ∧ ⌊x⌋ % 2 ≤ 1 := by omega
  have hnonneg : (0 : ℚ) ≤ ((⌊x⌋ % 2 : ℤ) : ℚ) := by exact_mod_cast hparity.1
  have hle : ((⌊x⌋ % 2 : ℤ) : ℚ) ≤ 1 := by exact_mod_cast hparity.2
  unfold nearestEven
  rw [abs_le]
  by_cases hbelow : x - ⌊x⌋ < 1 / 2
  · rw [if_pos hbelow]
    constructor <;> linarith
  · by_cases habove : 1 / 2 < x - ⌊x⌋
    · rw [if_neg hbelow, if_pos habove]
      push_cast
      constructor <;> linarith
    · rw [if_neg hbelow, if_neg habove]
      push_cast
      constructor <;> linarith

variable (f : BinaryFormat)

theorem spacing_pos (x : ℚ) : 0 < f.spacing x := zpow_pos (by norm_num) _

theorem round_error (x : ℚ) : |f.round x - x| ≤ f.spacing x / 2 := by
  have hpos := f.spacing_pos x
  have hscale : f.round x - x = (nearestEven (x / f.spacing x) - x / f.spacing x) * f.spacing x := by
    rw [sub_mul, div_mul_cancel₀ _ hpos.ne']
    rfl
  calc |f.round x - x|
      = |(nearestEven (x / f.spacing x) : ℚ) - x / f.spacing x| * f.spacing x := by
        rw [hscale, abs_mul, abs_of_pos hpos]
    _ ≤ 1 / 2 * f.spacing x := by
        have herror := nearestEven_error (x / f.spacing x)
        exact mul_le_mul_of_nonneg_right herror hpos.le
    _ = f.spacing x / 2 := by ring

variable {f}

/-- Small integers are numbers of the format. -/
theorem round_natCast {n : ℕ} (hn : n < 2 ^ f.precision) (hmin : f.minExponent ≤ 0) :
    f.round n = n := by
  by_cases h0 : n = 0
  · have hzero : nearestEven 0 = 0 := nearestEven_intCast 0
    rw [h0, round, Nat.cast_zero, zero_div, hzero, Int.cast_zero, zero_mul]
  have hlog : Nat.log 2 n < f.precision := Nat.log_lt_of_lt_pow h0 hn
  have hexp : max (Int.log 2 |(n : ℚ)| + 1 - f.precision) f.minExponent ≤ 0 := by
    rw [Nat.abs_cast, Int.log_natCast]
    omega
  obtain ⟨k, hk⟩ := Int.eq_ofNat_of_zero_le (Int.neg_nonneg.mpr hexp)
  have hspacing : f.spacing n = (2 ^ k)⁻¹ := by
    have hneg : max (Int.log 2 |(n : ℚ)| + 1 - f.precision) f.minExponent = -(k : ℤ) := by omega
    rw [spacing, hneg, zpow_neg, zpow_natCast]
  have hint : (n : ℚ) / f.spacing n = ((n * 2 ^ k : ℕ) : ℤ) := by
    rw [hspacing, div_inv_eq_mul]
    push_cast
    rfl
  rw [round, hint, nearestEven_intCast, ← hint, div_mul_cancel₀ _ (f.spacing_pos _).ne']

/-- A multiple of a power of two is a number of the format if its significant part is small. -/
theorem round_dyadic {z e : ℤ} (hz : |z| < 2 ^ f.precision) (hmin : f.minExponent ≤ e) :
    f.round (z * 2 ^ e) = z * 2 ^ e := by
  have hzero : f.round 0 = 0 := by
    have hnearest : nearestEven 0 = 0 := nearestEven_intCast 0
    rw [round, zero_div, hnearest, Int.cast_zero, zero_mul]
  by_cases h0 : z = 0
  · rw [h0, Int.cast_zero, zero_mul, hzero]
  have hpos : (0 : ℚ) < |(z : ℚ) * 2 ^ e| := by positivity
  have hlog : Int.log 2 |(z : ℚ) * 2 ^ e| < f.precision + e := by
    rw [← Int.lt_zpow_iff_log_lt (by norm_num) hpos, abs_mul, abs_of_pos (by positivity : (0 : ℚ) < 2 ^ e),
      Nat.cast_ofNat, zpow_add₀ (by norm_num), zpow_natCast]
    have hcast : |(z : ℚ)| < 2 ^ f.precision := by exact_mod_cast hz
    exact mul_lt_mul_of_pos_right hcast (by positivity)
  have hexp : max (Int.log 2 |(z : ℚ) * 2 ^ e| + 1 - f.precision) f.minExponent ≤ e := by omega
  obtain ⟨k, hk⟩ := Int.le.dest hexp
  have hint : (z : ℚ) * 2 ^ e / f.spacing (z * 2 ^ e) = ((z * 2 ^ k : ℤ) : ℚ) := by
    rw [spacing, div_eq_iff (by positivity)]
    push_cast
    rw [mul_assoc, ← zpow_natCast, ← zpow_add₀ (by norm_num), add_comm (k : ℤ), hk]
  rw [round, hint, nearestEven_intCast, ← hint, div_mul_cancel₀ _ (f.spacing_pos _).ne']

/-- The spacing is small against the number, away from zero. -/
theorem spacing_le (x : ℚ) :
    f.spacing x ≤ |x| * 2 ^ (1 - (f.precision : ℤ)) + 2 ^ max (1 - (f.precision : ℤ)) f.minExponent := by
  have htwo : (1 : ℚ) ≤ 2 := by norm_num
  have hpos : (0 : ℚ) < 2 ^ (1 - (f.precision : ℤ)) := zpow_pos (by norm_num) _
  by_cases h0 : x = 0
  · have hlog : Int.log 2 |(0 : ℚ)| = 0 := by
      rw [abs_zero, Int.log_zero_right]
    rw [h0, spacing, hlog, abs_zero, zero_mul, zero_add, zero_add]
  · have hlog := Int.zpow_log_le_self (b := 2) (by norm_num) (abs_pos.mpr h0)
    rw [Nat.cast_ofNat] at hlog
    rw [spacing]
    rcases le_total f.minExponent (Int.log 2 |x| + 1 - f.precision) with hle | hle
    · rw [max_eq_left hle]
      have hsplit : (2 : ℚ) ^ (Int.log 2 |x| + 1 - (f.precision : ℤ)) =
          2 ^ Int.log 2 |x| * 2 ^ (1 - (f.precision : ℤ)) := by
        rw [← zpow_add₀ (by norm_num), add_sub_assoc]
      rw [hsplit]
      have hmul := mul_le_mul_of_nonneg_right hlog hpos.le
      have hrest : (0 : ℚ) < 2 ^ max (1 - (f.precision : ℤ)) f.minExponent := zpow_pos (by norm_num) _
      linarith
    · rw [max_eq_right hle]
      have hmono : (2 : ℚ) ^ f.minExponent ≤ 2 ^ max (1 - (f.precision : ℤ)) f.minExponent :=
        zpow_le_zpow_right₀ htwo (le_max_right _ _)
      have hrest : 0 ≤ |x| * 2 ^ (1 - (f.precision : ℤ)) := mul_nonneg (abs_nonneg x) hpos.le
      linarith

end BinaryFormat
