import Mathlib.Data.Rat.Floor
import Mathlib.Tactic.Linarith
import Mathlib.Tactic.NormNum
import Mathlib.Tactic.Ring
import Ecotiter.AdcCalibration

/-!
# The calibrated voltage

The calibration turns a raw value into millivolts in two places: `calibratedFromRaw` of
`drivers/adc.cpp` with integers, `handleAdcCalGet` of `handlers/sensors.cpp` with a `float`, which
is exact here.
-/

namespace Ecotiter
open Interleaving

/-- Conversion of an integer to `int16_t`. -/
def toI16 (x : ℤ) : Int16 := Int16.ofInt x

/-- `calibratedFromRaw`. The product is an `int32_t`. -/
def AdcMem.calibratedFromRaw (m : AdcMem) (raw : ℕ) : Int16 :=
  let a : ℤ := m.coeffAX1000.toNat
  let b := m.coeffB.toInt
  let result := (toI32 (a * raw)).tdiv 1000 + b
  toI16 (if result < -32768 then -32768 else if 32767 < result then 32767 else result)

/-- What `adc.cal.get` reports. -/
structure AdcCalReport where
  a : ℚ
  b : Int16
  isDefault : Bool
  points : List (ℚ × ℕ)
  rawMv : ℕ
  calibratedMv : Int16
  deriving DecidableEq

/-- The points collected so far. -/
def AdcMem.collected (m : AdcMem) : List AdcCalPoint :=
  (m.points.take m.pointCount).filter (·.collected)

namespace Sensors

def handleAdcCalGet (m : AdcMem) : AdcCalReport :=
  let aX1000 := m.adcCalibrationRead.1
  let b := m.adcCalibrationRead.2
  let aVal : ℚ := if 0 < aX1000 then aX1000.toNat / 1000 else 1
  let rawMv := (m.collected.head?.map AdcCalPoint.rawMv).getD 0
  { a := aVal
    b := b
    isDefault := aX1000 = 1000 ∧ b = 0
    points := m.collected.map fun p => (p.refMv, p.rawMv)
    rawMv := rawMv
    calibratedMv := if 0 < rawMv then toI16 (lround (rawMv * aVal + b.toInt)) else 0 }

end Sensors
open Sensors

/-- The pair that was saved last is the one in use. -/
structure AdcMem.Saved (m : AdcMem) (aX1000 : UInt16) (b : Int16) : Prop where
  stored : m.adcCalibrationRead = (aX1000, b)
  inUse : m.coeffAX1000 = aX1000 ∧ m.coeffB = b

/-- A save that succeeds leaves its pair saved. -/
theorem saved_adcCalibrationWrite {m : AdcMem} {aX1000 : UInt16} {b : Int16} {n : ℕ} :
    (adcCalibrationWrite aX1000 b).Post (adcFailingAt n) ()
      (fun ok m' => ok = true → m'.Saved aX1000 b) m := by
  rw [post_adcCalibrationWrite]
  split
  · exact fun h => absurd h Bool.false_ne_true
  · split
    · exact fun h => absurd h Bool.false_ne_true
    · refine fun _ => ⟨?_, rfl, rfl⟩
      simp [AdcMem.adcCalibrationRead]

/-- The whole millivolts of the product, which the driver truncates it to, and the thousandths. -/
def wholeMv (aX1000 : UInt16) (raw : ℕ) : ℕ := aX1000.toNat * raw / 1000

def thousandths (aX1000 : UInt16) (raw : ℕ) : ℕ := aX1000.toNat * raw % 1000

/-- The two conversions agree: the slope is not zero, and the thousandths are rounded down below the
upper limit; beyond it, the rounded value has the limit as its residue by accident. -/
def ReadoutsAgree (aX1000 : UInt16) (b : Int16) (raw : ℕ) : Prop :=
  let mv : ℤ := wholeMv aX1000 raw + b.toInt
  let rest := thousandths aX1000 raw
  aX1000 ≠ 0 ∧
    ((mv ≤ 32767 ∧ (rest < 500 ∨ rest = 500 ∧ mv < 0)) ∨
      32767 < mv ∧ (mv + if 500 ≤ rest then 1 else 0) % 65536 = 32767)

section
variable {m : AdcMem} {aX1000 : UInt16} {b : Int16} {raw : ℕ}

theorem calibratedFromRaw_toInt (hsaved : m.Saved aX1000 b) (hraw : raw ≤ 4095) :
    (m.calibratedFromRaw raw).toInt = min 32767 (wholeMv aX1000 raw + b.toInt) := by
  have hlow := b.le_toInt
  have hhigh := b.toInt_lt
  have ha := aX1000.toNat_lt
  have hproduct : aX1000.toNat * raw ≤ 65535 * 4095 := Nat.mul_le_mul (by omega) hraw
  have hint : toI32 ((aX1000.toNat : ℤ) * raw) = ((aX1000.toNat * raw : ℕ) : ℤ) := by
    rw [toI32, ← Nat.cast_mul]
    exact Int.bmod_eq_of_le_mul_two (by omega) (by omega)
  have hdiv : (((aX1000.toNat * raw : ℕ) : ℤ)).tdiv 1000 = (wholeMv aX1000 raw : ℤ) := by
    rw [wholeMv]
    exact (Int.ofNat_tdiv _ 1000).symm
  unfold AdcMem.calibratedFromRaw toI16
  rw [hsaved.inUse.1, hsaved.inUse.2]
  dsimp only
  rw [hint, hdiv]
  have hge : -32768 ≤ (wholeMv aX1000 raw : ℤ) + b.toInt := by omega
  rw [if_neg (not_lt.mpr hge)]
  by_cases hover : 32767 < (wholeMv aX1000 raw : ℤ) + b.toInt
  · rw [if_pos hover, min_eq_left hover.le]
    rfl
  · rw [if_neg hover, min_eq_right (not_lt.mp hover)]
    exact Int16.toInt_ofInt_of_le (by omega) (by omega)

/-- Rounding a whole number and thousandths, halves away from zero. -/
theorem lround_thousandths {mv : ℤ} {rest : ℕ} (hrest : rest < 1000) :
    lround ((mv : ℚ) + rest / 1000) =
      mv + if rest < 500 ∨ rest = 500 ∧ mv < 0 then 0 else 1 := by
  have hnonneg : (0 : ℚ) ≤ rest := Nat.cast_nonneg rest
  have hless : (rest : ℚ) < 1000 := by exact_mod_cast hrest
  by_cases hmv : 0 ≤ mv
  · have hcast : (0 : ℚ) ≤ mv := by exact_mod_cast hmv
    rw [lround, if_pos (by linarith)]
    change ⌊(mv : ℚ) + rest / 1000 + 1 / 2⌋ = _
    by_cases hhalf : rest < 500
    · have hlt : (rest : ℚ) < 500 := by exact_mod_cast hhalf
      rw [if_pos (.inl hhalf), Int.floor_eq_iff]
      push_cast
      constructor <;> linarith
    · have hle : (500 : ℚ) ≤ rest := by exact_mod_cast not_lt.mp hhalf
      rw [if_neg (by omega), Int.floor_eq_iff]
      push_cast
      constructor <;> linarith
  · have hcast : (mv : ℚ) ≤ -1 := by exact_mod_cast (show mv ≤ -1 by omega)
    rw [lround, if_neg (by linarith)]
    change -⌊-((mv : ℚ) + rest / 1000) + 1 / 2⌋ = _
    by_cases hhalf : rest ≤ 500
    · have hle : (rest : ℚ) ≤ 500 := by exact_mod_cast hhalf
      rw [if_pos (by omega), neg_eq_iff_eq_neg, Int.floor_eq_iff]
      push_cast
      constructor <;> linarith
    · have hlt : (500 : ℚ) < rest := by exact_mod_cast not_le.mp hhalf
      rw [if_neg (by omega), neg_eq_iff_eq_neg, Int.floor_eq_iff]
      push_cast
      constructor <;> linarith

theorem toI16_toInt_emod (x : ℤ) : (toI16 x).toInt % 65536 = x % 65536 ∧
    -32768 ≤ (toI16 x).toInt ∧ (toI16 x).toInt ≤ 32767 := by
  have hlow := (toI16 x).le_toInt
  have hhigh := (toI16 x).toInt_lt
  refine ⟨?_, by omega, by omega⟩
  rw [toI16, Int16.toInt_ofInt]
  exact Int.bmod_emod

theorem toI16_toInt_eq_iff {x y : ℤ} (hlow : -32768 ≤ y) (hhigh : y ≤ 32767) :
    (toI16 x).toInt = y ↔ x % 65536 = y % 65536 := by
  obtain ⟨hres, hge, hle⟩ := toI16_toInt_emod x
  rw [← hres]
  refine ⟨fun h => h ▸ rfl, fun h => ?_⟩
  omega

/-- Rounding agrees with the limited number modulo `2 ^ 16`. -/
theorem rounded_emod_iff {mv : ℤ} {rest : ℕ} :
    (mv + if rest < 500 ∨ rest = 500 ∧ mv < 0 then 0 else 1) % 65536 = min 32767 mv % 65536 ↔
      (mv ≤ 32767 ∧ (rest < 500 ∨ rest = 500 ∧ mv < 0)) ∨
        32767 < mv ∧ (mv + if 500 ≤ rest then 1 else 0) % 65536 = 32767 := by
  rcases le_or_gt mv 32767 with hle | hgt
  · have hbelow : ¬ 32767 < mv := not_lt.mpr hle
    rw [min_eq_right hle]
    by_cases hdown : rest < 500 ∨ rest = 500 ∧ mv < 0
    · simp only [if_pos hdown, add_zero, true_iff]
      exact .inl ⟨hle, hdown⟩
    · have hnext : (mv + 1) % 65536 ≠ mv % 65536 := by omega
      rw [if_neg hdown]
      exact iff_of_false hnext (by tauto)
  · have habove : ¬ mv ≤ 32767 := not_le.mpr hgt
    have hnonneg : ¬ mv < 0 := by omega
    rw [min_eq_left hgt.le]
    by_cases hup : 500 ≤ rest
    · simp [habove, hnonneg, hgt, hup, not_lt.mpr hup]
    · simp [habove, hgt, hup, not_le.mp hup]

/-- A saved slope without an offset, and one collected point. -/
def adcSaved (aX1000 : UInt16) (raw : ℕ) : AdcMem where
  nvsAX1000 := some aX1000.toUInt32
  coeffAX1000 := aX1000
  points := [⟨0, raw, true⟩]
  pointCount := 1

end
end Ecotiter
