import Mathlib.Data.Rat.Floor
import Ecotiter.AdcCalibration
import Ecotiter.IntegerRounding
import Ecotiter.LeastSquares

/-!
# The fit of the ADC calibration

`handleAdcCalCompute` of `handlers/sensors.cpp` fits a line to the five collected points and inverts
it. In exact arithmetic, but a division by zero gives what it gives in `double`.
-/

namespace Ecotiter
open IntegerRounding LeastSquares

namespace Double

/-- `std::clamp`. -/
def clamp (lo hi : ℚ) : Double → Double
  | .finite x => .finite (if x < lo then lo else if hi < x then hi else x)
  | .posInf => .finite hi
  | .negInf => .finite lo
  | .nan => .nan

/-- The conversion to an integer; for a value without one C++ leaves the result open. -/
def toInt : Double → ℤ
  | .finite x => trunc x
  | _ => 0

end Double

namespace Config

def adcCalMaxPoints : ℕ := 5

end Config

/-- What the client is told. -/
inductive AdcComputeReply
  | error (rsp : CommandResponse)
  | computed (a : Double) (b : Int16) (rSquared : ℚ)
  deriving DecidableEq

/-- The measured points as pairs of the reference and the raw value. -/
def AdcMem.measured (m : AdcMem) : List (ℚ × ℚ) := m.points.map fun p => (p.refMv, (p.rawMv : ℚ))

namespace Sensors

def handleAdcCalCompute (m : AdcMem) : AdcComputeReply × AdcMem :=
  if m.pointCount < Config.adcCalMaxPoints then
    (.error (makeErrorResponse "not enough points — need 5"), m)
  else
    let sumX := (m.measured.map fun p => p.1).sum
    let sumY := (m.measured.map fun p => p.2).sum
    let sumXY := (m.measured.map fun p => p.1 * p.2).sum
    let sumX2 := (m.measured.map fun p => p.1 * p.1).sum
    let sumY2 := (m.measured.map fun p => p.2 * p.2).sum
    let n : ℚ := Config.adcCalMaxPoints
    let denom := n * sumX2 - sumX * sumX
    if |denom| < 1 / 10 ^ 12 then
      (.error (makeErrorResponse "degenerate calibration points"), m)
    else
      let aRaw := (n * sumXY - sumX * sumY) / denom
      let bRaw := (sumY - aRaw * sumX) / n
      let coeffA := Double.div 1 aRaw
      let coeffB := Double.div (-bRaw) aRaw
      let num := n * sumXY - sumX * sumY
      let denomR := (n * sumX2 - sumX * sumX) * (n * sumY2 - sumY * sumY)
      let rSquared := if 0 < denomR then num * num / denomR else 0
      let aX1000 := UInt16.ofNat ((coeffA.mulAdd 1000 (1 / 2)).clamp 0 65535).toInt.toNat
      let bVal := Int16.ofInt ((coeffB.mulAdd 1 (1 / 2)).clamp (-32768) 32767).toInt
      (.computed coeffA bVal rSquared, { m with pendingAX1000 := aX1000, pendingB := bVal })

end Sensors
open Sensors

/-- The references are too close to each other for a fit. -/
def AdcMem.degenerate (m : AdcMem) : Bool :=
  |5 * sumXX m.measured - sumX m.measured * sumX m.measured| < 1 / 10 ^ 12

/-- The pending coefficients are the integers nearest to those of the inverted line of least
squares, within the limits of their types. -/
def AdcMem.Fitted (m m' : AdcMem) : Prop :=
  ∃ aRaw bRaw : ℚ, Minimises m.measured aRaw bRaw ∧ aRaw ≠ 0 ∧
    IsNearestWithin 0 65535 m'.pendingAX1000.toNat (1000 / aRaw) ∧
    IsNearestWithin (-32768) 32767 m'.pendingB.toInt (-bRaw / aRaw)

/-- Points without an invertible line are refused, others are fitted. -/
def AdcMem.ComputesRightly (m : AdcMem) : Prop :=
  if m.degenerate ∨ slopeOf m.measured = 0 then
    handleAdcCalCompute m = (.error (makeErrorResponse "degenerate calibration points"), m)
  else m.Fitted (handleAdcCalCompute m).2

section
variable {m : AdcMem}

/-- Within the limits of an integer type the conversion rounds towards zero. -/
theorem toInt_clamp (x : ℚ) (lo hi : ℤ) (h : lo ≤ hi) :
    ((Double.finite x).clamp lo hi).toInt = max lo (min hi (truncate x)) := by
  have hcast : (lo : ℚ) ≤ hi := by exact_mod_cast h
  have hclamp : (if x < lo then (lo : ℚ) else if hi < x then hi else x) =
      max (lo : ℚ) (min (hi : ℚ) x) := by
    by_cases hlow : x < lo
    · rw [if_pos hlow, min_eq_right (hlow.le.trans hcast), max_eq_left hlow.le]
    · rw [if_neg hlow]
      by_cases hhigh : hi < x
      · rw [if_pos hhigh, min_eq_left hhigh.le, max_eq_right hcast]
      · rw [if_neg hhigh, min_eq_right (not_lt.mp hhigh), max_eq_right (not_lt.mp hlow)]
  rw [← truncate_clamp, ← hclamp]
  rfl

theorem toNat_ofNat_clamp (n : ℤ) :
    ((UInt16.ofNat (max 0 (min 65535 n)).toNat).toNat : ℤ) = max 0 (min 65535 n) := by
  have hlt : (max 0 (min 65535 n)).toNat < 2 ^ 16 := by omega
  rw [UInt16.toNat_ofNat_of_lt' hlt]
  omega

theorem toInt_ofInt_clamp (n : ℤ) :
    (Int16.ofInt (max (-32768) (min 32767 n))).toInt = max (-32768) (min 32767 n) :=
  Int16.toInt_ofInt_of_le (by omega) (by omega)

theorem count_measured (hpoints : m.points.length = 5) : count m.measured = 5 := by
  rw [count, AdcMem.measured, List.length_map, hpoints]
  rfl

theorem measured_ne_nil (hpoints : m.points.length = 5) : m.measured ≠ [] := by
  intro hnil
  have hlen : m.measured.length = 5 := by rw [AdcMem.measured, List.length_map, hpoints]
  rw [hnil] at hlen
  exact absurd hlen (by decide)

/-- The quotients of the code are the slope and the intercept of the line of least squares. -/
theorem adcLine_eq (hpoints : m.points.length = 5) (hdegenerate : m.degenerate = false) :
    spread m.measured ≠ 0 ∧
      (5 * sumXY m.measured - sumX m.measured * sumY m.measured) /
        (5 * sumXX m.measured - sumX m.measured * sumX m.measured) = slopeOf m.measured ∧
      (sumY m.measured - slopeOf m.measured * sumX m.measured) / 5 = interceptOf m.measured := by
  have hcount := count_measured hpoints
  have hdenom : 5 * sumXX m.measured - sumX m.measured * sumX m.measured =
      5 * spread m.measured := by
    rw [spread, hcount]
    ring
  have hnum : 5 * sumXY m.measured - sumX m.measured * sumY m.measured =
      5 * (sumXY m.measured - sumX m.measured * sumY m.measured / count m.measured) := by
    rw [hcount]
    ring
  have hspread : spread m.measured ≠ 0 := by
    intro hzero
    have hlarge := of_decide_eq_false hdegenerate
    rw [hdenom, hzero, mul_zero, abs_zero] at hlarge
    exact hlarge (by norm_num)
  refine ⟨hspread, ?_, ?_⟩
  · rw [hdenom, hnum, mul_div_mul_left _ _ (by norm_num), slopeOf]
  · rw [interceptOf, hcount]

/-- What is pending after a fit. -/
def AdcMem.fit (m : AdcMem) : AdcMem :=
  { m with
    pendingAX1000 := UInt16.ofNat
      (((Double.div 1 (slopeOf m.measured)).mulAdd 1000 (1 / 2)).clamp 0 65535).toInt.toNat
    pendingB := Int16.ofInt (((Double.div (-interceptOf m.measured) (slopeOf m.measured)).mulAdd 1
      (1 / 2)).clamp (-32768) 32767).toInt }

theorem handleAdcCalCompute_degenerate (hcount : 5 ≤ m.pointCount) (h : m.degenerate = true) :
    handleAdcCalCompute m = (.error (makeErrorResponse "degenerate calibration points"), m) := by
  have henough : ¬ m.pointCount < Config.adcCalMaxPoints := not_lt.mpr hcount
  have hn : ((Config.adcCalMaxPoints : ℕ) : ℚ) = 5 := by norm_num [Config.adcCalMaxPoints]
  have hsmall := of_decide_eq_true h
  unfold handleAdcCalCompute
  rw [if_neg henough]
  dsimp only
  rw [hn]
  exact if_pos hsmall

theorem handleAdcCalCompute_fit (hcount : 5 ≤ m.pointCount) (hpoints : m.points.length = 5)
    (h : m.degenerate = false) :
    ∃ b r, handleAdcCalCompute m = (.computed (Double.div 1 (slopeOf m.measured)) b r, m.fit) := by
  obtain ⟨-, hslope, hintercept⟩ := adcLine_eq hpoints h
  have henough : ¬ m.pointCount < Config.adcCalMaxPoints := not_lt.mpr hcount
  have hn : ((Config.adcCalMaxPoints : ℕ) : ℚ) = 5 := by norm_num [Config.adcCalMaxPoints]
  have hlarge := of_decide_eq_false h
  unfold handleAdcCalCompute AdcMem.fit
  rw [if_neg henough, ← hintercept, ← hslope]
  dsimp only
  rw [hn]
  exact ⟨_, _, if_neg hlarge⟩

/-- The rounding of the offset is right from -1/2 on; below it is right only where the sum with one
half is an integer or below the lower limit. -/
def OffsetRounded (x : ℚ) : Prop := -(1 / 2) ≤ x ∨ (∃ k : ℤ, x + 1 / 2 = k) ∨ x + 1 / 2 ≤ -32768

/-- With an invertible line the first coefficient is always right, the second as its rounding is. -/
theorem fitted_fit_iff (hpoints : m.points.length = 5) (h : m.degenerate = false)
    (hslope : slopeOf m.measured ≠ 0) :
    m.Fitted m.fit ↔ OffsetRounded (-interceptOf m.measured / slopeOf m.measured) := by
  have hspread := (adcLine_eq hpoints h).1
  have hne := measured_ne_nil hpoints
  have hA : (m.fit.pendingAX1000.toNat : ℤ) = truncate (max ((0 : ℤ) : ℚ) (min ((65535 : ℤ) : ℚ)
      (1000 / slopeOf m.measured + 1 / 2))) := by
    unfold AdcMem.fit
    dsimp only
    rw [Double.div, if_pos hslope, Double.mulAdd, one_div_mul_eq_div]
    have hclamp := toInt_clamp (1000 / slopeOf m.measured + 1 / 2) 0 65535 (by decide)
    push_cast at hclamp
    rw [hclamp, toNat_ofNat_clamp, truncate_clamp]
  have hB : m.fit.pendingB.toInt = truncate (max ((-32768 : ℤ) : ℚ) (min ((32767 : ℤ) : ℚ)
      (-interceptOf m.measured / slopeOf m.measured + 1 / 2))) := by
    unfold AdcMem.fit
    dsimp only
    rw [Double.div, if_pos hslope, Double.mulAdd, mul_one]
    have hclamp := toInt_clamp (-interceptOf m.measured / slopeOf m.measured + 1 / 2)
      (-32768) 32767 (by decide)
    push_cast at hclamp
    rw [hclamp, toInt_ofInt_clamp, truncate_clamp]
  have hfirst : IsNearestWithin 0 65535 m.fit.pendingAX1000.toNat (1000 / slopeOf m.measured) := by
    rw [hA, isNearestWithin_truncate_iff le_rfl (by decide)]
    by_cases hlow : -(1 / 2) ≤ 1000 / slopeOf m.measured
    · exact .inl hlow
    · refine .inr (.inr ?_)
      push_cast
      linarith
  have hsecond : IsNearestWithin (-32768) 32767 m.fit.pendingB.toInt
      (-interceptOf m.measured / slopeOf m.measured) ↔
        OffsetRounded (-interceptOf m.measured / slopeOf m.measured) := by
    rw [hB, isNearestWithin_truncate_iff (by decide) (by decide), OffsetRounded]
    push_cast
    exact Iff.rfl
  rw [← hsecond]
  constructor
  · rintro ⟨aRaw, bRaw, hmin, -, -, hb⟩
    obtain ⟨rfl, rfl⟩ := (minimises_iff hne hspread).mp hmin
    exact hb
  · intro hb
    exact ⟨_, _, minimises_line hne hspread, hslope, hfirst, hb⟩

/-- The fit is right exactly for degenerate references and for lines that can be inverted and whose
offset is rounded rightly. -/
theorem adcCalCompute_right_iff (hcount : 5 ≤ m.pointCount) (hpoints : m.points.length = 5) :
    m.ComputesRightly ↔ m.degenerate ∨ slopeOf m.measured ≠ 0 ∧
      OffsetRounded (-interceptOf m.measured / slopeOf m.measured) := by
  unfold AdcMem.ComputesRightly
  cases hdegenerate : m.degenerate with
  | true =>
    rw [if_pos (.inl rfl)]
    exact iff_of_true (handleAdcCalCompute_degenerate hcount hdegenerate) (.inl rfl)
  | false =>
    obtain ⟨b, r, heq⟩ := handleAdcCalCompute_fit hcount hpoints hdegenerate
    rw [heq]
    by_cases hslope : slopeOf m.measured = 0
    · rw [if_pos (.inr hslope)]
      refine iff_of_false ?_ ?_
      · intro h
        cases congrArg Prod.fst h
      · rintro (h | ⟨h, -⟩)
        · cases h
        · exact h hslope
    · rw [if_neg (by simp [hslope]), fitted_fit_iff hpoints hdegenerate hslope]
      simp [hslope]

/-- Five points at the references 0, 100, 200, 300 and 400 mV. -/
def adcMeasured (raws : List ℕ) : AdcMem where
  points := raws.mapIdx fun i raw => ⟨100 * i, raw, true⟩
  pointCount := 5

theorem adcCalCompute_right_shifted :
    (adcMeasured [100, 200, 300, 400, 500]).ComputesRightly ↔
      (adcMeasured [100, 200, 300, 400, 500]).degenerate ∨
        slopeOf (adcMeasured [100, 200, 300, 400, 500]).measured ≠ 0 ∧
          OffsetRounded (-interceptOf (adcMeasured [100, 200, 300, 400, 500]).measured /
            slopeOf (adcMeasured [100, 200, 300, 400, 500]).measured) :=
  adcCalCompute_right_iff (by decide) (by decide)

/-- Equal raw values divide by zero. An offset of -99.6 mV is rounded to -99. -/
theorem adcCalCompute_wrong : ¬ (adcMeasured [100, 100, 100, 100, 100]).ComputesRightly ∧
    ¬ (adcMeasured [100, 200, 300, 400, 501]).ComputesRightly := by
  constructor
  · have hflat : slopeOf (adcMeasured [100, 100, 100, 100, 100]).measured = 0 := by decide +kernel
    unfold AdcMem.ComputesRightly
    rw [if_pos (.inr hflat)]
    decide +kernel
  · have hpoints : (adcMeasured [100, 200, 300, 400, 501]).points.length = 5 := by decide
    have hdegenerate : (adcMeasured [100, 200, 300, 400, 501]).degenerate = false := by
      decide +kernel
    have hslope : slopeOf (adcMeasured [100, 200, 300, 400, 501]).measured ≠ 0 := by decide +kernel
    have hlow : -100 < -interceptOf (adcMeasured [100, 200, 300, 400, 501]).measured /
        slopeOf (adcMeasured [100, 200, 300, 400, 501]).measured + 1 / 2 := by decide +kernel
    have hhigh : -interceptOf (adcMeasured [100, 200, 300, 400, 501]).measured /
        slopeOf (adcMeasured [100, 200, 300, 400, 501]).measured + 1 / 2 < -99 := by decide +kernel
    obtain ⟨b, r, heq⟩ := handleAdcCalCompute_fit (by decide) hpoints hdegenerate
    unfold AdcMem.ComputesRightly
    rw [heq, if_neg (by simp [hdegenerate, hslope]), fitted_fit_iff hpoints hdegenerate hslope]
    rintro (h | ⟨k, hk⟩ | h)
    · linarith
    · rw [hk] at hlow hhigh
      have hlow : -100 < k := by exact_mod_cast hlow
      have hhigh : k < -99 := by exact_mod_cast hhigh
      omega
    · linarith

end
end Ecotiter
