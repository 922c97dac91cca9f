import Ecotiter.BuretteTypes

/-!
# Calibration data and the arithmetic of doses and speeds

`domain/calibration.hpp`, `domain/cal_run_planner.hpp`, `domain/z_factor.hpp` and `domain/ols.hpp`
in exact rational arithmetic. Decimal constants are written as fractions.
-/

namespace Ecotiter

/-- The conversion of a `float` to an integer: rounding towards zero. -/
def trunc (x : ℚ) : ℤ :=
  if 0 ≤ x then x.floor else -(-x).floor

/-- `std::lround`: to the nearest integer, halves away from zero. -/
def lround (x : ℚ) : ℤ :=
  if 0 ≤ x then (x + 1 / 2).floor else -(-x + 1 / 2).floor

/-- Conversion to `uint32_t`. Outside the range of the type C++ leaves the value open; it is
reduced here. -/
def toU32 (x : ℚ) : ℕ := (trunc x % 2 ^ 32).toNat

/-- Conversion of an integer to `uint16_t`. -/
def toU16 (x : ℤ) : ℕ := (x % 2 ^ 16).toNat

/-- The value of an `int32_t`; an overflow of signed arithmetic, which C++ leaves open, wraps like
that of an atomic counter. -/
def toI32 (x : ℤ) : ℤ := x.bmod (2 ^ 32)

/-- Conversion to `uint8_t`. -/
def toU8 (n : ℕ) : ℕ := n % 2 ^ 8

structure CalibrationData where
  stepsPerMl : ℚ
  nominalVolumeMl : ℚ
  speedCoeff : ℚ
  minFreqHz : ℕ
  maxFreqHz : ℕ
  deriving DecidableEq, Repr

namespace CalibrationData

def kDefaultStepsPerMl : ℚ := 7730
def kDefaultNominalVolumeMl : ℚ := 814 / 100
def kDefaultSpeedCoeff : ℚ := 3052 / 100000
def kDefaultMinFreqHz : ℕ := 30
def kDefaultMaxFreqHz : ℕ := 3000

/-- `CalibrationData{}`. -/
def zero : CalibrationData := ⟨0, 0, 0, 0, 0⟩

def default : CalibrationData :=
  ⟨kDefaultStepsPerMl, kDefaultNominalVolumeMl, kDefaultSpeedCoeff, kDefaultMinFreqHz,
    kDefaultMaxFreqHz⟩

theorem default_stepsPerMl : default.stepsPerMl = 7730 := rfl

theorem default_nominalVolumeMl : default.nominalVolumeMl = 814 / 100 := rfl

theorem default_speedCoeff : default.speedCoeff = 3052 / 100000 := rfl

end CalibrationData

def speedMlMinToHz (speedMlMin : ℚ) (cal : CalibrationData) : ℕ :=
  if cal.speedCoeff < 1 / 1000000 then cal.minFreqHz
  else
    let freq := toU32 (speedMlMin / cal.speedCoeff + 1 / 2)
    let freq := if freq < cal.minFreqHz then cal.minFreqHz else freq
    if cal.maxFreqHz < freq then cal.maxFreqHz else freq

structure DosePlan where
  totalCycles : ℕ := 0
  firstCycleVolMl : ℚ := 0
  remainingVolMl : ℚ := 0
  singleCycle : Bool := false
  needsFillFirst : Bool := false
  valid : Bool := false
  deriving DecidableEq, Repr

/-- The volumes `planDose` accepts under a given calibration. -/
def doseVolumeValid (volumeMl : ℚ) (cal : CalibrationData) : Bool :=
  !(volumeMl < 1 / 100 ∨ 50 < volumeMl ∨ cal.nominalVolumeMl < 1 / 1000)

def planDose (volumeMl currentVolumeMl : ℚ) (cal : CalibrationData) : DosePlan :=
  if volumeMl < 1 / 100 ∨ 50 < volumeMl ∨ cal.nominalVolumeMl < 1 / 1000 then {}
  else
    let plan : DosePlan :=
      if cal.nominalVolumeMl + 1 / 1000 < volumeMl then
        let cycles := toU32 (volumeMl / cal.nominalVolumeMl + 999999 / 1000000)
        let remaining := volumeMl - cal.nominalVolumeMl * trunc (volumeMl / cal.nominalVolumeMl)
        if remaining < 1 / 100 then
          { totalCycles := cycles, remainingVolMl := cal.nominalVolumeMl,
            firstCycleVolMl := cal.nominalVolumeMl, singleCycle := false, valid := true }
        else
          let cycles := toU32 (volumeMl / cal.nominalVolumeMl) + 1
          { totalCycles := if 1 < cycles then cycles - 1 else cycles, remainingVolMl := remaining,
            firstCycleVolMl := cal.nominalVolumeMl, singleCycle := false, valid := true }
      else
        { totalCycles := 1, firstCycleVolMl := volumeMl, remainingVolMl := 0, singleCycle := true,
          valid := true }
    { plan with needsFillFirst := currentVolumeMl < plan.firstCycleVolMl - 1 / 1000 }

/-- Whether a plan is valid does not depend on the volume in the burette. -/
theorem planDose_valid (v x : ℚ) (cal : CalibrationData) :
    (planDose v x cal).valid = doseVolumeValid v cal := by
  unfold planDose doseVolumeValid
  by_cases h : v < 1 / 100 ∨ 50 < v ∨ cal.nominalVolumeMl < 1 / 1000
  · simp only [if_pos h, decide_eq_true h, Bool.not_true]
  · simp only [if_neg h, decide_eq_false h, Bool.not_false]
    split
    · split <;> rfl
    · rfl

/-- The running account of the volume in the burette; nothing in the firmware keeps one. -/
structure VolumeTracker where
  currentVolumeMl : ℚ
  deriving DecidableEq, Repr

namespace VolumeTracker

def onFillComplete (cal : CalibrationData) (_ : VolumeTracker) : VolumeTracker :=
  ⟨cal.nominalVolumeMl⟩

def onEmptyComplete (_ : VolumeTracker) : VolumeTracker := ⟨0⟩

def onDoseComplete (dispensedVolMl : ℚ) (v : VolumeTracker) : VolumeTracker :=
  let volume := v.currentVolumeMl - dispensedVolMl
  ⟨if volume < 0 then 0 else volume⟩

def onStopDuringFill (startVolMl : ℚ) (stepsTaken : ℤ) (cal : CalibrationData)
    (_ : VolumeTracker) : VolumeTracker :=
  let volume := startVolMl + stepsTaken / cal.stepsPerMl
  ⟨if cal.nominalVolumeMl < volume then cal.nominalVolumeMl else volume⟩

def onStopDuringEmpty (startVolMl : ℚ) (stepsTaken : ℤ) (cal : CalibrationData)
    (_ : VolumeTracker) : VolumeTracker :=
  let volume := startVolMl - stepsTaken / cal.stepsPerMl
  ⟨if volume < 0 then 0 else volume⟩

def onHomingComplete (cal : CalibrationData) (_ : VolumeTracker) : VolumeTracker :=
  ⟨cal.nominalVolumeMl⟩

end VolumeTracker

inductive CalRunAction
  | reject | calDose | calSpeed
  deriving DecidableEq, Repr

inductive CalRunRejectReason
  | none | invalidMode | buretteBusy
  deriving DecidableEq, Repr

structure CalRunPlan where
  action : CalRunAction
  rejectReason : CalRunRejectReason
  freqHz : ℕ
  speedMlMin : ℚ
  deriving DecidableEq, Repr

def planCalRun (mode : String) (speedMlMin : ℚ) (freqHz : ℕ) (maxFreqHz speedCoeff : ℚ)
    (isBusy : Bool) : CalRunPlan :=
  if mode ≠ "dose" ∧ mode ≠ "speed" then ⟨.reject, .invalidMode, 0, 0⟩
  else if isBusy then ⟨.reject, .buretteBusy, 0, 0⟩
  else if mode = "dose" then
    let calFreq := if freqHz = 0 then toU16 (trunc (maxFreqHz / 2 + 1 / 2)) else freqHz
    let calSpeed := calFreq * speedCoeff
    ⟨.calDose, .none, calFreq,
      if calSpeed < Config.minCalSpeedMlMin then Config.minCalSpeedMlMin else calSpeed⟩
  else if freqHz = 0 then ⟨.reject, .invalidMode, 0, 0⟩
  else
    ⟨.calSpeed, .none, freqHz,
      if speedMlMin < Config.minCalSpeedMlMin then maxFreqHz / 2 * speedCoeff else speedMlMin⟩

/-! The density correction of `z_factor.hpp`: rows of the table are half-degree temperatures from
15 to 30 °C, columns the pressures in kPa, entries the units of 0.0001 above 1. -/

def zTemps : List ℚ := (List.range 31).map fun i : ℕ => 15 + (i : ℚ) / 2

def zPressures : List ℚ := [80, 853 / 10, 907 / 10, 96, 1013 / 10, 1067 / 10]

def zTableUnits : List (List ℕ) := [
  [18, 18, 19, 19, 20, 20], [18, 18, 19, 20, 20, 21], [19, 20, 20, 21, 22, 22],
  [20, 20, 21, 22, 22, 23], [21, 21, 22, 22, 23, 23], [22, 22, 23, 24, 24, 24],
  [22, 23, 24, 24, 25, 25], [23, 24, 25, 25, 26, 26], [24, 25, 25, 26, 27, 27],
  [25, 26, 26, 27, 28, 28], [26, 27, 27, 28, 29, 29], [27, 28, 28, 29, 30, 30],
  [28, 29, 31, 31, 32, 32], [30, 30, 32, 32, 33, 33], [31, 31, 33, 33, 34, 35],
  [32, 32, 34, 35, 35, 36], [33, 33, 35, 36, 36, 37], [34, 35, 36, 37, 38, 38],
  [35, 36, 37, 38, 39, 39], [37, 37, 38, 39, 40, 41], [38, 38, 39, 40, 41, 42],
  [39, 40, 41, 41, 42, 43], [40, 41, 42, 42, 43, 45], [42, 42, 43, 44, 45, 46],
  [43, 44, 44, 45, 48, 49], [46, 46, 47, 48, 48, 49], [46, 46, 47, 48, 49, 49],
  [47, 48, 48, 49, 50, 50], [49, 49, 50, 51, 51, 52], [50, 51, 51, 52, 53, 53],
  [52, 52, 53, 54, 54, 55]]

def zTable (t p : ℕ) : ℚ := 1 + (((zTableUnits.getD t []).getD p 0 : ℕ) : ℚ) / 10000

/-- The last index below the last entry whose grid value does not exceed `x`, or 0. -/
def gridIndex (grid : List ℚ) (x : ℚ) : ℕ :=
  (List.range (grid.length - 1)).foldl (fun acc i => if grid.getD i 0 ≤ x then i else acc) 0

def clampTo (grid : List ℚ) (x : ℚ) : ℚ :=
  let x := if x < grid.getD 0 0 then grid.getD 0 0 else x
  if grid.getD (grid.length - 1) 0 < x then grid.getD (grid.length - 1) 0 else x

def lerp (a b t : ℚ) : ℚ := a + (b - a) * t

def getZFactor (temperature pressure : ℚ) : ℚ :=
  let temperature := clampTo zTemps temperature
  let pressure := clampTo zPressures pressure
  let ti := gridIndex zTemps temperature
  let pi := gridIndex zPressures pressure
  let tFrac := (temperature - zTemps.getD ti 0) / (zTemps.getD (ti + 1) 0 - zTemps.getD ti 0)
  let pFrac :=
    (pressure - zPressures.getD pi 0) / (zPressures.getD (pi + 1) 0 - zPressures.getD pi 0)
  lerp (lerp (zTable ti pi) (zTable ti (pi + 1)) pFrac)
    (lerp (zTable (ti + 1) pi) (zTable (ti + 1) (pi + 1)) pFrac) tFrac

def calculateNewStepsPerMl (currentSpm targetVolMl actualVolMl : ℚ) : ℚ :=
  if actualVolMl < 1 / 10000 then currentSpm else currentSpm * targetVolMl / actualVolMl

structure SpeedCalResult where
  k : ℚ
  rSquared : ℚ
  deriving DecidableEq, Repr

/-- The regression of `ols.hpp` on the list of (frequency, speed) pairs. -/
def calculateSpeedCalibration (points : List (ℚ × ℚ)) : SpeedCalResult :=
  if points.length < 2 then ⟨0, 0⟩
  else
    let sumF := (points.map fun p => p.1).sum
    let sumV := (points.map fun p => p.2).sum
    let sumFF := (points.map fun p => p.1 * p.1).sum
    let sumFV := (points.map fun p => p.1 * p.2).sum
    let n : ℚ := points.length
    let denom := sumFF - sumF * sumF / n
    if -(1 / 1000000) < denom ∧ denom < 1 / 1000000 then ⟨0, 0⟩
    else
      let k := (sumFV - sumF * sumV / n) / denom
      let meanV := sumV / n
      let ssRes := (points.map fun p => (p.2 - k * p.1) * (p.2 - k * p.1)).sum
      let ssTot := (points.map fun p => (p.2 - meanV) * (p.2 - meanV)).sum
      ⟨k, if 1 / 1000000 < ssTot then 1 - ssRes / ssTot else 0⟩

end Ecotiter
