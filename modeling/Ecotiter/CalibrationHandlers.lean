import Ecotiter.BuretteHandlers

/-!
# The handlers of the calibration and StallGuard commands

`handlers/burette_cal.cpp`, the two StallGuard handlers of `handlers/sensors.cpp`, and the access to
the calibration keys in `storage/nvs.cpp`. Each key write is one action that succeeds or fails.
-/

namespace Ecotiter
open Interleaving Firmware

def calibrationRead : Firmware (Option CalibrationData) := do
  if ← Program.perform (.nvsOpen false) then
    let spm ← Program.perform (.nvsGet .stepsPerMl)
    let nom ← Program.perform (.nvsGet .nominalVol)
    let coeff ← Program.perform (.nvsGet .speedCoeff)
    let minFreq ← Program.perform (.nvsGet .minFreq)
    let maxFreq ← Program.perform (.nvsGet .maxFreq)
    let cal : CalibrationData :=
      { stepsPerMl := spm.getD CalibrationData.kDefaultStepsPerMl
        nominalVolumeMl := nom.getD CalibrationData.kDefaultNominalVolumeMl
        speedCoeff := coeff.getD CalibrationData.kDefaultSpeedCoeff
        minFreqHz := (minFreq.map (· % 2 ^ 16)).getD CalibrationData.kDefaultMinFreqHz
        maxFreqHz := (maxFreq.map (· % 2 ^ 16)).getD CalibrationData.kDefaultMaxFreqHz }
    store .calCache (some cal)
    return some cal
  else return none

/-- Whether all keys were written; the cache is replaced only then. -/
def calibrationWrite (cal : CalibrationData) : Firmware Bool := do
  if !(← Program.perform (.nvsOpen true)) then return false
  else if !(← Program.perform (.nvsSet .stepsPerMl cal.stepsPerMl)) then return false
  else if !(← Program.perform (.nvsSet .nominalVol cal.nominalVolumeMl)) then return false
  else if !(← Program.perform (.nvsSet .speedCoeff cal.speedCoeff)) then return false
  else if !(← Program.perform (.nvsSet .minFreq cal.minFreqHz)) then return false
  else if !(← Program.perform (.nvsSet .maxFreq cal.maxFreqHz)) then return false
  else if !(← Program.perform (.nvsSet .calDate 0)) then return false
  else
    store .calCache (some cal)
    return true

namespace BuretteCal

def handleGetCalibration : Firmware CommandResponse := do
  match ← calibrationRead with
  | none => return makeErrorResponse "start_failed"
  | some cal =>
    return ⟨.single, 0, .calibration cal.stepsPerMl cal.nominalVolumeMl cal.speedCoeff
      cal.minFreqHz cal.maxFreqHz⟩

def handleCalcVolume (massG temperature pressure : Option ℚ) : Firmware CommandResponse :=
  match massG with
  | none => return makeErrorResponse "invalid_params"
  | some massG => do
    if massG ≤ 0 then return makeErrorResponse "invalid_params"
    else
      match ← calibrationRead with
      | none => return makeErrorResponse "start_failed"
      | some cal =>
        let z := getZFactor (temperature.getD 25) (pressure.getD (1013 / 10))
        let actualVol := massG * z
        let newSpm := calculateNewStepsPerMl cal.stepsPerMl cal.nominalVolumeMl actualVol
        let relError :=
          (Double.div (actualVol - cal.nominalVolumeMl) cal.nominalVolumeMl).mulAdd 100 0
        Program.perform (.assignPendingCal fun p =>
          { p with stepsPerMl := newSpm, nominalVolumeMl := actualVol })
        return { body := .volumeCalibration z actualVol newSpm relError }

def handleCalcSpeed (measurements : List (ℚ × ℚ)) : Firmware CommandResponse := do
  if measurements.length < 2 then return makeErrorResponse "invalid_params"
  else
    match ← calibrationRead with
    | none => return makeErrorResponse "start_failed"
    | some cal =>
      let result := calculateSpeedCalibration measurements
      Program.perform (.assignPendingCal fun p => { p with speedCoeff := result.k })
      return { body := .speedCalibration result.k result.rSquared cal.minFreqHz cal.maxFreqHz }

def handleSaveCalibration (stepsPerMl nomVolume : Option ℚ) : Firmware CommandResponse := do
  let pending ← load .pendingCal
  let cal := { pending with
    stepsPerMl := stepsPerMl.getD pending.stepsPerMl
    nominalVolumeMl := nomVolume.getD pending.nominalVolumeMl }
  if ← calibrationWrite cal then
    store .pendingCal cal
    return { body := .savedCalibration cal.stepsPerMl cal.nominalVolumeMl }
  else return makeErrorResponse "start_failed"

def handleResetCalibration : Firmware CommandResponse := do
  let defaults := CalibrationData.default
  if ← calibrationWrite defaults then
    return { body := .savedCalibration defaults.stepsPerMl defaults.nominalVolumeMl }
  else return makeErrorResponse "start_failed"

/-- The three frequencies of the motor command; missing points are zero. -/
def seqFreqs (freqs : List ℚ) : List ℕ :=
  let count := min freqs.length Config.maxCalSeqPoints
  (List.range 3).map fun i =>
    if i < count ∧ 0 < freqs.getD i 0 then toU16 (lround (freqs.getD i 0)) else 0

def handleRunCalibration (freqs : List ℚ) (speedMlMin : ℚ) : Firmware CommandResponse := do
  if freqs.length < 2 then return makeErrorResponse "invalid_params"
  else
    claimBurette .dosing
      (enqueueClaimed
        { type := .startCalSpeedSeq
          startCalSpeedSeq := ⟨seqFreqs freqs,
            if 0 < speedMlMin then speedMlMin else Config.fillDefaultSpeedMlMin⟩ }
        makeAckThenResponse "start_failed")

def handleGetCalResult : Firmware CommandResponse := do
  match ← Program.perform .peekResult with
  | none => return { body := .calResult none }
  | some r => return { body := .calResult (if r.type = .none then none else some r) }

end BuretteCal

namespace StallGuard

def regSgResult : ℕ := 0x41
def regDrvStatus : ℕ := 0x6F

/-- `MotorControllerImpl::readTmcRegister`. -/
def readTmcRegister (reg : ℕ) : Firmware Bool :=
  sendMotorCommand { type := .readTmcRegister, readTmcReg := reg }

def handleStallGuardGet : Firmware CommandResponse := do
  let _ ← readTmcRegister regSgResult
  let _ ← readTmcRegister regDrvStatus
  return { body := .registersQueued }

def handleStallGuardSetThreshold (threshold : Option ℕ) : Firmware CommandResponse :=
  match threshold with
  | none => return makeErrorResponse "stallGuard.setThreshold requires 'threshold' param"
  | some stallThreshold => do
    store .stallGuardThreshold stallThreshold
    let _ ← Program.perform (.xQueueSend { type := .setStallThreshold, stallThreshold })
    if ← Program.perform (.nvsOpen true) then
      let _ ← Program.perform (.nvsSet .sgThreshold stallThreshold)
    return { body := .threshold stallThreshold }

end StallGuard
end Ecotiter
