import Ecotiter.Motion

/-!
# The runners of rinse, dose calibration and speed calibration

`motor/sm_runners.cpp`. A state machine that the source keeps in a static variable is a local
variable here: every runner starts its machine before it uses it, and only the motor task runs them.
-/

namespace Ecotiter
open Interleaving Firmware

/-- `xTaskGetTickCount() * portTICK_PERIOD_MS` at 1000 ticks a second. -/
def nowMs : Firmware ℕ := .perform .xTaskGetTickCount

/-- The loop of `run_rinse_sm`. -/
def rinseLoop (speedHz : ℕ) (sm : RinseSm) : Firmware Unit :=
  .iterate (fun sm => do
    if sm.isComplete then return .inr ()
    else
      taskWdtReset
      let _ ← load .volumeMl
      let (action, sm) := sm.onMotorComplete
      match action with
      | .fillToLimit =>
        moveFill speedHz
        return .inl sm
      | .emptyToLimit =>
        moveEmpty speedHz
        return .inl sm
      | .complete =>
        storeResult .rinseComplete 0 0 [] 0
        return .inr ()
      | .error =>
        storeResult .error 0 0 [] 0
        return .inr ()) sm

def runRinseSm (speedMlMin : ℚ) (cycles : ℕ) (currentVolumeMl nominalVolumeMl : ℚ) :
    Firmware Unit := do
  let sm := RinseSm.start cycles currentVolumeMl nominalVolumeMl
  let speedHz := mlMinToHz speedMlMin
  if sm.phase = .preFill then moveFill speedHz
  rinseLoop speedHz sm

/-- The fill of `run_cal_dose_sm`, if the machine asks for it. -/
def calDoseFill (speedHz : ℕ) (s : CalDoseAction × CalDoseSm) :
    Firmware (CalDoseAction × CalDoseSm) := do
  if s.1 = .fillToLimit then
    moveFill speedHz
    let pos ← StepperMotor.position
    return s.2.onFillComplete pos
  else return s

/-- The empty of `run_cal_dose_sm`, if the machine asks for it. -/
def calDoseEmpty (speedHz : ℕ) (s : CalDoseAction × CalDoseSm) :
    Firmware (CalDoseAction × CalDoseSm) := do
  if s.1 = .emptyToLimit then
    moveEmpty speedHz
    let pos ← StepperMotor.position
    return s.2.onEmptyComplete pos
  else return s

def runCalDoseSm (speedMlMin currentVolumeMl nominalVolumeMl : ℚ) : Firmware Unit := do
  let speedHz := mlMinToHz speedMlMin
  let started := CalDoseSm.start.onStart currentVolumeMl nominalVolumeMl
  let filled ← calDoseFill speedHz started
  let emptied ← calDoseEmpty speedHz filled
  if emptied.1 = .complete then storeResult .calDoseComplete emptied.2.stepsTaken 0 [] 0
  else storeResult .error 0 0 [] 0

/-- The fill of `run_cal_speed_sm`, if the machine asks for it. -/
def calSpeedFill (speedHz : ℕ) (s : CalSpeedAction × CalSpeedSingleSm) :
    Firmware (CalSpeedAction × CalSpeedSingleSm) := do
  if s.1 = .fillToLimit then
    moveFill speedHz
    let now ← nowMs
    return s.2.onFillComplete now
  else return s

/-- The empty of `run_cal_speed_sm` at the test frequency, if the machine asks for it. -/
def calSpeedEmpty (testFreqHz : ℕ) (nominalVolumeMl : ℚ) (s : CalSpeedAction × CalSpeedSingleSm) :
    Firmware (CalSpeedAction × CalSpeedSingleSm) := do
  if s.1 = .emptyToLimit then
    let least := mlMinToHz Config.minCalSpeedMlMin
    moveEmpty (if testFreqHz < least then least else testFreqHz)
    let now ← nowMs
    return s.2.onEmptyComplete now nominalVolumeMl
  else return s

def runCalSpeedSm (speedMlMin : ℚ) (testFreqHz : ℕ) (currentVolumeMl nominalVolumeMl : ℚ) :
    Firmware Unit := do
  let speedHz := mlMinToHz speedMlMin
  let started := CalSpeedSingleSm.start.onStart currentVolumeMl nominalVolumeMl
  let filled ← calSpeedFill speedHz started
  let emptied ← calSpeedEmpty testFreqHz nominalVolumeMl filled
  if emptied.1 = .complete then
    storeResult .calSpeedComplete 0 emptied.2.measuredSpeedMlMin [] 0
  else storeResult .error 0 0 [] 0

/-- `dispatchCalSpeedAction`: whether the loop goes on. -/
def dispatchCalSpeedAction (sm : CalSpeedSeqSm) (action : CalSpeedAction) (fillHz : ℕ) :
    Firmware Bool := do
  match action with
  | .fillToLimit =>
    moveFill fillHz
    return true
  | .emptyToLimit =>
    moveEmpty (sm.freqs.getD sm.seqIdx 0)
    return true
  | .settleValve =>
    settleValve .stopFull
    return true
  | .complete =>
    storeResult .calSpeedSeqComplete 0 0 sm.results sm.seqIdx
    return false
  | .error =>
    storeResult .error 0 0 [] 0
    return false

/-- The loop of `run_cal_speed_seq_sm`. -/
def calSpeedSeqLoop (fillHz : ℕ) (sm : CalSpeedSeqSm) : Firmware Unit :=
  .iterate (fun sm => do
    if sm.isComplete then return .inr ()
    else
      taskWdtReset
      let now ← nowMs
      let (action, sm) := sm.onTick now
      if ← dispatchCalSpeedAction sm action fillHz then return .inl sm
      else return .inr ()) sm

def runCalSpeedSeqSm (freqs : List ℕ) (fillSpeedMlMin currentVolumeMl nominalVolumeMl : ℚ) :
    Firmware Unit := do
  let sm := CalSpeedSeqSm.start freqs
  let fillHz := mlMinToHz fillSpeedMlMin
  let sm :=
    if nominalVolumeMl - 1 / 10 ≤ currentVolumeMl then { sm with firstEver := false } else sm
  calSpeedSeqLoop fillHz sm

end Ecotiter
