import Ecotiter.StepperDriver

/-!
# Motions

The routines of `motor/motion.cpp`: a motion to an endstop, a motion by a number of steps, the fill
and empty phases and the publication of a result. A division by zero stops the device.
-/

namespace Ecotiter
open Interleaving Firmware

/-- Division of unsigned integers as the processor does it. -/
def quotient (a b : ℕ) : Firmware ℕ := do
  if b = 0 then
    Program.perform .abort
    return 0
  else return a / b

def setValve (pos : ValvePosition) : Firmware Unit := do
  gpioSetLevel .valve (pos = .output)
  store .valvePosition pos

/-- `settle_valve`: the settling time in slices of 10 ms, cut short by the stop flag. -/
def settleValve (stopFlag : StopFlag) : Firmware Unit :=
  .iterate (fun i => do
    if Config.valveSettleMs / 10 ≤ i then return .inr ()
    else if ← poll .settle stopFlag then return .inr ()
    else
      vTaskDelay 10
      return .inl (i + 1)) 0

def mlMinToHz (speedMlMin : ℚ) : ℕ :=
  speedMlMinToHz speedMlMin
    ⟨CalibrationData.kDefaultStepsPerMl, 50, CalibrationData.kDefaultSpeedCoeff,
      CalibrationData.kDefaultMinFreqHz, CalibrationData.kDefaultMaxFreqHz⟩

/-- The loop of `move_to_endstop`: full chunks until the flag is seen or the driver fails. -/
def endstopLoop (intervalUs : ℕ) (stopFlag : StopFlag) : Firmware Unit :=
  .iterate (fun _ => do
    if ← poll .loopHead stopFlag then return .inr ()
    else
      match ← StepperMotor.moveStepsIntervals
        (List.replicate Config.rmtChunkSymbols intervalUs) stopFlag with
      | .error _ => return .inr ()
      | .ok () => return .inl ()) ()

def moveToEndstop (dir : Direction) (speedHz : ℕ) (stopFlag : StopFlag) : Firmware Unit := do
  gpioSetLevel .dir dir.level
  vTaskDelay Config.dirSetupMs
  let intervalUs ← quotient 1000000 speedHz
  storeStop stopFlag false
  endstopLoop intervalUs stopFlag
  StepperMotor.emergencyStop
  StepperMotor.enable

def moveFill (speedHz : ℕ) : Firmware Unit := do
  setValve .input
  settleValve .stopFull
  store .buretteState .filling
  moveToEndstop .liqIn speedHz .stopFull

def moveEmpty (speedHz : ℕ) : Firmware Unit := do
  setValve .output
  settleValve .stopEmpty
  store .buretteState .emptying
  moveToEndstop .liqOut speedHz .stopEmpty

/-- The record `store_result` puts into the queue. -/
def smResult (type : SmResultType) (stepsTaken : ℤ) (measuredSpeed : ℚ) (results : List ℚ)
    (resultCount : ℕ) : SmResult where
  type := type
  stepsTaken := stepsTaken
  measuredSpeedMlMin := measuredSpeed
  results := (List.range 3).map fun i =>
    if i < resultCount ∧ i < Config.maxStoredResults then results.getD i 0 else 0
  resultCount := resultCount

def storeResult (type : SmResultType) (stepsTaken : ℤ) (measuredSpeed : ℚ) (results : List ℚ)
    (resultCount : ℕ) : Firmware Unit := do
  Program.perform
    (.xQueueOverwrite (smResult type stepsTaken measuredSpeed results resultCount))
  wsBroadcast (.motorComplete type stepsTaken)
  store .buretteState .idle

/-- The bounds `execute_move_steps` imposes on the step frequency. -/
def clampStepFreq (speed : ℕ) : ℕ :=
  let speed := if speed < Config.stepFreqMinHz then Config.stepFreqMinHz else speed
  if Config.stepFreqMaxHz < speed then Config.stepFreqMaxHz else speed

theorem clampStepFreq_bounds (speed : ℕ) :
    Config.stepFreqMinHz ≤ clampStepFreq speed ∧ clampStepFreq speed ≤ Config.stepFreqMaxHz := by
  have hrange : Config.stepFreqMinHz ≤ Config.stepFreqMaxHz := by decide
  grind [clampStepFreq]

theorem clampStepFreq_eq {speed : ℕ} (hlow : Config.stepFreqMinHz ≤ speed)
    (hhigh : speed ≤ Config.stepFreqMaxHz) : clampStepFreq speed = speed := by
  grind [clampStepFreq]

/-- The loop of `execute_move_steps`; the loop variable is the number of steps left. -/
def stepsLoop (intervalUs : ℕ) (steps : ℤ) : Firmware Unit :=
  .iterate (fun (remaining : ℤ) => do
    if remaining ≤ 0 then return .inr ()
    else
      taskWdtReset
      if ← poll .loopHead .stopFull then return .inr ()
      else
        let chunk := min remaining.toNat Config.rmtChunkSymbols
        match ← StepperMotor.moveStepsIntervals (List.replicate chunk intervalUs) .stopFull with
        | .error .limitSwitchTriggered =>
          store .buretteState .error
          return .inr ()
        | .error .rmt => return .inr ()
        | .ok () => return .inl (remaining - chunk)) steps

def executeMoveSteps (steps : ℤ) : Firmware Unit := do
  if steps ≤ 0 then return ()
  else
    let dir ← load .direction
    gpioSetLevel .dir dir.level
    vTaskDelay Config.dirSetupMs
    let speed ← load .speed
    let intervalUs ← quotient 1000000 (clampStepFreq speed)
    stepsLoop intervalUs steps

end Ecotiter
