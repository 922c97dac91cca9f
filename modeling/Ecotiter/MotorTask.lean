import Ecotiter.OperationRunners

/-!
# The motor task

`motor/task.cpp` and `motor/homing.cpp`: the task creates its queues, installs the limit switches,
homes towards the FULL switch and then executes the commands of its queue one at a time.
-/

namespace Ecotiter
open Interleaving Firmware

def homingTimeoutMs : ℕ := 2000
def homeIntervalUs : ℕ := 1000000 / 1500

/-- The variables of the homing loop. -/
structure HomingState where
  homed : Bool := false
  timedOut : Bool := false
  error : Bool := false

/-- `checkHomingTermination`, with the variables it sets. -/
def checkHomingTermination (startTick : ℕ) (s : HomingState) : Firmware (Bool × HomingState) := do
  if ← poll .loopHead .stopFull then return (true, { s with homed := true })
  else
    let now ← Program.perform .xTaskGetTickCount
    if homingTimeoutMs ≤ subU32 now startTick then return (true, { s with timedOut := true })
    else return (false, s)

/-- The loop of `run_homing`. -/
def homingLoop (startTick : ℕ) : Firmware HomingState :=
  .iterate (fun s => do
    if s.homed ∨ s.timedOut ∨ s.error then return .inr s
    else
      taskWdtReset
      let (done, s) ← checkHomingTermination startTick s
      if done then return .inr s
      else
        match ← StepperMotor.moveStepsIntervals
          (List.replicate Config.rmtChunkSymbols homeIntervalUs) .stopFull with
        | .error .rmt =>
          store .buretteState .error
          return .inr { s with error := true }
        | .error .limitSwitchTriggered =>
          let (_, s) ← checkHomingTermination startTick { s with homed := true }
          return .inl s
        | .ok () =>
          let (_, s) ← checkHomingTermination startTick s
          return .inl s) {}

def postHomingCleanup (s : HomingState) : Firmware Unit := do
  StepperMotor.emergencyStop
  StepperMotor.enable
  if s.error then return ()
  else
    if s.homed then
      StepperMotor.setCurrentPosition 0
      storeStop .stopFull false
    store .buretteState .idle

/-- `run_homing`; the flag of the switch it is given is cleared together with `gStopFull`. -/
def runHoming (switch : Endstop) : Firmware Unit := do
  let _ ← load .buretteState
  store .buretteState .homing
  gpioSetLevel .dir true
  storeStop switch.flag false
  storeStop .stopFull false
  let startTime ← Program.perform .xTaskGetTickCount
  let s ← homingLoop startTime
  postHomingCleanup s

def cancelValveSettleTimer : Firmware Unit := do
  if ← Program.perform (.exchangeTimerArmed false) then
    if ← Program.perform .espTimerIsCreated then
      let err ← Program.perform .espTimerStop
      if err ≠ .ok ∧ err ≠ .invalidState then Program.perform .abort

namespace MotorTask

def handleMoveSteps (cmd : MotorCommand) : Firmware Unit := do
  let stepsBefore ← StepperMotor.position
  executeMoveSteps cmd.steps
  let pos ← StepperMotor.position
  let stepsTaken := toI32 (pos - stepsBefore)
  storeResult .none (if stepsTaken < 0 then toI32 (-stepsTaken) else stepsTaken) 0 [] 0

def handleMoveContinuous (cmd : MotorCommand) : Firmware Unit := do
  moveToEndstop cmd.direction cmd.speedHz .stopFull
  storeResult .none 0 0 [] 0

def handleStop : Firmware Unit := do
  store .buretteState .stopping
  storeStop .stopFull true
  vTaskDelay Config.stopSettleMs
  storeStop .stopFull false
  store .buretteState .idle

def handleEmergencyStop : Firmware Unit := do
  cancelValveSettleTimer
  store .valveIsSettling false
  storeStop .stopFull true
  storeStop .stopEmpty true
  store .buretteState .error

/-- The `Home` command is given the EMPTY switch; no handler sends it. -/
def handleHome : Firmware Unit := runHoming .empty

def handleSetDirection (cmd : MotorCommand) : Firmware Unit := do
  store .direction cmd.direction
  gpioSetLevel .dir cmd.direction.level

def handleSetSpeed (cmd : MotorCommand) : Firmware Unit := do
  if Config.stepFreqMinHz ≤ cmd.speedHz ∧ cmd.speedHz ≤ Config.stepFreqMaxHz then
    store .speed cmd.speedHz

def handleSetAccel (cmd : MotorCommand) : Firmware Unit := store .accel cmd.accelHzPerS

def tmcRegSgthrs : ℕ := 0x40

def handleSetStallThreshold (cmd : MotorCommand) : Firmware Unit := do
  store .stallGuardThreshold cmd.stallThreshold
  Program.perform (.tmcWriteRegister tmcRegSgthrs cmd.stallThreshold)

/-- The volumes a runner is started with: the nominal volume of a value-initialised calibration and
the published volume. -/
def runnerVolumes : Firmware (ℚ × ℚ) := do
  let curVol ← load .volumeMl
  return (curVol, CalibrationData.zero.nominalVolumeMl)

def handleStartRinse (cmd : MotorCommand) : Firmware Unit := do
  store .buretteState .rinsing
  let (curVol, nominalVol) ← runnerVolumes
  runRinseSm cmd.startRinse.speedMlMin cmd.startRinse.cycles curVol nominalVol

def handleStartCalDose (cmd : MotorCommand) : Firmware Unit := do
  store .buretteState .dosing
  let (curVol, nominalVol) ← runnerVolumes
  runCalDoseSm cmd.startCalDose.speedMlMin curVol nominalVol

def handleStartCalSpeed (cmd : MotorCommand) : Firmware Unit := do
  store .buretteState .dosing
  let (curVol, nominalVol) ← runnerVolumes
  runCalSpeedSm cmd.startCalSpeed.speedMlMin cmd.startCalSpeed.testFreqHz curVol nominalVol

def handleStartCalSpeedSeq (cmd : MotorCommand) : Firmware Unit := do
  store .buretteState .dosing
  let (curVol, nominalVol) ← runnerVolumes
  runCalSpeedSeqSm cmd.startCalSpeedSeq.freqs cmd.startCalSpeedSeq.fillSpeedMlMin curVol nominalVol

def handleReadTmcRegister (cmd : MotorCommand) : Firmware Unit := do
  match ← Program.perform (.tmcReadRegister cmd.readTmcReg) with
  | some value => wsBroadcast (.stallguardResult cmd.readTmcReg value)
  | none => return ()

def handle (cmd : MotorCommand) : Firmware Unit :=
  match cmd.type with
  | .moveSteps => handleMoveSteps cmd
  | .moveContinuous => handleMoveContinuous cmd
  | .stop => handleStop
  | .emergencyStop => handleEmergencyStop
  | .home => handleHome
  | .setDirection => handleSetDirection cmd
  | .setSpeed => handleSetSpeed cmd
  | .setAccel => handleSetAccel cmd
  | .setStallThreshold => handleSetStallThreshold cmd
  | .startRinse => handleStartRinse cmd
  | .startCalDose => handleStartCalDose cmd
  | .startCalSpeed => handleStartCalSpeed cmd
  | .startCalSpeedSeq => handleStartCalSpeedSeq cmd
  | .readTmcRegister => handleReadTmcRegister cmd

def createMotorQueues : Firmware Bool := do
  if ← Program.perform .createMotorCmdQueue then
    Program.perform .createSmResultQueue
    return true
  else return false

def configureTmcUart : Firmware Unit := do
  if ← Program.perform .tmcConnected then
    Program.perform (.tmcWriteRegister 0x00 0x00000041)
    Program.perform (.tmcWriteRegister 0x6C 0x00002104)
    Program.perform (.tmcWriteRegister 0x42 0x00002205)
    Program.perform (.tmcWriteRegister 0x14 0x000FFFFF)
    Program.perform (.tmcWriteRegister 0x70 0x00010014)
    let sg ← load .stallGuardThreshold
    Program.perform (.tmcWriteRegister tmcRegSgthrs sg)

/-- The loop that executes the queued commands; it is never left. -/
def commandLoop : Firmware Unit :=
  .iterate (fun _ => do
    taskWdtReset
    match ← Program.perform .xQueueReceive with
    | some cmd =>
      handle cmd
      return .inl ()
    | none => return .inl ()) ()

def motorTaskEntry : Firmware Unit := do
  if ← createMotorQueues then
    Program.perform (.gpioIsrHandlerAdd .empty)
    Program.perform (.gpioIsrHandlerAdd .full)
    configureTmcUart
    runHoming .full
    store .homingDone true
    commandLoop

end MotorTask
end Ecotiter
