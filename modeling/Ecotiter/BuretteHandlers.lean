import Ecotiter.MotorTask

/-!
# The handlers of the burette and valve commands

`handlers/burette_ops.cpp`, `handlers/valve.cpp` and the settle timer of `drivers/valve.cpp`. A
handler claims the burette by moving `gBuretteState` out of idle and hands its claim over to the
motor task with the command it enqueues.
-/

namespace Ecotiter
open Interleaving Firmware

def sendMotorCommand (cmd : MotorCommand) : Firmware Bool := do
  if ← Program.perform .motorQueueCreated then Program.perform (.xQueueSend cmd)
  else return false

/-- The opening shared by the handlers that start an operation. -/
def claimBurette (state : BuretteState) (next : Firmware CommandResponse) :
    Firmware CommandResponse := do
  if ← load .valveIsSettling then return makeErrorResponse "burette_busy"
  else if ← Program.perform (.casBuretteState state) then next
  else return makeErrorResponse "burette_busy"

/-- The ending shared by the handlers that start an operation: a command that does not fit into the
queue puts idle back. -/
def enqueueClaimed (cmd : MotorCommand) (accepted : CommandResponse) (fullMessage : String) :
    Firmware CommandResponse := do
  if ← sendMotorCommand cmd then return accepted
  else
    store .buretteState .idle
    return makeErrorResponse fullMessage

namespace BuretteOps

def handleFill : Firmware CommandResponse :=
  claimBurette .filling do
    match ← load .calCache with
    | none => return makeErrorResponse "start_failed"
    | some cal =>
      let steps := lround (cal.nominalVolumeMl * cal.stepsPerMl)
      store .direction .liqIn
      let speedHz ← load .speed
      let accelHzPerS ← load .accel
      enqueueClaimed
        { type := .moveSteps, steps, direction := .liqIn, speedHz, accelHzPerS }
        makeAckThenResponse "busy"

def handleEmpty : Firmware CommandResponse :=
  claimBurette .emptying do
    match ← load .calCache with
    | none => return makeErrorResponse "start_failed"
    | some cal =>
      let curVol ← load .volumeMl
      let steps := lround (curVol * cal.stepsPerMl)
      let steps := if steps < Config.minStepsThreshold
        then lround (cal.nominalVolumeMl * cal.stepsPerMl) else steps
      store .direction .liqOut
      let speedHz ← load .speed
      let accelHzPerS ← load .accel
      enqueueClaimed
        { type := .moveSteps, steps, direction := .liqOut, speedHz, accelHzPerS }
        makeAckThenResponse "busy"

/-- The frequency of a dose: the configured one, unless a speed above 0.1 ml/min is given. -/
def doseSpeedHz (speedHz : ℕ) (speedMlMin : Option ℚ) (cal : CalibrationData) : ℕ :=
  match speedMlMin with
  | some s => if 1 / 10 < s then speedMlMinToHz s cal else speedHz
  | none => speedHz

def handleDoseVolume (volume speedMlMin : Option ℚ) : Firmware CommandResponse :=
  match volume with
  | none => return makeErrorResponse "invalid_params"
  | some volume =>
    claimBurette .dosing do
      match ← load .calCache with
      | none => return makeErrorResponse "start_failed"
      | some cal =>
        let currentVol ← load .volumeMl
        let plan := planDose volume currentVol cal
        if !plan.valid then return makeErrorResponse "invalid_params"
        else
          let speed ← load .speed
          let speedHz := doseSpeedHz speed speedMlMin cal
          let steps := lround (plan.firstCycleVolMl * cal.stepsPerMl)
          store .direction .liqIn
          let accelHzPerS ← load .accel
          enqueueClaimed
            { type := .moveSteps, steps, direction := .liqIn, speedHz, accelHzPerS }
            makeAckThenResponse "busy"

def handleRinse (cycles : Option ℕ) : Firmware CommandResponse :=
  match cycles with
  | none | some 0 => return makeErrorResponse "invalid_params"
  | some cycles =>
    claimBurette .rinsing do
      match ← load .calCache with
      | none => return makeErrorResponse "start_failed"
      | some _ =>
        enqueueClaimed
          { type := .startRinse, startRinse := ⟨toU8 cycles, Config.rinseDefaultSpeedMlMin⟩ }
          makeAckThenResponse "busy"

/-- The seven characters of the mode that the handler copies, up to a terminating zero. -/
def modeBuf (mode : String) : String :=
  String.ofList ((mode.toList.take 7).takeWhile (· ≠ Char.ofNat 0))

/-- The frequency of a calibration run, zero if none is given. -/
def calRunFreqHz : Option ℚ → ℕ
  | some f => if 0 < f then toU16 (lround f) else 0
  | none => 0

def calRunCommand (plan : CalRunPlan) : MotorCommand :=
  if plan.action = .calDose then
    { type := .startCalDose, startCalDose := ⟨plan.speedMlMin⟩ }
  else
    { type := .startCalSpeed, startCalSpeed := ⟨plan.speedMlMin, plan.freqHz⟩ }

def handleCalRun (mode : Option String) (freqHz speedMlMin : Option ℚ) :
    Firmware CommandResponse :=
  match mode with
  | none => return makeErrorResponse "invalid_params"
  | some mode => do
    if ← load .valveIsSettling then return makeErrorResponse "burette_busy"
    else
      match ← load .calCache with
      | none => return makeErrorResponse "start_failed"
      | some cal =>
        let state ← load .buretteState
        let plan := planCalRun (modeBuf mode) (speedMlMin.getD 0) (calRunFreqHz freqHz)
          cal.maxFreqHz cal.speedCoeff (state ≠ .idle)
        if plan.action = .reject then
          return makeErrorResponse
            (if plan.rejectReason = .buretteBusy then "burette_busy" else "invalid_params")
        else if ← Program.perform (.casBuretteState .dosing) then
          enqueueClaimed (calRunCommand plan) makeAckThenResponse "busy"
        else return makeErrorResponse "burette_busy"

def stoppedPayload : String := "\x7b\"status\":\"stopped\"\x7d"

def handleStop : Firmware CommandResponse := do
  if ← load .valveIsSettling then return makeErrorResponse "valve_settling_try_again"
  else if ← Program.perform (.casBuretteState .stopping) then
    enqueueClaimed { type := .stop } (makeSingleResponse stoppedPayload) "busy"
  else return makeErrorResponse "burette_busy"

def emergencyStoppedPayload : String := "\x7b\"status\":\"emergency_stopped\"\x7d"

def handleEmergencyStop : Firmware CommandResponse := do
  cancelValveSettleTimer
  store .valveIsSettling false
  let _ ← Program.perform (.casBuretteState .error)
  storeStop .stopFull true
  if ← sendMotorCommand { type := .emergencyStop } then
    return makeSingleResponse emergencyStoppedPayload
  else return makeErrorResponse "busy"

def handleGetStatus : Firmware CommandResponse := do
  let state ← load .buretteState
  let _ ← load .tempCX100
  let _ ← load .valvePosition
  let _ ← load .lastMv
  let _ ← load .direction
  let _ ← load .speed
  let _ ← load .accel
  let volumeMl ← load .volumeMl
  return { body := .buretteStatus state (if state = .homing then none else some volumeMl) }

def handleMoveSteps (steps : Option ℤ) : Firmware CommandResponse :=
  match steps with
  | none => return makeErrorResponse "invalid_params"
  | some steps =>
    claimBurette .dosing
      (enqueueClaimed { type := .moveSteps, steps } makeAckThenResponse "busy")

def statusOk : String := "\x7b\"status\":\"ok\"\x7d"

/-- The body shared by the three setters: the value is published and then sent to the motor task,
if the burette looks idle. -/
def applySetting {α : Type} (v : Var α) (x : α) (cmd : MotorCommand) :
    Firmware CommandResponse := do
  if ← load .valveIsSettling then return makeErrorResponse "burette_busy"
  else if (← load .buretteState) ≠ .idle then return makeErrorResponse "burette_busy"
  else
    store v x
    if ← sendMotorCommand cmd then return makeSingleResponse statusOk
    else return makeErrorResponse "busy"

def handleSetDirection (dir : Option Direction) : Firmware CommandResponse :=
  match dir with
  | none => return makeErrorResponse "invalid_params"
  | some direction => applySetting .direction direction { type := .setDirection, direction }

def handleSetSpeed (speedHz : Option ℕ) : Firmware CommandResponse :=
  match speedHz with
  | none => return makeErrorResponse "invalid_params"
  | some speedHz => applySetting .speed speedHz { type := .setSpeed, speedHz }

def handleSetAccel (accelSteps : Option ℕ) : Firmware CommandResponse :=
  match accelSteps with
  | none => return makeErrorResponse "invalid_params"
  | some accelHzPerS => applySetting .accel accelHzPerS { type := .setAccel, accelHzPerS }

def handleMoveContinuous (dir : Option Direction) (freqHz : Option ℕ) :
    Firmware CommandResponse :=
  match dir, freqHz with
  | some direction, some speedHz =>
    if speedHz = 0 then return makeErrorResponse "invalid_params"
    else
      claimBurette .dosing
        (enqueueClaimed { type := .moveContinuous, direction, speedHz } makeAckThenResponse "busy")
  | _, _ => return makeErrorResponse "invalid_params"

end BuretteOps

/-- `ESP_ERROR_CHECK`. -/
def espErrorCheck (err : EspErr) : Firmware Unit := do
  if err ≠ .ok then Program.perform .abort

/-- The timer is created once, with the first position as its argument, and stopped if it is still
armed later on. -/
def prepareValveSettleTimer (pos : ValvePosition) : Firmware Unit := do
  if ← Program.perform .espTimerIsCreated then
    if ← Program.perform (.exchangeTimerArmed true) then
      let err ← Program.perform .espTimerStop
      if err ≠ .ok ∧ err ≠ .invalidState then Program.perform .abort
  else
    let err ← Program.perform (.espTimerCreate pos)
    espErrorCheck err

def armValveSettleTimer (pos : ValvePosition) : Firmware Unit := do
  prepareValveSettleTimer pos
  let err ← Program.perform .espTimerStartOnce
  espErrorCheck err

/-- `valveSettleCallback`. -/
def valveSettleCallback (pos : ValvePosition) : Firmware Unit := do
  wsBroadcast (.valveSettled pos)
  store .valveIsSettling false
  store .valveTimerArmed false

namespace ValveHandlers

def handleSetPosition (pos : Option ValvePosition) : Firmware CommandResponse :=
  match pos with
  | none => return makeErrorResponse "invalid_params"
  | some pos => do
    if (← load .buretteState) ≠ .idle then return makeErrorResponse "burette_busy"
    else if ← Program.perform .casValveIsSettling then
      setValve pos
      armValveSettleTimer pos
      return { body := .position pos }
    else return makeErrorResponse "burette_busy"

def handleGetState : Firmware CommandResponse := do
  let pos ← load .valvePosition
  return { body := .position pos }

end ValveHandlers
end Ecotiter
