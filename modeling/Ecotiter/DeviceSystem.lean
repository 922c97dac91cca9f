import Ecotiter.CalibrationHandlers

/-!
# Dispatch, the clients and the device as a whole

`dispatch.cpp`, the command and result part of the loop in `main.cpp`, the request handlers of
`rest_api.cpp` and the timer task that runs `valveSettleCallback`. The main loop serves BLE and
serial lines and writes result lines; the HTTP server runs concurrently. Commands whose handlers do
not touch the memory modelled here are answered by `handledElsewhere`.
-/

namespace Ecotiter
open Interleaving Firmware

/-- `withId`. -/
def withId (cmd : Command) (handler : Firmware CommandResponse) : Firmware CommandResponse := do
  let rsp ← handler
  return { rsp with id := cmd.id }

def handledElsewhere : Firmware CommandResponse := do
  let answered ← Program.perform .handledElsewhere
  return { kind := if answered then .single else .error, body := .elsewhere }

/-- The handler `dispatch` calls for a command, with the parameters it passes. -/
def handlerOf (cmd : Command) : Firmware CommandResponse :=
  match cmd.type with
  | .fill => BuretteOps.handleFill
  | .empty => BuretteOps.handleEmpty
  | .doseVolume => BuretteOps.handleDoseVolume cmd.volume cmd.speedMlMin
  | .rinse => BuretteOps.handleRinse (cmd.volume.map toU32)
  | .stop => BuretteOps.handleStop
  | .moveToStop => BuretteOps.handleMoveContinuous cmd.direction (cmd.freqHz.map toU32)
  | .emergencyStop => BuretteOps.handleEmergencyStop
  | .getStatus => BuretteOps.handleGetStatus
  | .moveSteps => BuretteOps.handleMoveSteps cmd.steps
  | .setDirection => BuretteOps.handleSetDirection cmd.direction
  | .setSpeed => BuretteOps.handleSetSpeed cmd.speed
  | .setAccel => BuretteOps.handleSetAccel cmd.accel
  | .calGet => BuretteCal.handleGetCalibration
  | .calCalcVolume => BuretteCal.handleCalcVolume cmd.massG cmd.temperature cmd.pressure
  | .calCalcSpeed => BuretteCal.handleCalcSpeed cmd.measurements
  | .calSave => BuretteCal.handleSaveCalibration cmd.volume cmd.targetVolume
  | .calReset => BuretteCal.handleResetCalibration
  | .calRun => BuretteOps.handleCalRun cmd.mode cmd.freqHz cmd.speedMlMin
  | .calGetResult => BuretteCal.handleGetCalResult
  | .calRunSpeedSeq => BuretteCal.handleRunCalibration cmd.freqsArray (cmd.speedMlMin.getD 20)
  | .stallGuardGet => StallGuard.handleStallGuardGet
  | .stallGuardSetThreshold => StallGuard.handleStallGuardSetThreshold cmd.sgThreshold
  | .valveSetPosition => ValveHandlers.handleSetPosition cmd.valvePos
  | .valveGetState => ValveHandlers.handleGetState
  | .systemGetStatus => BuretteOps.handleGetStatus
  | .tempRead | .adcCalGet | .adcCalSave | .adcCalMeasure | .adcCalCompute | .adcCalReset
  | .systemGetFormattedLogs | .systemReadLog | .systemFirmwareVersion | .serialPing =>
    handledElsewhere

def dispatch (cmd : Command) : Firmware CommandResponse := withId cmd (handlerOf cmd)

namespace MainLoop

def sendResponse (rsp : CommandResponse) : Firmware Unit := .perform (.respond rsp)

/-- One line of a serial or BLE client. -/
def handleLine : Request → Firmware Unit
  | .command cmd => do
    let rsp ← dispatch cmd
    if rsp.kind = .ackThen then store .lastCmdId cmd.id
    sendResponse rsp
  | .malformed id => sendResponse { makeErrorResponse "invalid_params" with id }

def drainBle : Firmware Unit :=
  .iterate (fun _ => do
    match ← Program.perform (.receiveRequest .ble) with
    | some line =>
      handleLine line
      return .inl ()
    | none => return .inr ()) ()

/-- The volume `formatSmResult` computes for results that count steps. -/
def dispensedVolume (r : SmResult) : Firmware (Option ℚ) := do
  if (r.type = .none ∧ 0 < r.stepsTaken) ∨ r.type = .calDoseComplete then
    let cal ← calibrationRead
    return some ((cal.map fun cal => (r.stepsTaken : ℚ) / cal.stepsPerMl).getD 0)
  else return none

def drainResult : Firmware Unit := do
  match ← Program.perform .waitResult with
  | some smResult =>
    let resultId ← load .lastCmdId
    let volume ← dispensedVolume smResult
    Program.perform (.resultLine resultId smResult volume)
  | none => return ()

/-- The loop of `app_main`. -/
def appMain : Firmware Unit :=
  .iterate (fun _ => do
    drainBle
    match ← Program.perform (.receiveRequest .serial) with
    | some line => handleLine line
    | none => pure ()
    drainResult
    vTaskDelay 10
    return .inl ()) ()

end MainLoop

namespace RestApi

/-- `command_handler`: an accepted command is answered at once, without an id. -/
def commandHandler : Request → Firmware Unit
  | .command cmd => do
    let rsp ← dispatch cmd
    Program.perform (.respond (if rsp.kind = .ackThen then makeAckThenResponse else rsp))
  | .malformed _ => Program.perform (.respond (makeErrorResponse "Protocol error"))

/-- `handleCommandCore`, which the valve routes call with a command they build themselves. -/
def handleCommandCore (cmd : Command) : Firmware Unit := do
  let rsp ← dispatch cmd
  Program.perform (.respond rsp)

def valvePostHandler : Request → Firmware Unit
  | .command cmd =>
    match cmd.valvePos with
    | some pos => handleCommandCore { type := .valveSetPosition, valvePos := some pos }
    | none => Program.perform (.respond (makeErrorResponse "missing_position"))
  | .malformed _ => Program.perform (.respond (makeErrorResponse "invalid_json"))

def valveGetHandler : Firmware Unit := handleCommandCore { type := .valveGetState }

/-- The HTTP server task, on the routes that reach `dispatch`. -/
def serve : Firmware Unit :=
  .iterate (fun _ => do
    match ← Program.perform (.receiveRequest .httpCommand) with
    | some req => commandHandler req
    | none => pure ()
    match ← Program.perform (.receiveRequest .httpValvePost) with
    | some req => valvePostHandler req
    | none => pure ()
    match ← Program.perform (.receiveRequest .httpValveGet) with
    | some _ => valveGetHandler
    | none => pure ()
    return .inl ()) ()

end RestApi

/-- The timer task of the platform. -/
def timerTask : Firmware Unit :=
  .iterate (fun _ => do
    match ← Program.perform .espTimerExpired with
    | some pos =>
      valveSettleCallback pos
      return .inl ()
    | none => return .inl ()) ()

/-- What is found at power-up: the flash, the calibration `app_main` reads from it into the cache,
and the levels of the two switches. -/
structure Boot where
  nvs : NvsStore := {}
  calCache : Option CalibrationData := some .default
  stallGuardThreshold : ℕ := 0
  fullLevel : Bool := false
  emptyLevel : Bool := false

def Boot.world (b : Boot) : World where
  mem :=
    { nvs := b.nvs, calCache := b.calCache, stallGuardThreshold := b.stallGuardThreshold
      full := { level := b.fullLevel }, empty := { level := b.emptyLevel } }
  past := []

def taskOf : Tid → Firmware Unit
  | .main => MainLoop.appMain
  | .http => RestApi.serve
  | .motor => MotorTask.motorTaskEntry
  | .timer => timerTask

/-- The device when the tasks have been created. -/
def Boot.config (b : Boot) : Config Act Tid World := ⟨b.world, taskOf⟩

/-- The configurations that runs from power-up reach. -/
def Reachable (b : Boot) (c : Config Act Tid World) : Prop :=
  Steps (.any device) b.config c

end Ecotiter
