import Ecotiter.OperationMachines
import Ecotiter.InterleavedProgram

/-!
# The memory the tasks share and their atomic actions

`Mem` collects the global atomics, the two queues, the pins, the limit switches, the valve timer and
the calibration keys of the flash. `Act` lists the atomic accesses of the tasks and of the drivers
they call; `Act.run` gives each its effect, with what the hardware or a client contributes taken
from an `Input`. `World` adds the history: every action with its answer and the memory it was
performed in. Logging, watchdog feeding and the broadcast of status are left out.
-/

namespace Ecotiter

inductive Tid
  | main | http | motor | timer
  deriving DecidableEq, Repr

/-- The atomics `gStopFull` and `gStopEmpty`. -/
inductive StopFlag
  | stopFull | stopEmpty
  deriving DecidableEq, Repr

/-- The places at which a running operation reads a stop flag. -/
inductive PollSite
  | settle       -- `settle_valve`
  | loopHead     -- the loops of `move_to_endstop`, `execute_move_steps` and `run_homing`
  | chunk        -- head of the outer loop of `moveStepsIntervals`
  | transmit     -- before `rmt_transmit`
  | wait         -- after a wait for the transmission has timed out
  deriving DecidableEq, Repr

inductive Pin
  | dir | en | valve
  deriving DecidableEq, Repr

inductive Endstop
  | full | empty
  deriving DecidableEq, Repr

/-- The flag the interrupt handler of the switch raises. -/
def Endstop.flag : Endstop → StopFlag
  | .full => .stopFull
  | .empty => .stopEmpty

/-- The endstop a motion in this direction runs towards. -/
def Direction.endstop : Direction → Endstop
  | .liqIn => .full
  | .liqOut => .empty

/-- The level of the DIR pin for a direction. -/
def Direction.level : Direction → Bool
  | .liqIn => true
  | .liqOut => false

/-- A limit switch with a rising-edge interrupt: an edge is pending until its handler runs. -/
structure Switch where
  level : Bool
  installed : Bool := false
  pending : Bool := false
  deriving DecidableEq, Repr

inductive EspErr
  | ok | invalidState | timeout | fail
  deriving DecidableEq, Repr

/-- The global variables that are read and written as a whole. -/
inductive Var : Type → Type
  | buretteState : Var BuretteState
  | valveIsSettling : Var Bool
  | valveTimerArmed : Var Bool
  | direction : Var Direction
  | speed : Var ℕ
  | accel : Var ℕ
  | volumeMl : Var ℚ
  | tempCX100 : Var ℤ
  | lastMv : Var ℕ
  | stallGuardThreshold : Var ℕ
  | valvePosition : Var ValvePosition
  | calCache : Var (Option CalibrationData)
  | pendingCal : Var CalibrationData
  | lastCmdId : Var ℕ
  | homingDone : Var Bool

/-- The flash keys of the burette calibration and of the StallGuard threshold. -/
inductive NvsKey : Type → Type
  | stepsPerMl : NvsKey ℚ
  | nominalVol : NvsKey ℚ
  | speedCoeff : NvsKey ℚ
  | minFreq : NvsKey ℕ
  | maxFreq : NvsKey ℕ
  | calDate : NvsKey ℤ
  | sgThreshold : NvsKey ℕ

structure NvsStore where
  stepsPerMl : Option ℚ := none
  nominalVol : Option ℚ := none
  speedCoeff : Option ℚ := none
  minFreq : Option ℕ := none
  maxFreq : Option ℕ := none
  calDate : Option ℤ := none
  sgThreshold : Option ℕ := none

namespace NvsStore

def get (s : NvsStore) : {α : Type} → NvsKey α → Option α
  | _, .stepsPerMl => s.stepsPerMl
  | _, .nominalVol => s.nominalVol
  | _, .speedCoeff => s.speedCoeff
  | _, .minFreq => s.minFreq
  | _, .maxFreq => s.maxFreq
  | _, .calDate => s.calDate
  | _, .sgThreshold => s.sgThreshold

def set (s : NvsStore) : {α : Type} → NvsKey α → α → NvsStore
  | _, .stepsPerMl, x => { s with stepsPerMl := some x }
  | _, .nominalVol, x => { s with nominalVol := some x }
  | _, .speedCoeff, x => { s with speedCoeff := some x }
  | _, .minFreq, x => { s with minFreq := some x }
  | _, .maxFreq, x => { s with maxFreq := some x }
  | _, .calDate, x => { s with calDate := some x }
  | _, .sgThreshold, x => { s with sgThreshold := some x }

end NvsStore

/-- The initial values are those of `domain/types.hpp` and of `configureGpioPins`. -/
structure Mem where
  buretteState : BuretteState := .idle
  valveIsSettling : Bool := false
  valveTimerArmed : Bool := false
  direction : Direction := .liqIn
  speed : ℕ := Config.defaultSpeedHz
  accel : ℕ := Config.defaultAccelHzPerS
  volumeMl : ℚ := Config.defaultVolumeMl
  tempCX100 : ℤ := -99999
  lastMv : ℕ := 0
  stallGuardThreshold : ℕ := 0
  valvePosition : ValvePosition := .input
  calCache : Option CalibrationData := none
  pendingCal : CalibrationData := .default
  lastCmdId : ℕ := 0
  homingDone : Bool := false
  stopFull : Bool := false
  stopEmpty : Bool := false
  motorCmdQueue : Option (List MotorCommand) := none
  smResultQueue : Option (Option SmResult) := none
  position : ℤ := 0
  dirPin : Bool := false
  enPin : Bool := false
  valvePin : Bool := false
  full : Switch
  empty : Switch
  timerArg : Option ValvePosition := none
  timerPending : Bool := false
  nvs : NvsStore := {}
  aborted : Bool := false

namespace Mem

def get (m : Mem) : {α : Type} → Var α → α
  | _, .buretteState => m.buretteState
  | _, .valveIsSettling => m.valveIsSettling
  | _, .valveTimerArmed => m.valveTimerArmed
  | _, .direction => m.direction
  | _, .speed => m.speed
  | _, .accel => m.accel
  | _, .volumeMl => m.volumeMl
  | _, .tempCX100 => m.tempCX100
  | _, .lastMv => m.lastMv
  | _, .stallGuardThreshold => m.stallGuardThreshold
  | _, .valvePosition => m.valvePosition
  | _, .calCache => m.calCache
  | _, .pendingCal => m.pendingCal
  | _, .lastCmdId => m.lastCmdId
  | _, .homingDone => m.homingDone

def set (m : Mem) : {α : Type} → Var α → α → Mem
  | _, .buretteState, x => { m with buretteState := x }
  | _, .valveIsSettling, x => { m with valveIsSettling := x }
  | _, .valveTimerArmed, x => { m with valveTimerArmed := x }
  | _, .direction, x => { m with direction := x }
  | _, .speed, x => { m with speed := x }
  | _, .accel, x => { m with accel := x }
  | _, .volumeMl, x => { m with volumeMl := x }
  | _, .tempCX100, x => { m with tempCX100 := x }
  | _, .lastMv, x => { m with lastMv := x }
  | _, .stallGuardThreshold, x => { m with stallGuardThreshold := x }
  | _, .valvePosition, x => { m with valvePosition := x }
  | _, .calCache, x => { m with calCache := x }
  | _, .pendingCal, x => { m with pendingCal := x }
  | _, .lastCmdId, x => { m with lastCmdId := x }
  | _, .homingDone, x => { m with homingDone := x }

def flag (m : Mem) : StopFlag → Bool
  | .stopFull => m.stopFull
  | .stopEmpty => m.stopEmpty

def setFlag (m : Mem) : StopFlag → Bool → Mem
  | .stopFull, b => { m with stopFull := b }
  | .stopEmpty, b => { m with stopEmpty := b }

def switch (m : Mem) : Endstop → Switch
  | .full => m.full
  | .empty => m.empty

def setSwitch (m : Mem) : Endstop → Switch → Mem
  | .full, s => { m with full := s }
  | .empty, s => { m with empty := s }

def setPin (m : Mem) : Pin → Bool → Mem
  | .dir, b => { m with dirPin := b }
  | .en, b => { m with enPin := b }
  | .valve, b => { m with valvePin := b }

/-- The queue is created and has room for one more command. -/
def motorQueueHasRoom (m : Mem) : Bool :=
  m.motorCmdQueue.any fun q => q.length < Config.motorCmdQueueLen

end Mem

/-- One symbol of the RMT peripheral. -/
structure RmtSymbol where
  duration0 : ℕ
  level0 : Bool
  duration1 : ℕ
  level1 : Bool
  deriving DecidableEq, Repr

inductive WsEvent
  | motorComplete (type : SmResultType) (steps : ℤ)
  | stallguardResult (reg value : ℕ)
  | valveSettled (position : ValvePosition)
  deriving DecidableEq, Repr

/-- A line of a client, parsed, or the id found in a line that does not parse. -/
inductive Request
  | command (cmd : Command)
  | malformed (id : ℕ)
  deriving DecidableEq

inductive Source
  | ble | serial | httpCommand | httpValvePost | httpValveGet
  deriving DecidableEq, Repr

inductive Act : Type → Type 1
  | load {α : Type} (v : Var α) : Act α
  | store {α : Type} (v : Var α) (x : α) : Act Unit
  | casBuretteState (desired : BuretteState) : Act Bool
  | casValveIsSettling : Act Bool
  | exchangeTimerArmed (b : Bool) : Act Bool
  | assignPendingCal (f : CalibrationData → CalibrationData) : Act Unit
  | poll (site : PollSite) (flag : StopFlag) : Act Bool
  | storeStop (flag : StopFlag) (b : Bool) : Act Unit
  | createMotorCmdQueue : Act Bool
  | createSmResultQueue : Act Unit
  | motorQueueCreated : Act Bool
  | xQueueSend (cmd : MotorCommand) : Act Bool
  | xQueueReceive : Act (Option MotorCommand)
  | xQueueOverwrite (r : SmResult) : Act Unit
  | peekResult : Act (Option SmResult)
  | waitResult : Act (Option SmResult)
  | gpioSetLevel (pin : Pin) (level : Bool) : Act Unit
  | gpioIsrHandlerAdd (e : Endstop) : Act Unit
  | rmtTransmit (symbols : List RmtSymbol) : Act EspErr
  | rmtTxWaitAllDone (timeoutMs : ℕ) : Act EspErr
  | positionFetchAdd (n : ℕ) : Act Unit
  | positionLoad : Act ℤ
  | positionStore (n : ℤ) : Act Unit
  | vTaskDelay (ms : ℕ) : Act Unit
  | xTaskGetTickCount : Act ℕ
  | taskWdtReset : Act Unit
  | wsBroadcast (event : WsEvent) : Act Unit
  | tmcConnected : Act Bool
  | tmcWriteRegister (reg value : ℕ) : Act Unit
  | tmcReadRegister (reg : ℕ) : Act (Option ℕ)
  | nvsOpen (readWrite : Bool) : Act Bool
  | nvsGet {α : Type} (k : NvsKey α) : Act (Option α)
  | nvsSet {α : Type} (k : NvsKey α) (x : α) : Act Bool
  | espTimerIsCreated : Act Bool
  | espTimerCreate (arg : ValvePosition) : Act EspErr
  | espTimerStop : Act EspErr
  | espTimerStartOnce : Act EspErr
  | espTimerExpired : Act (Option ValvePosition)
  | abort : Act Unit
  | receiveRequest (source : Source) : Act (Option Request)
  | respond (rsp : CommandResponse) : Act Unit
  | resultLine (id : ℕ) (r : SmResult) (volumeDispensedMl : Option ℚ) : Act Unit
  | handledElsewhere : Act Bool

/-- What the surroundings contribute to one action; an action ignores what does not concern it. -/
inductive Input
  | nothing
  | err (e : EspErr)
  | value (n : ℕ)
  | request (r : Request)
  deriving DecidableEq

namespace Input

def espErr : Input → EspErr
  | .err e => e
  | _ => .ok

def nat : Input → ℕ
  | .value n => n
  | _ => 0

end Input

end Ecotiter
