import Mathlib.Algebra.Ring.Rat
import Mathlib.Data.Nat.Notation

/-!
# Domain types of the burette controller

The enumerations and records of `domain/types.hpp`, `domain/motor_command.hpp`,
`domain/sm_result.hpp` and `domain/command_types.hpp`, the constants of `infrastructure/config.hpp`
and the transition table of `BuretteController`. A `float` is an exact rational, an unsigned
integer a natural number; casts that can lose bits are written out where they happen.
-/

namespace Ecotiter

inductive Direction
  | liqIn | liqOut
  deriving DecidableEq, Repr

inductive ValvePosition
  | input | output
  deriving DecidableEq, Repr

inductive BuretteState
  | idle | homing | filling | emptying | dosing | rinsing | stopping | error
  deriving DecidableEq, Repr

/-- Neither at rest nor in the error state. -/
def BuretteState.isBusy : BuretteState → Bool
  | .idle | .error => false
  | _ => true

inductive BuretteCommand
  | fill | dose | empty | rinse | stop | emergencyStop | reset
  deriving DecidableEq, Repr

inductive StateError
  | invalidTransition | busy
  deriving DecidableEq, Repr

/-- `BuretteController`: the state machine of `domain/burette.cpp`. -/
structure BuretteController where
  state : BuretteState
  deriving DecidableEq, Repr

namespace BuretteController

def validateTransition (b : BuretteController) (cmd : BuretteCommand) : Except StateError Unit :=
  if cmd = .stop ∨ cmd = .emergencyStop then
    if b.state = .idle then .error .invalidTransition else .ok ()
  else if cmd = .reset then
    if b.state ≠ .error then .error .invalidTransition else .ok ()
  else if b.state ≠ .idle then .error .busy
  else .ok ()

def transition (b : BuretteController) (cmd : BuretteCommand) :
    Except StateError BuretteController := do
  b.validateTransition cmd
  match cmd with
  | .fill => return ⟨.filling⟩
  | .dose => return ⟨.dosing⟩
  | .empty => return ⟨.emptying⟩
  | .rinse => return ⟨.rinsing⟩
  | .stop | .emergencyStop => return ⟨.stopping⟩
  | .reset => return ⟨.idle⟩

/-- The table allows a stop from every state except idle. -/
theorem transition_stop (b : BuretteController) :
    b.transition .stop = .ok ⟨.stopping⟩ ↔ b.state ≠ .idle := by
  obtain ⟨s⟩ := b
  cases s <;> decide

end BuretteController

inductive MotorCommandType
  | moveSteps | moveContinuous | stop | emergencyStop | home | setDirection | setSpeed | setAccel
  | setStallThreshold | startRinse | startCalDose | startCalSpeed | startCalSpeedSeq
  | readTmcRegister
  deriving DecidableEq, Repr

structure StartRinseParams where
  cycles : ℕ
  speedMlMin : ℚ
  deriving DecidableEq, Repr

structure StartCalDoseParams where
  speedMlMin : ℚ
  deriving DecidableEq, Repr

structure StartCalSpeedParams where
  speedMlMin : ℚ
  testFreqHz : ℕ
  deriving DecidableEq, Repr

structure StartCalSpeedSeqParams where
  freqs : List ℕ
  fillSpeedMlMin : ℚ
  deriving DecidableEq, Repr

/-- What a handler puts into the motor command queue; `freqs` has three entries. The defaults are
those of the value initialisation `MotorCommand cmd{}`. -/
structure MotorCommand where
  type : MotorCommandType := .moveSteps
  steps : ℤ := 0
  direction : Direction := .liqIn
  speedHz : ℕ := 0
  accelHzPerS : ℕ := 0
  stallThreshold : ℕ := 0
  startRinse : StartRinseParams := ⟨0, 0⟩
  startCalDose : StartCalDoseParams := ⟨0⟩
  startCalSpeed : StartCalSpeedParams := ⟨0, 0⟩
  startCalSpeedSeq : StartCalSpeedSeqParams := ⟨[0, 0, 0], 0⟩
  readTmcReg : ℕ := 0
  deriving DecidableEq

namespace MotorCommandType

/-- The types whose execution ends with a result in the result queue. -/
def producesResult : MotorCommandType → Bool
  | .moveSteps | .moveContinuous | .startRinse | .startCalDose | .startCalSpeed
  | .startCalSpeedSeq => true
  | _ => false

/-- The types whose execution ends with `gBuretteState` set to idle. -/
def restoresIdle : MotorCommandType → Bool
  | .stop | .home => true
  | t => t.producesResult

theorem restoresIdle_of_producesResult {t : MotorCommandType} (h : t.producesResult = true) :
    t.restoresIdle = true := by
  cases t <;> first | rfl | cases h

end MotorCommandType

inductive SmResultType
  | none | rinseComplete | calDoseComplete | calSpeedComplete | calSpeedSeqComplete | error
  deriving DecidableEq, Repr

structure SmResult where
  type : SmResultType
  stepsTaken : ℤ
  measuredSpeedMlMin : ℚ
  results : List ℚ
  resultCount : ℕ
  deriving DecidableEq, Repr

inductive CommandType
  | fill | empty | doseVolume | rinse | stop | emergencyStop | getStatus | moveSteps
  | setDirection | setSpeed | setAccel
  | calGet | calCalcVolume | calCalcSpeed | calSave | calReset | calRun | calGetResult
  | calRunSpeedSeq | moveToStop
  | tempRead | adcCalGet | adcCalSave | adcCalMeasure | adcCalCompute | adcCalReset
  | stallGuardGet | stallGuardSetThreshold
  | valveSetPosition | valveGetState
  | systemGetStatus | systemGetFormattedLogs | systemReadLog | systemFirmwareVersion
  | serialPing
  deriving DecidableEq, Repr

/-- A parsed command line. The two fixed arrays with their counts are lists. -/
structure Command where
  type : CommandType
  volume : Option ℚ := none
  steps : Option ℤ := none
  direction : Option Direction := none
  speed : Option ℕ := none
  accel : Option ℕ := none
  speedMlMin : Option ℚ := none
  targetVolume : Option ℚ := none
  valvePos : Option ValvePosition := none
  sgThreshold : Option ℕ := none
  mode : Option String := none
  freqHz : Option ℚ := none
  massG : Option ℚ := none
  temperature : Option ℚ := none
  pressure : Option ℚ := none
  refMv : Option ℚ := none
  id : ℕ := 0
  measurements : List (ℚ × ℚ) := []
  freqsArray : List ℚ := []
  deriving DecidableEq

inductive ResponseKind
  | single | error | ackThen | noResponse
  deriving DecidableEq, Repr

theorem ResponseKind.single_ne_error : ResponseKind.single ≠ .error := by decide

/-- The value of a `float` or `double` where a division by zero can be behind it. -/
inductive Double
  | finite (x : ℚ) | posInf | negInf | nan
  deriving DecidableEq, Repr

namespace Double

/-- The quotient; a zero divisor is a positive zero. -/
def div (x y : ℚ) : Double :=
  if y ≠ 0 then .finite (x / y) else if x = 0 then .nan else if 0 < x then .posInf else .negInf

/-- The product with a positive number and a sum. -/
def mulAdd (a b : ℚ) : Double → Double
  | .finite x => .finite (x * a + b)
  | x => x

end Double

/-- The contents of a response body, before it is printed. -/
inductive ResponseBody
  | status (payload : String)
  | error (message : String)
  | accepted
  | position (pos : ValvePosition)
  | buretteStatus (state : BuretteState) (volumeMl : Option ℚ)
  | calibration (stepsPerMl nominalVolumeMl speedCoeff : ℚ) (minFreqHz maxFreqHz : ℕ)
  | volumeCalibration (zFactor actualVolumeMl newStepsPerMl : ℚ) (relativeErrorPct : Double)
  | speedCalibration (k rSquared : ℚ) (minFreqHz maxFreqHz : ℕ)
  | savedCalibration (stepsPerMl nominalVolumeMl : ℚ)
  | calResult (result : Option SmResult)
  | registersQueued
  | threshold (value : ℕ)
  | elsewhere
  deriving DecidableEq

structure CommandResponse where
  kind : ResponseKind := .single
  id : ℕ := 0
  body : ResponseBody
  deriving DecidableEq

def makeErrorResponse (message : String) : CommandResponse :=
  { kind := .error, body := .error message }

def makeAckThenResponse : CommandResponse :=
  { kind := .ackThen, body := .accepted }

def makeSingleResponse (payload : String) : CommandResponse :=
  { kind := .single, body := .status payload }

namespace Config

def rmtChunkSymbols : ℕ := 128
def stepFreqMinHz : ℕ := 30
def stepFreqMaxHz : ℕ := 3000
def minCalSpeedMlMin : ℚ := 15
def minStepsThreshold : ℤ := 10
def rinseDefaultSpeedMlMin : ℚ := 50
def fillDefaultSpeedMlMin : ℚ := 20
def maxCalSeqPoints : ℕ := 3
def maxStoredResults : ℕ := 3
def motorCmdQueueLen : ℕ := 4
def motorPollMs : ℕ := 100
def stopSettleMs : ℕ := 50
def dirSetupMs : ℕ := 1
def valveSettleMs : ℕ := 500
def defaultSpeedHz : ℕ := 1000
def defaultAccelHzPerS : ℕ := 500
def defaultVolumeMl : ℚ := 50

end Config
end Ecotiter
