import Ecotiter.DeviceSystem
import Ecotiter.ProgramProtocol

/-!
# The phases of the motor task

The control flow of the motor task as an automaton over its atomic actions: which operation it is
executing, whether a motion is under way, and how far the current chunk has got. `MotorPhase.next`
is partial; that the task never leaves it is proved in `MotorConformance`. The phase is a function
of the history (`motorPhase`), so that statements about runs can refer to it.
-/

namespace Ecotiter
open Interleaving

/-- How far a motion has got. -/
inductive Place
  | poised       -- before the first reading of the stop flag
  | armed        -- the loop head has read the flag clear
  | checked      -- a chunk is prepared, the flag was clear
  | committed    -- the flag was clear again, `rmt_transmit` comes next
  | sending      -- a chunk is being transmitted
  | sent         -- the transmission has ended
  | moved        -- the chunk is counted
  | halting      -- `moveStepsIntervals` has seen the stop flag
  | halted       -- the motion is being left
  | faulted      -- left with the error state written
  deriving DecidableEq, Repr

/-- The places at which a motion can be left. -/
def Place.leaves : Place → Bool
  | .committed | .sending | .sent | .halting | .faulted => false
  | _ => true

/-- Where an attempt to transmit leads. -/
@[simp] def Place.afterTransmit : EspErr → Place
  | .ok => .sending
  | .invalidState => .checked
  | _ => .halted

/-- Where a wait for the end of the transmission leads. -/
@[simp] def Place.afterAwait : EspErr → Place
  | .ok => .sent
  | .timeout => .sending
  | _ => .halted

theorem Place.afterTransmit_cases (err : EspErr) :
    afterTransmit err = .sending ∨ afterTransmit err = .checked ∨ afterTransmit err = .halted := by
  cases err <;> simp

theorem Place.afterAwait_cases (err : EspErr) :
    afterAwait err = .sent ∨ afterAwait err = .sending ∨ afterAwait err = .halted := by
  cases err <;> simp

structure Motion where
  direction : Direction
  flag : StopFlag
  /-- The step frequency, for a motion by a number of steps. -/
  hz : Option ℕ
  deriving DecidableEq, Repr

inductive Stage
  | ready                                -- no motion under way, nothing published
  | directed (d : Direction)             -- `gDirection` was read
  | aimed (d : Direction)                -- DIR is set
  | cleared (d : Direction)              -- homing has cleared the flag of its switch
  | moving (m : Motion) (p : Place)
  | published                            -- the result is in the result queue
  | done                                 -- the operation writes `gBuretteState` no more
  deriving DecidableEq

inductive Op
  | homing
  | command (cmd : MotorCommand)
  deriving DecidableEq

namespace Op

def hasType (op : Op) (t : MotorCommandType) : Bool :=
  match op with
  | .homing => false
  | .command cmd => cmd.type = t

/-- The operation is a homing run. -/
def homes : Op → Bool
  | .homing => true
  | .command cmd => cmd.type = .home

/-- The operation consists of motions by `move_to_endstop`. -/
def endstop : Op → Bool
  | .homing => false
  | .command cmd =>
    match cmd.type with
    | .moveContinuous | .startRinse | .startCalDose | .startCalSpeed | .startCalSpeedSeq => true
    | _ => false

/-- The flag a motion of the operation polls. -/
def polls (op : Op) (d : Direction) : StopFlag :=
  if op.endstop && !op.hasType .moveContinuous then d.endstop.flag else .stopFull

/-- The operation ends with idle written to `gBuretteState`, unless homing faults. -/
def restores : Op → Bool
  | .homing => true
  | .command cmd => cmd.type.restoresIdle

def produces : Op → Bool
  | .homing => false
  | .command cmd => cmd.type.producesResult

end Op

inductive MotorPhase
  | unborn                       -- no queue exists
  | created                      -- the command queue exists
  | booting                      -- both queues exist
  | listening
  | running (op : Op) (s : Stage)
  deriving DecidableEq

namespace MotorPhase

def onStoreState (x : BuretteState) : MotorPhase → Option MotorPhase
  | .booting => if x = .homing then some (.running .homing .ready) else none
  | .running op .ready =>
    if op.restores then
      if x.isBusy then some (.running op .ready)
      else if x = .idle ∧ op.produces = false then some (.running op .done)
      else none
    else if op.hasType .emergencyStop ∧ x = .error then some (.running op .done)
    else none
  | .running op (.moving m p) =>
    if x = .error ∧ p.leaves then
      if op.homes then some (.running op (.moving m .faulted))
      else if op.hasType .moveSteps then some (.running op (.moving m p))
      else none
    else none
  | .running op .published => if x = .idle then some (.running op .done) else none
  | _ => none

def onStoreStop (flag : StopFlag) (b : Bool) : MotorPhase → Option MotorPhase
  | .running op .ready =>
    if op.hasType .stop ∨ op.hasType .emergencyStop ∨ op.homes then some (.running op .ready)
    else none
  | .running op (.aimed d) =>
    if b then none
    else if op.homes then some (.running op (.cleared d))
    else if op.endstop ∧ flag = op.polls d then some (.running op (.moving ⟨d, flag, none⟩ .poised))
    else none
  | .running op (.cleared d) =>
    if b = false ∧ flag = .stopFull then some (.running op (.moving ⟨d, flag, none⟩ .poised))
    else none
  | _ => none

def onDirPin (level : Bool) : MotorPhase → Option MotorPhase
  | .running op .ready =>
    if op.homes then if level then some (.running op (.aimed .liqIn)) else none
    else if op.endstop then some (.running op (.aimed (if level then .liqIn else .liqOut)))
    else if op.hasType .setDirection then some (.running op .ready)
    else none
  | .running op (.directed d) =>
    if level = d.level then some (.running op (.aimed d)) else none
  | _ => none

def onEnPin (level : Bool) : MotorPhase → Option MotorPhase
  | .running op (.moving m p) =>
    if level then
      if p = .halting ∨ p.leaves ∧ op.hasType .moveSteps = false then
        some (.running op (.moving m .halted))
      else if p = .faulted ∧ op.homes then some (.running op (.moving m .faulted))
      else none
    else if op.hasType .moveSteps then none
    else if p = .halted then some (.running op .ready)
    else if p = .faulted then some (.running op .done)
    else none
  | _ => none

def onPoll (site : PollSite) (flag : StopFlag) (seen : Bool) : MotorPhase → Option MotorPhase
  | .running op .ready => if site = .settle then some (.running op .ready) else none
  | .running op (.moving m p) =>
    if flag ≠ m.flag then none
    else match site, p with
      | .loopHead, .poised | .loopHead, .armed | .loopHead, .moved =>
        some (.running op (.moving m (if seen then .halted else .armed)))
      | .loopHead, .halted => some (.running op (.moving m .halted))
      | .chunk, .armed | .chunk, .moved =>
        some (.running op (.moving m (if seen then .halting else .checked)))
      | .transmit, .checked =>
        some (.running op (.moving m (if seen then .halting else .committed)))
      | .wait, .sending =>
        some (.running op (.moving m (if seen then .halting else .sending)))
      | _, _ => none
  | _ => none

/-- The symbols are those of the frequency the motion was set up with. -/
def Motion.fits (m : Motion) (symbols : List RmtSymbol) : Bool :=
  m.hz.all fun hz => symbols.all fun s => s = stepSymbol (1000000 / hz)

def onTransmit (symbols : List RmtSymbol) (err : EspErr) : MotorPhase → Option MotorPhase
  | .running op (.moving m .committed) =>
    if Motion.fits m symbols then
      some (.running op (.moving m (.afterTransmit err)))
    else none
  | _ => none

def onAwait (err : EspErr) : MotorPhase → Option MotorPhase
  | .running op (.moving m .sending) =>
    some (.running op (.moving m (.afterAwait err)))
  | .running op (.moving m .halted) => some (.running op (.moving m .halted))
  | .running op (.moving m .faulted) => some (.running op (.moving m .faulted))
  | _ => none

def onCounted : MotorPhase → Option MotorPhase
  | .running op (.moving m .sent) => some (.running op (.moving m .moved))
  | _ => none

def onWdtReset : MotorPhase → Option MotorPhase
  | .unborn | .created | .booting => none
  | .listening => some .listening
  | .running _ .done => some .listening
  | .running op .ready => if op.restores then some (.running op .ready) else some .listening
  | .running op (.moving m p) => some (.running op (.moving m p))
  | .running _ _ => none

def onReceive (cmd : Option MotorCommand) : MotorPhase → Option MotorPhase
  | .listening => some (cmd.elim .listening fun cmd => .running (.command cmd) .ready)
  | _ => none

def onPublish : MotorPhase → Option MotorPhase
  | .running op .ready => if op.produces then some (.running op .published) else none
  | .running op (.moving _ p) =>
    if op.hasType .moveSteps ∧ p.leaves then some (.running op .published) else none
  | _ => none

def onLoadDirection (d : Direction) : MotorPhase → Option MotorPhase
  | .running op .ready =>
    if op.hasType .moveSteps then some (.running op (.directed d)) else none
  | _ => none

def onLoadSpeed (speed : ℕ) : MotorPhase → Option MotorPhase
  | .running op (.aimed d) =>
    if op.hasType .moveSteps then
      some (.running op (.moving ⟨d, .stopFull, some (clampStepFreq speed)⟩ .poised))
    else none
  | _ => none

/-- Actions of an operation outside its motions. -/
def onReady : MotorPhase → Option MotorPhase
  | .running op .ready => some (.running op .ready)
  | _ => none

def onCreate (ok : Bool) : MotorPhase → Option MotorPhase
  | .unborn => some (if ok then .created else .unborn)
  | _ => none

def onCreateResults : MotorPhase → Option MotorPhase
  | .created => some .booting
  | _ => none

def onBoot : MotorPhase → Option MotorPhase
  | .booting => some .booting
  | _ => none

def next (p : MotorPhase) : {β : Type} → Act β → β → Option MotorPhase
  | _, .load .direction, d => onLoadDirection d p
  | _, .load .speed, speed => onLoadSpeed speed p
  | _, .load .calCache, _ | _, .load .lastCmdId, _ => none
  | _, .load _, _ => some p
  | _, .store .buretteState x, _ => onStoreState x p
  | _, .store .homingDone _, _ => some p
  | _, .store .valveIsSettling _, _ => onReady p
  | _, .store .direction _, _ => onReady p
  | _, .store .speed _, _ => onReady p
  | _, .store .accel _, _ => onReady p
  | _, .store .stallGuardThreshold _, _ => onReady p
  | _, .store .valvePosition _, _ => onReady p
  | _, .exchangeTimerArmed _, _ => onReady p
  | _, .espTimerIsCreated, _ => onReady p
  | _, .espTimerStop, _ => onReady p
  | _, .poll site flag, seen => onPoll site flag seen p
  | _, .storeStop flag b, _ => onStoreStop flag b p
  | _, .createMotorCmdQueue, ok => onCreate ok p
  | _, .createSmResultQueue, _ => onCreateResults p
  | _, .gpioIsrHandlerAdd _, _ => onBoot p
  | _, .tmcConnected, _ => onBoot p
  | _, .xQueueReceive, cmd => onReceive cmd p
  | _, .xQueueOverwrite _, _ => onPublish p
  | _, .gpioSetLevel .dir level, _ => onDirPin level p
  | _, .gpioSetLevel .en level, _ => onEnPin level p
  | _, .gpioSetLevel .valve _, _ => onReady p
  | _, .rmtTransmit symbols, err => onTransmit symbols err p
  | _, .rmtTxWaitAllDone _, err => onAwait err p
  | _, .positionFetchAdd _, _ => onCounted p
  | _, .taskWdtReset, _ => onWdtReset p
  | _, .positionLoad, _ | _, .positionStore _, _ | _, .vTaskDelay _, _
  | _, .xTaskGetTickCount, _ | _, .wsBroadcast _, _ | _, .tmcWriteRegister _ _, _
  | _, .tmcReadRegister _, _ | _, .abort, _ => some p
  | _, _, _ => none

end MotorPhase

def motorProtocol : Protocol Act MotorPhase := ⟨fun p _ a b => p.next a b⟩

/-- The phase the motor task is in after a history. -/
def motorPhase : List Event → MotorPhase
  | [] => .unborn
  | .did .motor a b _ :: past => ((motorPhase past).next a b).getD (motorPhase past)
  | .did _ _ _ _ :: past => motorPhase past
  | .happened _ _ :: past => motorPhase past

@[simp] theorem motorPhase_nil : motorPhase [] = .unborn := rfl

@[simp] theorem motorPhase_motor {β : Type} (a : Act β) (b : β) (m : Mem) (past : List Event) :
    motorPhase (.did .motor a b m :: past) =
      ((motorPhase past).next a b).getD (motorPhase past) := rfl

@[simp] theorem motorPhase_happened (h : Happening) (m : Mem) (past : List Event) :
    motorPhase (.happened h m :: past) = motorPhase past := rfl

theorem motorPhase_other {t : Tid} (ht : t ≠ .motor) {β : Type} (a : Act β) (b : β) (m : Mem)
    (past : List Event) : motorPhase (.did t a b m :: past) = motorPhase past := by
  cases t with
  | motor => exact absurd rfl ht
  | main | http | timer => rfl

end Ecotiter
