import Ecotiter.HistoryPhases

/-!
# What the motor task does

The actions that the routines of the motor task consist of: `ofChunk` while the driver sends chunks,
`ofDrive` in a motion or in a command without one, `ofMotor` in every command but the emergency
stop. A protocol that none of them disturbs is kept by the routines.
-/

namespace Ecotiter
open Interleaving Firmware

def Act.ofChunk : {β : Type} → Act β → Bool
  | _, .poll site _ => site ≠ .settle
  | _, .gpioSetLevel .en level => level
  | _, .rmtTransmit _ | _, .rmtTxWaitAllDone _ | _, .positionFetchAdd _ | _, .vTaskDelay _ => true
  | _, _ => false

def Var.ofMotor : {α : Type} → Var α → Bool
  | _, .buretteState | _, .direction | _, .speed | _, .accel | _, .stallGuardThreshold
  | _, .valvePosition | _, .homingDone => true
  | _, _ => false

def Act.ofDrive : {β : Type} → Act β → Bool
  | _, .load v => v.ofMotor
  | _, .store v _ => v.ofMotor && match v with | .valvePosition => false | _ => true
  | _, .gpioSetLevel pin _ => pin ≠ .valve
  | _, .storeStop _ _ | _, .positionLoad | _, .positionStore _ | _, .xTaskGetTickCount
  | _, .taskWdtReset | _, .wsBroadcast _ | _, .tmcConnected | _, .tmcWriteRegister _ _
  | _, .tmcReadRegister _ => true
  | _, a => a.ofChunk

def Act.ofMotor : {β : Type} → Act β → Bool
  | _, .load v => v.ofMotor || match v with | .volumeMl => true | _ => false
  | _, .store v _ => v.ofMotor
  | _, .poll _ _ | _, .gpioSetLevel _ _ | _, .xQueueOverwrite _ | _, .abort
  | _, .gpioIsrHandlerAdd _ | _, .createMotorCmdQueue | _, .createSmResultQueue
  | _, .xQueueReceive => true
  | _, a => a.ofDrive

/-- What drives the motor outside a homing. -/
def Act.ofMotion : {β : Type} → Act β → Bool
  | _, .positionStore _ | _, .store .buretteState .homing => false
  | _, a => a.ofDrive

theorem Act.ofDrive_of_ofChunk {β : Type} (a : Act β) (h : a.ofChunk) : a.ofDrive := by
  induction a with
  | gpioSetLevel pin level => cases pin <;> first | rfl | cases h
  | _ => first | rfl | exact h | cases h

theorem Act.ofMotor_of_ofDrive {β : Type} (a : Act β) (h : a.ofDrive) : a.ofMotor := by
  induction a with
  | load v => induction v <;> first | rfl | cases h
  | store v x => induction v <;> first | rfl | cases h
  | _ => first | rfl | exact h

theorem Act.ofDrive_of_ofMotion {β : Type} (a : Act β) (h : a.ofMotion) : a.ofDrive := by
  induction a with
  | store v x => induction v <;> first | rfl | exact h
  | _ => first | rfl | exact h

theorem Act.ofMotor_of_ofMotion {β : Type} (a : Act β) (h : a.ofMotion) : a.ofMotor :=
  Act.ofMotor_of_ofDrive a (Act.ofDrive_of_ofMotion a h)

theorem Act.ofMotion_of_ofChunk {β : Type} (a : Act β) (h : a.ofChunk) : a.ofMotion := by
  induction a with
  | gpioSetLevel pin level => cases pin <;> first | rfl | cases h
  | _ => first | rfl | exact h | cases h

attribute [local simp] load store poll storeStop gpioSetLevel vTaskDelay taskWdtReset wsBroadcast
  Act.ofChunk Act.ofMotion Act.ofDrive Act.ofMotor Var.ofMotor

section Driver

theorem only_emergencyStop : StepperMotor.emergencyStop.Only Act.ofChunk := by
  simp [StepperMotor.emergencyStop]

theorem only_transmitChunk {symbols : List RmtSymbol} {stopFlag : StopFlag} :
    (StepperMotor.transmitChunk symbols stopFlag).Only Act.ofChunk := by
  refine .iterate fun retries => .andThen rfl fun seen => ?_
  cases seen with
  | true => exact only_emergencyStop.bind fun _ => trivial
  | false =>
    refine .andThen rfl fun err => ?_
    split
    · exact trivial
    · split
      · exact trivial
      · simp

theorem only_awaitChunk {stopFlag : StopFlag} :
    (StepperMotor.awaitChunk stopFlag).Only Act.ofChunk := by
  refine .iterate fun _ => .andThen rfl fun err => ?_
  split
  · exact trivial
  · split
    · exact trivial
    · refine .andThen rfl fun seen => ?_
      cases seen with
      | true => exact only_emergencyStop.bind fun _ => trivial
      | false => exact trivial

theorem only_moveStepsIntervals {intervals : List ℕ} {stopFlag : StopFlag} :
    (StepperMotor.moveStepsIntervals intervals stopFlag).Only Act.ofChunk := by
  refine .iterate fun offset => ?_
  split
  · exact trivial
  refine .andThen rfl fun seen => ?_
  cases seen with
  | true => exact only_emergencyStop.bind fun _ => trivial
  | false =>
    refine only_transmitChunk.bind fun sent => ?_
    rcases sent with _ | _
    · exact trivial
    refine only_awaitChunk.bind fun done => ?_
    rcases done with _ | _
    · exact trivial
    · simp

end Driver

section Motions

theorem only_endstopLoop {intervalUs : ℕ} {stopFlag : StopFlag} :
    (endstopLoop intervalUs stopFlag).Only Act.ofChunk := by
  refine .iterate fun _ => .andThen rfl fun seen => ?_
  cases seen with
  | true => exact trivial
  | false =>
    refine only_moveStepsIntervals.bind fun moved => ?_
    rcases moved with _ | _ <;> exact trivial

theorem only_quotient {S : {β : Type} → Act β → Bool} {a b : ℕ} (h : b ≠ 0 ∨ S .abort) :
    (quotient a b).Only S := by
  unfold quotient
  split
  case isTrue hzero => exact .andThen (h.resolve_left fun hne => hne hzero) fun _ => trivial
  case isFalse => exact trivial

/-- A motion to an endstop between the setting of its direction and the enabling of the driver. -/
def driveToEndstop (speedHz : ℕ) (stopFlag : StopFlag) : Firmware Unit := do
  vTaskDelay Config.dirSetupMs
  let intervalUs ← quotient 1000000 speedHz
  storeStop stopFlag false
  endstopLoop intervalUs stopFlag
  StepperMotor.emergencyStop

theorem moveToEndstop_eq (dir : Direction) (speedHz : ℕ) (stopFlag : StopFlag) :
    moveToEndstop dir speedHz stopFlag = (do
      gpioSetLevel .dir dir.level
      driveToEndstop speedHz stopFlag
      StepperMotor.enable) := by
  change _ = Program.act _ fun _ => Program.act _ fun _ =>
    ((quotient 1000000 speedHz).bind _).bind _
  simp only [Program.bind_assoc]
  rfl

theorem only_driveToEndstop {S : {β : Type} → Act β → Bool}
    (hS : ∀ {β : Type} (a : Act β), a.ofChunk → S a) {speedHz : ℕ} {stopFlag : StopFlag}
    (hstop : S (.storeStop stopFlag false)) (h : speedHz ≠ 0 ∨ S .abort) :
    (driveToEndstop speedHz stopFlag).Only S := by
  refine .andThen (hS _ rfl) fun _ => (only_quotient h).bind fun intervalUs => ?_
  exact .andThen hstop fun _ => (only_endstopLoop.mono hS).bind fun _ => only_emergencyStop.mono hS

/-- A motion to an endstop stops the device only where it divides by zero. -/
theorem only_moveToEndstop {S : {β : Type} → Act β → Bool}
    (hS : ∀ {β : Type} (a : Act β), a.ofMotion → S a) {dir : Direction} {speedHz : ℕ}
    {stopFlag : StopFlag} (h : speedHz ≠ 0 ∨ S .abort) :
    (moveToEndstop dir speedHz stopFlag).Only S := by
  rw [moveToEndstop_eq]
  refine .andThen (hS _ rfl) fun _ => .bind ?_ fun _ => ?_
  · exact only_driveToEndstop (fun a ha => hS a (Act.ofMotion_of_ofChunk a ha)) (hS _ rfl) h
  · exact ⟨hS (.gpioSetLevel .en false) rfl, fun _ => trivial⟩

/-- What a set of actions must contain for strokes of the burette at a frequency. -/
structure StrokeRule (S : {β : Type} → Act β → Bool) (speedHz : ℕ) : Prop where
  drive : ∀ {β : Type} (a : Act β), a.ofMotion → S a
  valve : ∀ level, S (.gpioSetLevel .valve level)
  position : ∀ pos, S (.store .valvePosition pos)
  settle : ∀ flag, S (.poll .settle flag)
  abort : speedHz ≠ 0 ∨ S .abort

section
variable {S : {β : Type} → Act β → Bool} {speedHz : ℕ}

theorem only_settle {stopFlag : StopFlag} (hpoll : S (.poll .settle stopFlag))
    (hdelay : S (.vTaskDelay 10)) : (settleValve stopFlag).Only S := by
  refine .iterate fun i => ?_
  split
  · exact trivial
  refine .andThen hpoll fun seen => ?_
  cases seen with
  | true => exact trivial
  | false => exact .andThen hdelay fun _ => trivial

theorem StrokeRule.only_settleValve (h : StrokeRule S speedHz) {stopFlag : StopFlag} :
    (settleValve stopFlag).Only S :=
  only_settle (h.settle stopFlag) (h.drive _ rfl)

theorem StrokeRule.only_moveFill (h : StrokeRule S speedHz) : (moveFill speedHz).Only S := by
  have hvalve : (setValve .input).Only S :=
    .andThen (h.valve _) fun _ => ⟨h.position .input, fun _ => trivial⟩
  refine hvalve.bind fun _ => h.only_settleValve.bind fun _ => .andThen (h.drive _ rfl) fun _ => ?_
  exact only_moveToEndstop h.drive h.abort

theorem StrokeRule.only_moveEmpty (h : StrokeRule S speedHz) : (moveEmpty speedHz).Only S := by
  have hvalve : (setValve .output).Only S :=
    .andThen (h.valve _) fun _ => ⟨h.position .output, fun _ => trivial⟩
  refine hvalve.bind fun _ => h.only_settleValve.bind fun _ => .andThen (h.drive _ rfl) fun _ => ?_
  exact only_moveToEndstop h.drive h.abort

end

theorem ofMotor_strokeRule (speedHz : ℕ) : StrokeRule Act.ofMotor speedHz where
  drive := Act.ofMotor_of_ofMotion
  valve _ := rfl
  position _ := rfl
  settle _ := rfl
  abort := .inr rfl

theorem only_settleValve {stopFlag : StopFlag} : (settleValve stopFlag).Only Act.ofMotor :=
  (ofMotor_strokeRule 0).only_settleValve

theorem only_moveFill {speedHz : ℕ} : (moveFill speedHz).Only Act.ofMotor :=
  (ofMotor_strokeRule speedHz).only_moveFill

theorem only_moveEmpty {speedHz : ℕ} : (moveEmpty speedHz).Only Act.ofMotor :=
  (ofMotor_strokeRule speedHz).only_moveEmpty

theorem only_storeResult {type : SmResultType} {steps : ℤ} {speed : ℚ} {results : List ℚ}
    {count : ℕ} : (storeResult type steps speed results count).Only Act.ofMotor := by
  simp [storeResult]

theorem only_stepsLoop {intervalUs : ℕ} {steps : ℤ} :
    (stepsLoop intervalUs steps).Only Act.ofMotion := by
  refine .iterate fun remaining => ?_
  split
  · exact trivial
  refine .andThen rfl fun _ => .andThen rfl fun seen => ?_
  cases seen with
  | true => exact trivial
  | false =>
    refine (only_moveStepsIntervals.mono Act.ofMotion_of_ofChunk).bind fun moved => ?_
    rcases moved with ⟨_ | _⟩ | _ <;> simp

theorem only_executeMoveSteps {steps : ℤ} : (executeMoveSteps steps).Only Act.ofMotion := by
  unfold executeMoveSteps
  split
  · exact trivial
  refine .andThen rfl fun dir => .andThen rfl fun _ => .andThen rfl fun _ => ?_
  refine .andThen rfl fun speed => ?_
  have hdiv : clampStepFreq speed ≠ 0 :=
    Nat.ne_of_gt (Nat.lt_of_lt_of_le (by decide) (clampStepFreq_bounds speed).1)
  exact (only_quotient (.inl hdiv)).bind fun intervalUs => only_stepsLoop

end Motions

section Runners

theorem only_rinseLoop {speedHz : ℕ} {sm : RinseSm} : (rinseLoop speedHz sm).Only Act.ofMotor := by
  refine .iterate fun sm => ?_
  split
  · exact trivial
  refine .andThen rfl fun _ => .andThen rfl fun volume => ?_
  generalize sm.onMotorComplete = r
  obtain ⟨action, sm'⟩ := r
  cases action with
  | fillToLimit => exact only_moveFill.bind fun _ => trivial
  | emptyToLimit => exact only_moveEmpty.bind fun _ => trivial
  | complete | error => exact only_storeResult.bind fun _ => trivial

theorem only_runRinseSm {speed cur nominal : ℚ} {cycles : ℕ} :
    (runRinseSm speed cycles cur nominal).Only Act.ofMotor := by
  unfold runRinseSm
  by_cases hp : (RinseSm.start cycles cur nominal).phase = .preFill
  · simp only [hp, if_true]
    exact only_moveFill.bind fun _ => only_rinseLoop
  · simp only [hp, if_false]
    exact only_rinseLoop

/-- A stroke that the state machine may or may not ask for. -/
theorem only_stroke {α : Type} {asked : Prop} [Decidable asked] {stroke : Firmware Unit}
    {rest : Firmware α} {otherwise : α} (hs : stroke.Only Act.ofMotor)
    (hr : rest.Only Act.ofMotor) :
    (if asked then do stroke; rest else pure otherwise : Firmware α).Only Act.ofMotor := by
  split
  · exact hs.bind fun _ => hr
  · exact trivial

theorem only_runCalDoseSm {speed cur nominal : ℚ} :
    (runCalDoseSm speed cur nominal).Only Act.ofMotor := by
  refine (only_stroke only_moveFill (by simp [StepperMotor.position])).bind fun filled => ?_
  refine (only_stroke only_moveEmpty (by simp [StepperMotor.position])).bind fun emptied => ?_
  split <;> exact only_storeResult

theorem only_runCalSpeedSm {speed cur nominal : ℚ} {freq : ℕ} :
    (runCalSpeedSm speed freq cur nominal).Only Act.ofMotor := by
  refine (only_stroke only_moveFill (by simp [nowMs])).bind fun filled => ?_
  refine (only_stroke only_moveEmpty (by simp [nowMs])).bind fun emptied => ?_
  split <;> exact only_storeResult

theorem only_runCalSpeedSeqSm {freqs : List ℕ} {speed cur nominal : ℚ} :
    (runCalSpeedSeqSm freqs speed cur nominal).Only Act.ofMotor := by
  refine Program.Only.iterate fun sm => ?_
  split
  · exact trivial
  refine .andThen rfl fun _ => .andThen rfl fun now => ?_
  generalize sm.onTick now = r
  obtain ⟨action, sm'⟩ := r
  have hdispatch : (dispatchCalSpeedAction sm' action (mlMinToHz speed)).Only Act.ofMotor := by
    cases action with
    | fillToLimit => exact only_moveFill.bind fun _ => trivial
    | emptyToLimit => exact only_moveEmpty.bind fun _ => trivial
    | settleValve => exact only_settleValve.bind fun _ => trivial
    | complete | error => exact only_storeResult.bind fun _ => trivial
  refine hdispatch.bind fun continues => ?_
  cases continues <;> exact trivial

end Runners

section Homing

theorem only_checkHomingTermination {start : ℕ} {s : HomingState} :
    (checkHomingTermination start s).Only Act.ofDrive := by
  refine .andThen rfl fun seen => ?_
  cases seen with
  | true => exact trivial
  | false =>
    refine .andThen rfl fun now => ?_
    split <;> exact trivial

theorem only_homingLoop {start : ℕ} : (homingLoop start).Only Act.ofDrive := by
  refine .iterate fun s => ?_
  split
  · exact trivial
  refine .andThen rfl fun _ => only_checkHomingTermination.bind fun r => ?_
  obtain ⟨done, s'⟩ := r
  cases done with
  | true => exact trivial
  | false =>
    refine (only_moveStepsIntervals.mono Act.ofDrive_of_ofChunk).bind fun moved => ?_
    rcases moved with ⟨_ | _⟩ | _
    · exact only_checkHomingTermination.bind fun _ => trivial
    · simp
    · exact only_checkHomingTermination.bind fun _ => trivial

theorem only_postHomingCleanup {s : HomingState} : (postHomingCleanup s).Only Act.ofDrive := by
  refine (only_emergencyStop.mono Act.ofDrive_of_ofChunk).bind fun _ => .andThen rfl fun _ => ?_
  split
  · exact trivial
  · cases s.homed <;> simp [StepperMotor.setCurrentPosition]

theorem only_runHoming {switch : Endstop} : (runHoming switch).Only Act.ofDrive := by
  refine .andThen rfl fun _ => .andThen rfl fun _ => .andThen rfl fun _ => .andThen rfl fun _ => ?_
  refine .andThen rfl fun _ => .andThen rfl fun startTime => ?_
  exact only_homingLoop.bind fun s => only_postHomingCleanup

end Homing

section Commands

/-- The opening of the four handlers that start a runner. -/
theorem only_runner {state : BuretteState} {run : ℚ × ℚ → Firmware Unit}
    (hrun : ∀ v, (run v).Only Act.ofMotor) :
    (do store .buretteState state
        let v ← MotorTask.runnerVolumes
        run v).Only Act.ofMotor := by
  refine .andThen rfl fun _ => .bind ?_ hrun
  simp [MotorTask.runnerVolumes]

/-- The commands without a motion, or with a homing run. -/
def MotorCommandType.plain : MotorCommandType → Bool
  | .stop | .home | .setDirection | .setSpeed | .setAccel | .setStallThreshold
  | .readTmcRegister => true
  | _ => false

theorem only_handle_motion {cmd : MotorCommand} (ht : cmd.type.plain) (hhome : cmd.type ≠ .home) :
    (MotorTask.handle cmd).Only Act.ofMotion := by
  unfold MotorTask.handle
  cases hc : cmd.type with
  | home => exact absurd hc hhome
  | stop => simp [MotorTask.handleStop]
  | setDirection => simp [MotorTask.handleSetDirection]
  | setSpeed =>
    simp only [MotorTask.handleSetSpeed]
    split <;> simp
  | setAccel => simp [MotorTask.handleSetAccel]
  | setStallThreshold => simp [MotorTask.handleSetStallThreshold]
  | readTmcRegister =>
    refine .andThen rfl fun value => ?_
    cases value <;> simp
  | _ =>
    rw [hc] at ht
    cases ht

theorem only_handle_plain {cmd : MotorCommand} (ht : cmd.type.plain) :
    (MotorTask.handle cmd).Only Act.ofDrive := by
  by_cases hhome : cmd.type = .home
  · rw [MotorTask.handle, hhome]
    exact only_runHoming
  · exact (only_handle_motion ht hhome).mono Act.ofDrive_of_ofMotion

/-- Every command but the emergency stop. -/
theorem only_handle {cmd : MotorCommand} (ht : cmd.type ≠ .emergencyStop) :
    (MotorTask.handle cmd).Only Act.ofMotor := by
  have hplain : cmd.type.plain → (MotorTask.handle cmd).Only Act.ofMotor :=
    fun hp => (only_handle_plain hp).mono Act.ofMotor_of_ofDrive
  cases hc : cmd.type with
  | emergencyStop => exact absurd hc ht
  | moveSteps =>
    simp only [MotorTask.handle, hc]
    refine .andThen rfl fun before => ?_
    refine (only_executeMoveSteps.mono Act.ofMotor_of_ofMotion).bind fun _ => ?_
    exact .andThen rfl fun pos => only_storeResult
  | moveContinuous =>
    simp only [MotorTask.handle, hc]
    have hmove : (moveToEndstop cmd.direction cmd.speedHz .stopFull).Only Act.ofMotor :=
      only_moveToEndstop Act.ofMotor_of_ofMotion (.inr rfl)
    exact hmove.bind fun _ => only_storeResult
  | startRinse =>
    simp only [MotorTask.handle, hc]
    exact only_runner fun _ => only_runRinseSm
  | startCalDose =>
    simp only [MotorTask.handle, hc]
    exact only_runner fun _ => only_runCalDoseSm
  | startCalSpeed =>
    simp only [MotorTask.handle, hc]
    exact only_runner fun _ => only_runCalSpeedSm
  | startCalSpeedSeq =>
    simp only [MotorTask.handle, hc]
    exact only_runner fun _ => only_runCalSpeedSeqSm
  | _ => exact hplain (by rw [hc]; rfl)

theorem only_configureTmcUart : MotorTask.configureTmcUart.Only Act.ofMotion := by
  simp [MotorTask.configureTmcUart]

end Commands
end Ecotiter
