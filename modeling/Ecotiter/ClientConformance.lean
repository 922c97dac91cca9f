import Ecotiter.ClientPhases

/-!
# The clients keep to their phases

Each handler returns with its claim released, handed over with a motor command, or lost on one of
the branches that `ClientPhase` calls leaking; it answers `AckThen` exactly when a command that
produces a result was enqueued. The main loop, the HTTP server and the timer task follow their
protocols from power-up on.
-/

namespace Ecotiter
open Interleaving Firmware

namespace ClientPhase

abbrev ClientFollows (isMain : Bool) {α : Type} (prog : Firmware α) (p : ClientPhase)
    (Q : α → ClientPhase → Prop) : Prop :=
  (clientProtocol isMain).Conforms Q prog p

@[simp] theorem clientProtocol_next (isMain : Bool) (p : ClientPhase) {β : Type} (a : Act β)
    (b : β) : (clientProtocol isMain).next p a b = p.next isMain a b := rfl

/-- A handler for `cmd` has answered. -/
def Answered (cmd : Command) (rsp : CommandResponse) (q : ClientPhase) : Prop :=
  ∃ s : ClaimStage, q = .handling cmd s ∧ s.returned ∧ (rsp.kind = .ackThen ↔ s.accepted)

theorem Answered.fresh {cmd : Command} {rsp : CommandResponse} (h : rsp.kind ≠ .ackThen) :
    Answered cmd rsp (.handling cmd .fresh) :=
  ⟨.fresh, rfl, rfl, by simp [h, ClaimStage.accepted]⟩

@[simp] theorem makeErrorResponse_kind (message : String) :
    (makeErrorResponse message).kind = .error := rfl

@[simp] theorem makeSingleResponse_kind (payload : String) :
    (makeSingleResponse payload).kind = .single := rfl

@[simp] theorem makeAckThenResponse_kind : makeAckThenResponse.kind = .ackThen := rfl

section Handlers
variable {isMain : Bool} {cmd : Command}

theorem follows_refusal {message : String} :
    ClientFollows isMain (pure (makeErrorResponse message)) (.handling cmd .fresh)
      (Answered cmd) :=
  Protocol.conforms_pure.mpr (.fresh (by simp))

theorem follows_claimBurette {state : BuretteState} {next : Firmware CommandResponse}
    (hs : state.isBusy)
    (hnext : ClientFollows isMain next (.handling cmd .claimed) (Answered cmd)) :
    ClientFollows isMain (claimBurette state next) (.handling cmd .fresh) (Answered cmd) := by
  have hne : state ≠ .error := by
    intro h
    rw [h] at hs
    cases hs
  simp only [claimBurette, load, Program.act_bind, Program.ret_bind, Protocol.conforms_act,
    clientProtocol_next, ClientPhase.next, Option.some.injEq, exists_eq_left', Bool.forall_bool,
    Bool.false_eq_true, if_false, if_true, onCas, hne, hs]
  exact ⟨⟨follows_refusal, hnext⟩, follows_refusal⟩

theorem follows_sendMotorCommand {mc : MotorCommand} {s : ClaimStage} {Q : Bool → ClientPhase → Prop}
    (hf : Q false (.handling cmd s))
    (hsend : ∀ ok, ∃ q, onSend mc ok (.handling cmd s) = some q ∧ Q ok q) :
    ClientFollows isMain (sendMotorCommand mc) (.handling cmd s) Q := by
  simp only [sendMotorCommand, Program.act_bind, Program.ret_bind, Protocol.conforms_act,
    clientProtocol_next, ClientPhase.next, onHandling, Option.some.injEq, exists_eq_left',
    Bool.forall_bool, Bool.false_eq_true, if_false, if_true, Protocol.conforms_pure,
    Protocol.conforms_ret]
  exact ⟨hf, hsend false, hsend true⟩

theorem follows_enqueueClaimed {mc : MotorCommand} {accepted : CommandResponse} {message : String}
    (hmc : mc.type.restoresIdle) (hk : accepted.kind = .ackThen ↔ mc.type.producesResult) :
    ClientFollows isMain (enqueueClaimed mc accepted message) (.handling cmd .claimed)
      (Answered cmd) := by
  have hsend : ClientFollows isMain (sendMotorCommand mc) (.handling cmd .claimed)
      (fun ok q => q = .handling cmd (if ok then .queued mc else .claimed)) :=
    follows_sendMotorCommand rfl fun ok => ⟨_, by simp [onSend, hmc], rfl⟩
  refine hsend.bind ?_
  intro ok q hq
  subst hq
  cases ok with
  | true => exact Protocol.conforms_pure.mpr ⟨.queued mc, rfl, rfl, hk⟩
  | false =>
    have hreleased : Answered cmd (makeErrorResponse message) (.handling cmd .released) :=
      ⟨.released, rfl, rfl, by simp [ClaimStage.accepted]⟩
    simpa [store, ClientPhase.next, onStoreState] using hreleased

/-- The cache is loaded with a claim; `k` goes on with a calibration the claim can be used with. -/
theorem follows_loadCal {k : Option CalibrationData → Firmware CommandResponse}
    (hnone : ∃ message, k none = pure (makeErrorResponse message))
    (hk : ∀ cal, ClientFollows isMain (k (some cal))
      (.handling cmd (if claimUsable cmd (some cal) then .claimed else .leaking)) (Answered cmd)) :
    ClientFollows isMain (load .calCache >>= k) (.handling cmd .claimed) (Answered cmd) := by
  simp only [load, Program.act_bind, Program.ret_bind, Protocol.conforms_act, clientProtocol_next,
    ClientPhase.next, onLoadCal, Option.some.injEq, exists_eq_left']
  intro cal
  cases cal with
  | none =>
    obtain ⟨message, hk⟩ := hnone
    rw [hk]
    exact Protocol.conforms_pure.mpr
      ⟨.leaking, by simp [claimUsable], rfl, by simp [ClaimStage.accepted]⟩
  | some cal => exact hk cal

theorem claimUsable_some {cal : CalibrationData} (h : cmd.type ≠ .doseVolume) :
    claimUsable cmd (some cal) = true := by
  simp [claimUsable, h]

theorem follows_handleFill (h : cmd.type ≠ .doseVolume) :
    ClientFollows isMain BuretteOps.handleFill (.handling cmd .fresh) (Answered cmd) := by
  refine follows_claimBurette rfl (follows_loadCal ⟨_, rfl⟩ fun cal => ?_)
  simp only [claimUsable_some h, if_true, load, store, Program.act_bind, Program.ret_bind,
    Protocol.conforms_act, clientProtocol_next, ClientPhase.next, onHandling, Option.some.injEq,
    exists_eq_left', forall_const]
  exact fun speed accel => follows_enqueueClaimed rfl (by simp [MotorCommandType.producesResult])

theorem follows_handleEmpty (h : cmd.type ≠ .doseVolume) :
    ClientFollows isMain BuretteOps.handleEmpty (.handling cmd .fresh) (Answered cmd) := by
  refine follows_claimBurette rfl (follows_loadCal ⟨_, rfl⟩ fun cal => ?_)
  simp only [claimUsable_some h, if_true, load, store, Program.act_bind, Program.ret_bind,
    Protocol.conforms_act, clientProtocol_next, ClientPhase.next, onHandling, Option.some.injEq,
    exists_eq_left', forall_const]
  exact fun vol speed accel =>
    follows_enqueueClaimed rfl (by simp [MotorCommandType.producesResult])

theorem follows_handleDoseVolume (h : cmd.type = .doseVolume) :
    ClientFollows isMain (BuretteOps.handleDoseVolume cmd.volume cmd.speedMlMin)
      (.handling cmd .fresh) (Answered cmd) := by
  cases hv : cmd.volume with
  | none => exact follows_refusal
  | some volume =>
    refine follows_claimBurette rfl (follows_loadCal ⟨_, rfl⟩ fun cal => ?_)
    have husable : claimUsable cmd (some cal) = doseVolumeValid volume cal := by
      simp [claimUsable, h, hv]
    simp only [husable, load, Program.act_bind, Program.ret_bind, Protocol.conforms_act,
      clientProtocol_next, ClientPhase.next, Option.some.injEq, exists_eq_left', planDose_valid]
    intro vol
    by_cases hvalid : doseVolumeValid volume cal
    · simp only [hvalid, Bool.not_true, Bool.false_eq_true, if_false, if_true, store,
        Program.act_bind, Program.ret_bind, Protocol.conforms_act, clientProtocol_next,
        ClientPhase.next, onHandling, Option.some.injEq, exists_eq_left', forall_const]
      exact fun speed accel =>
        follows_enqueueClaimed rfl (by simp [MotorCommandType.producesResult])
    · have hfalse : doseVolumeValid volume cal = false := by simpa using hvalid
      simp only [hfalse, Bool.not_false, if_true, Bool.false_eq_true, if_false]
      exact Protocol.conforms_pure.mpr
        ⟨.leaking, rfl, rfl, by simp [ClaimStage.accepted]⟩

theorem follows_handleRinse {cycles : Option ℕ} (h : cmd.type ≠ .doseVolume) :
    ClientFollows isMain (BuretteOps.handleRinse cycles) (.handling cmd .fresh) (Answered cmd) := by
  rcases cycles with _ | _ | n
  · exact follows_refusal
  · exact follows_refusal
  refine follows_claimBurette rfl (follows_loadCal ⟨_, rfl⟩ fun cal => ?_)
  rw [claimUsable_some h, if_pos rfl]
  exact follows_enqueueClaimed rfl (by simp [MotorCommandType.producesResult])

theorem calRunCommand_produces (plan : CalRunPlan) :
    (BuretteOps.calRunCommand plan).type.producesResult := by
  unfold BuretteOps.calRunCommand
  split <;> rfl

theorem follows_handleCalRun {mode : Option String} {freqHz speedMlMin : Option ℚ} :
    ClientFollows isMain (BuretteOps.handleCalRun mode freqHz speedMlMin) (.handling cmd .fresh)
      (Answered cmd) := by
  cases mode with
  | none => exact follows_refusal
  | some mode =>
    simp only [BuretteOps.handleCalRun, load, Program.act_bind, Program.ret_bind,
      Protocol.conforms_act, clientProtocol_next, ClientPhase.next, onLoadCal, Option.some.injEq,
      exists_eq_left', Bool.forall_bool, Bool.false_eq_true, if_false, if_true]
    refine ⟨fun cal => ?_, follows_refusal⟩
    cases cal with
    | none => exact follows_refusal
    | some cal =>
      simp only [Protocol.conforms_act, clientProtocol_next, ClientPhase.next, Option.some.injEq,
        exists_eq_left']
      intro state
      generalize planCalRun _ _ _ _ _ _ = plan
      by_cases hreject : plan.action = .reject
      · rw [if_pos hreject]
        exact follows_refusal
      have hproduces := calRunCommand_produces plan
      simp only [hreject, if_false, Protocol.conforms_act, clientProtocol_next, ClientPhase.next,
        onCas, reduceCtorEq, BuretteState.isBusy, if_true, Option.some.injEq, exists_eq_left',
        Bool.forall_bool, Bool.false_eq_true]
      exact ⟨follows_refusal, follows_enqueueClaimed
        (MotorCommandType.restoresIdle_of_producesResult hproduces) (by simp [hproduces])⟩

theorem follows_handleStop :
    ClientFollows isMain BuretteOps.handleStop (.handling cmd .fresh) (Answered cmd) := by
  simp only [BuretteOps.handleStop, load, Program.act_bind, Program.ret_bind,
    Protocol.conforms_act, clientProtocol_next, ClientPhase.next, onCas, reduceCtorEq, if_false,
    BuretteState.isBusy, if_true, Option.some.injEq, exists_eq_left', Bool.forall_bool,
    Bool.false_eq_true]
  exact ⟨⟨follows_refusal, follows_enqueueClaimed rfl
    (by simp [MotorCommandType.producesResult])⟩, follows_refusal⟩

theorem follows_cancelTimer {s : ClaimStage} :
    ClientFollows isMain cancelValveSettleTimer (.handling cmd s)
      (fun _ q => q = .handling cmd s) := by
  simp only [cancelValveSettleTimer, Program.act_bind, Program.ret_bind, Protocol.conforms_act,
    clientProtocol_next, ClientPhase.next, onHandling, Option.some.injEq, exists_eq_left',
    Bool.forall_bool, Bool.false_eq_true, if_false, if_true, Protocol.conforms_pure, true_and]
  intro err
  split <;> simp [ClientPhase.next, onHandling]

theorem follows_handleEmergencyStop (h : cmd.type = .emergencyStop) :
    ClientFollows isMain BuretteOps.handleEmergencyStop (.handling cmd .fresh) (Answered cmd) := by
  refine follows_cancelTimer.bind ?_
  intro _ q hq
  subst hq
  simp only [store, storeStop, Program.act_bind, Program.ret_bind, Protocol.conforms_act,
    clientProtocol_next, ClientPhase.next, onHandling, onCas, onStoreStop, h, if_true, and_self,
    Option.some.injEq, exists_eq_left', forall_const]
  have hsend : ClientFollows isMain (sendMotorCommand { type := .emergencyStop })
      (.handling cmd .fresh) (fun _ q => q = .handling cmd .fresh) :=
    follows_sendMotorCommand rfl fun ok =>
      ⟨_, by simp [onSend, MotorCommandType.restoresIdle, MotorCommandType.producesResult], rfl⟩
  refine hsend.bind ?_
  intro ok q hq
  subst hq
  cases ok with
  | true => exact Protocol.conforms_pure.mpr (.fresh (by simp))
  | false => exact follows_refusal

theorem follows_handleGetStatus :
    ClientFollows isMain BuretteOps.handleGetStatus (.handling cmd .fresh) (Answered cmd) := by
  simp only [BuretteOps.handleGetStatus, load, Program.act_bind, Program.ret_bind,
    Protocol.conforms_act, clientProtocol_next, ClientPhase.next, Option.some.injEq,
    exists_eq_left', Protocol.conforms_pure]
  intros
  exact .fresh (by simp)

theorem follows_handleMoveSteps {steps : Option ℤ} :
    ClientFollows isMain (BuretteOps.handleMoveSteps steps) (.handling cmd .fresh)
      (Answered cmd) := by
  cases steps with
  | none => exact follows_refusal
  | some steps =>
    exact follows_claimBurette rfl
      (follows_enqueueClaimed rfl (by simp [MotorCommandType.producesResult]))

theorem follows_applySetting {α : Type} {v : Var α} {x : α} {mc : MotorCommand}
    (hv : ClientPhase.next isMain (.handling cmd .fresh) (.store v x) () =
      some (.handling cmd .fresh)) (hmc : mc.type.restoresIdle = false) :
    ClientFollows isMain (BuretteOps.applySetting v x mc) (.handling cmd .fresh)
      (Answered cmd) := by
  simp only [BuretteOps.applySetting, load, store, Program.act_bind, Program.ret_bind,
    Protocol.conforms_act, clientProtocol_next, ClientPhase.next, Option.some.injEq,
    exists_eq_left', Bool.forall_bool, Bool.false_eq_true, if_false, if_true]
  refine ⟨fun state => ?_, follows_refusal⟩
  split
  · exact follows_refusal
  simp only [Protocol.conforms_act, clientProtocol_next, hv, Option.some.injEq, exists_eq_left',
    forall_const]
  have hsend : ClientFollows isMain (sendMotorCommand mc) (.handling cmd .fresh)
      (fun _ q => q = .handling cmd .fresh) :=
    follows_sendMotorCommand rfl fun ok => ⟨_, by simp [onSend, hmc], rfl⟩
  refine hsend.bind ?_
  intro ok q hq
  subst hq
  cases ok with
  | true => exact Protocol.conforms_pure.mpr (.fresh (by simp))
  | false => exact follows_refusal

theorem follows_handleSetDirection {dir : Option Direction} :
    ClientFollows isMain (BuretteOps.handleSetDirection dir) (.handling cmd .fresh)
      (Answered cmd) := by
  cases dir with
  | none => exact follows_refusal
  | some dir => exact follows_applySetting rfl rfl

theorem follows_handleSetSpeed {speedHz : Option ℕ} :
    ClientFollows isMain (BuretteOps.handleSetSpeed speedHz) (.handling cmd .fresh)
      (Answered cmd) := by
  cases speedHz with
  | none => exact follows_refusal
  | some speedHz => exact follows_applySetting rfl rfl

theorem follows_handleSetAccel {accel : Option ℕ} :
    ClientFollows isMain (BuretteOps.handleSetAccel accel) (.handling cmd .fresh)
      (Answered cmd) := by
  cases accel with
  | none => exact follows_refusal
  | some accel => exact follows_applySetting rfl rfl

theorem follows_handleMoveContinuous {dir : Option Direction} {freqHz : Option ℕ} :
    ClientFollows isMain (BuretteOps.handleMoveContinuous dir freqHz) (.handling cmd .fresh)
      (Answered cmd) := by
  rcases dir with _ | dir
  · exact follows_refusal
  rcases freqHz with _ | freqHz
  · exact follows_refusal
  simp only [BuretteOps.handleMoveContinuous]
  split
  · exact follows_refusal
  · exact follows_claimBurette rfl
      (follows_enqueueClaimed rfl (by simp [MotorCommandType.producesResult]))

theorem follows_espErrorCheck {err : EspErr} :
    ClientFollows isMain (espErrorCheck err) (.handling cmd .fresh)
      (fun _ q => q = .handling cmd .fresh) := by
  unfold espErrorCheck
  split <;> simp [ClientPhase.next, onHandling]

theorem follows_armValveSettleTimer {pos : ValvePosition} :
    ClientFollows isMain (armValveSettleTimer pos) (.handling cmd .fresh)
      (fun _ q => q = .handling cmd .fresh) := by
  have hprepare : ClientFollows isMain (prepareValveSettleTimer pos) (.handling cmd .fresh)
      (fun _ q => q = .handling cmd .fresh) := by
    simp only [prepareValveSettleTimer, Program.act_bind, Program.ret_bind, Protocol.conforms_act,
      clientProtocol_next, ClientPhase.next, onHandling, Option.some.injEq, exists_eq_left',
      Bool.forall_bool, Bool.false_eq_true, if_false, if_true, Protocol.conforms_pure, true_and]
    refine ⟨fun err => follows_espErrorCheck, fun err => ?_⟩
    split <;> simp [ClientPhase.next, onHandling]
  refine hprepare.bind ?_
  intro _ q hq
  subst hq
  simp only [Program.act_bind, Program.ret_bind, Protocol.conforms_act, clientProtocol_next,
    ClientPhase.next, onHandling, Option.some.injEq, exists_eq_left']
  exact fun err => follows_espErrorCheck

theorem follows_handleSetPosition {pos : Option ValvePosition} :
    ClientFollows isMain (ValveHandlers.handleSetPosition pos) (.handling cmd .fresh)
      (Answered cmd) := by
  cases pos with
  | none => exact follows_refusal
  | some pos =>
    simp only [ValveHandlers.handleSetPosition, load, setValve, gpioSetLevel, store,
      Program.act_bind, Program.ret_bind, Protocol.conforms_act, clientProtocol_next,
      ClientPhase.next, Option.some.injEq, exists_eq_left']
    intro state
    split
    · exact follows_refusal
    simp only [Protocol.conforms_act, clientProtocol_next, ClientPhase.next, onHandling,
      Option.some.injEq, exists_eq_left', Bool.forall_bool, Bool.false_eq_true, if_false, if_true,
      forall_const]
    refine ⟨follows_refusal, follows_armValveSettleTimer.bind ?_⟩
    intro _ q hq
    subst hq
    exact Protocol.conforms_pure.mpr (.fresh (by simp))

theorem follows_handleGetState :
    ClientFollows isMain ValveHandlers.handleGetState (.handling cmd .fresh) (Answered cmd) := by
  simp only [ValveHandlers.handleGetState, load, Program.act_bind, Program.ret_bind,
    Protocol.conforms_act, clientProtocol_next, ClientPhase.next, Option.some.injEq,
    exists_eq_left', Protocol.conforms_pure]
  exact fun pos => .fresh (by simp)

/-- Reading the calibration changes no phase. -/
theorem follows_calibrationRead {p : ClientPhase} :
    ClientFollows isMain calibrationRead p (fun _ q => q = p) := by
  simp [calibrationRead, store, ClientPhase.next]

/-- One key write after another; the first failure ends the writing. -/
theorem follows_unlessFailed {a : Act Bool} {rest : Firmware Bool} {p : ClientPhase}
    (ha : ∀ ok, p.next isMain a ok = some p)
    (hrest : ClientFollows isMain rest p (fun _ q => q = p)) :
    ClientFollows isMain
      (do if !(← Program.perform a) then return false else rest) p (fun _ q => q = p) := by
  simp only [Program.act_bind, Program.ret_bind, Protocol.conforms_act, clientProtocol_next, ha,
    Option.some.injEq, exists_eq_left']
  intro ok
  cases ok with
  | false => exact Protocol.conforms_pure.mpr rfl
  | true => exact hrest

theorem follows_calibrationWrite {cal : CalibrationData} {p : ClientPhase} :
    ClientFollows isMain (calibrationWrite cal) p (fun _ q => q = p) := by
  unfold calibrationWrite
  iterate 7 refine follows_unlessFailed (fun ok => by simp only [next_nvsOpen, next_nvsSet]) ?_
  simp [store, ClientPhase.next]

/-- A handler that opens with a program that changes no phase. -/
theorem follows_fresh_bind {α : Type} {prog : Firmware α} {k : α → Firmware CommandResponse}
    (hprog : ClientFollows isMain prog (.handling cmd .fresh)
      (fun _ q => q = .handling cmd .fresh))
    (hk : ∀ a, ClientFollows isMain (k a) (.handling cmd .fresh) (Answered cmd)) :
    ClientFollows isMain (prog >>= k) (.handling cmd .fresh) (Answered cmd) := by
  refine hprog.bind ?_
  intro a q hq
  subst hq
  exact hk a

theorem follows_single {body : ResponseBody} :
    ClientFollows isMain (pure { body := body }) (.handling cmd .fresh) (Answered cmd) :=
  Protocol.conforms_pure.mpr (.fresh (by simp))

theorem follows_handleGetCalibration :
    ClientFollows isMain BuretteCal.handleGetCalibration (.handling cmd .fresh)
      (Answered cmd) := by
  refine follows_fresh_bind follows_calibrationRead ?_
  intro cal
  cases cal with
  | none => exact follows_refusal
  | some cal => exact follows_single

theorem follows_handleCalcVolume {massG temperature pressure : Option ℚ} :
    ClientFollows isMain (BuretteCal.handleCalcVolume massG temperature pressure)
      (.handling cmd .fresh) (Answered cmd) := by
  cases massG with
  | none => exact follows_refusal
  | some massG =>
    simp only [BuretteCal.handleCalcVolume]
    split
    · exact follows_refusal
    refine follows_fresh_bind follows_calibrationRead ?_
    intro cal
    cases cal with
    | none => exact follows_refusal
    | some cal =>
      simpa [ClientPhase.next, onHandling] using Answered.fresh (by simp)

theorem follows_handleCalcSpeed {measurements : List (ℚ × ℚ)} :
    ClientFollows isMain (BuretteCal.handleCalcSpeed measurements) (.handling cmd .fresh)
      (Answered cmd) := by
  simp only [BuretteCal.handleCalcSpeed]
  split
  · exact follows_refusal
  refine follows_fresh_bind follows_calibrationRead ?_
  intro cal
  cases cal with
  | none => exact follows_refusal
  | some cal =>
    simpa [ClientPhase.next, onHandling] using Answered.fresh (by simp)

theorem follows_handleSaveCalibration {stepsPerMl nomVolume : Option ℚ} :
    ClientFollows isMain (BuretteCal.handleSaveCalibration stepsPerMl nomVolume)
      (.handling cmd .fresh) (Answered cmd) := by
  simp only [BuretteCal.handleSaveCalibration, load, Program.act_bind, Program.ret_bind,
    Protocol.conforms_act, clientProtocol_next, ClientPhase.next, Option.some.injEq,
    exists_eq_left']
  intro pending
  refine follows_fresh_bind follows_calibrationWrite ?_
  intro written
  cases written with
  | false => exact follows_refusal
  | true =>
    simpa [store, ClientPhase.next, onHandling] using Answered.fresh (by simp)

theorem follows_handleResetCalibration :
    ClientFollows isMain BuretteCal.handleResetCalibration (.handling cmd .fresh)
      (Answered cmd) := by
  refine follows_fresh_bind follows_calibrationWrite ?_
  intro written
  cases written with
  | false => exact follows_refusal
  | true => exact follows_single

theorem follows_handleRunCalibration {freqs : List ℚ} {speedMlMin : ℚ} :
    ClientFollows isMain (BuretteCal.handleRunCalibration freqs speedMlMin)
      (.handling cmd .fresh) (Answered cmd) := by
  simp only [BuretteCal.handleRunCalibration]
  split
  · exact follows_refusal
  · exact follows_claimBurette rfl
      (follows_enqueueClaimed rfl (by simp [MotorCommandType.producesResult]))

theorem follows_handleGetCalResult :
    ClientFollows isMain BuretteCal.handleGetCalResult (.handling cmd .fresh)
      (Answered cmd) := by
  simp only [BuretteCal.handleGetCalResult, Program.act_bind, Program.ret_bind,
    Protocol.conforms_act, clientProtocol_next, ClientPhase.next, onHandling, Option.some.injEq,
    exists_eq_left']
  intro r
  cases r with
  | none => exact follows_single
  | some r => exact follows_single

theorem follows_readTmcRegister {reg : ℕ} :
    ClientFollows isMain (StallGuard.readTmcRegister reg) (.handling cmd .fresh)
      (fun _ q => q = .handling cmd .fresh) :=
  follows_sendMotorCommand rfl fun _ =>
    ⟨_, by simp [onSend, MotorCommandType.restoresIdle, MotorCommandType.producesResult], rfl⟩

theorem follows_handleStallGuardGet :
    ClientFollows isMain StallGuard.handleStallGuardGet (.handling cmd .fresh)
      (Answered cmd) :=
  follows_fresh_bind follows_readTmcRegister fun _ =>
    follows_fresh_bind follows_readTmcRegister fun _ => follows_single

theorem follows_handleStallGuardSetThreshold {threshold : Option ℕ} :
    ClientFollows isMain (StallGuard.handleStallGuardSetThreshold threshold)
      (.handling cmd .fresh) (Answered cmd) := by
  cases threshold with
  | none => exact follows_refusal
  | some threshold =>
    have hanswer : Answered cmd { body := .threshold threshold } (.handling cmd .fresh) :=
      .fresh (by simp)
    simpa [StallGuard.handleStallGuardSetThreshold, store, ClientPhase.next, onHandling, onSend,
      MotorCommandType.restoresIdle, MotorCommandType.producesResult] using hanswer

theorem follows_handledElsewhere :
    ClientFollows isMain handledElsewhere (.handling cmd .fresh) (Answered cmd) := by
  simp only [handledElsewhere, Program.act_bind, Program.ret_bind, Protocol.conforms_act,
    clientProtocol_next, ClientPhase.next, onHandling, Option.some.injEq, exists_eq_left',
    Protocol.conforms_pure]
  intro answered
  exact .fresh (by cases answered <;> simp)

theorem follows_handlerOf :
    ClientFollows isMain (handlerOf cmd) (.handling cmd .fresh) (Answered cmd) := by
  unfold handlerOf
  cases h : cmd.type with
  | fill => exact follows_handleFill (by simp [h])
  | empty => exact follows_handleEmpty (by simp [h])
  | doseVolume => exact follows_handleDoseVolume h
  | rinse => exact follows_handleRinse (by simp [h])
  | stop => exact follows_handleStop
  | moveToStop => exact follows_handleMoveContinuous
  | emergencyStop => exact follows_handleEmergencyStop h
  | getStatus | systemGetStatus => exact follows_handleGetStatus
  | moveSteps => exact follows_handleMoveSteps
  | setDirection => exact follows_handleSetDirection
  | setSpeed => exact follows_handleSetSpeed
  | setAccel => exact follows_handleSetAccel
  | calGet => exact follows_handleGetCalibration
  | calCalcVolume => exact follows_handleCalcVolume
  | calCalcSpeed => exact follows_handleCalcSpeed
  | calSave => exact follows_handleSaveCalibration
  | calReset => exact follows_handleResetCalibration
  | calRun => exact follows_handleCalRun
  | calGetResult => exact follows_handleGetCalResult
  | calRunSpeedSeq => exact follows_handleRunCalibration
  | stallGuardGet => exact follows_handleStallGuardGet
  | stallGuardSetThreshold => exact follows_handleStallGuardSetThreshold
  | valveSetPosition => exact follows_handleSetPosition
  | valveGetState => exact follows_handleGetState
  | tempRead | adcCalGet | adcCalSave | adcCalMeasure | adcCalCompute | adcCalReset
  | systemGetFormattedLogs | systemReadLog | systemFirmwareVersion | serialPing =>
    exact follows_handledElsewhere

/-- A request is dispatched, and its handler has answered when `dispatch` returns. -/
theorem follows_dispatch :
    ClientFollows isMain (dispatch cmd) (.handling cmd .fresh) (Answered cmd) :=
  follows_handlerOf.bind fun _ _ hq => Protocol.conforms_pure.mpr hq

end Handlers

section Clients

/-- An answer that tells whether the request was accepted ends the call. -/
theorem onRespond_answered {isMain : Bool} {cmd : Command} {rsp rsp' : CommandResponse}
    {q : ClientPhase} (hq : Answered cmd rsp q) (hkind : rsp'.kind = rsp.kind)
    (hmain : isMain → rsp.kind ≠ .ackThen) : onRespond isMain rsp' q = some .waiting := by
  obtain ⟨s, rfl, hreturned, haccepted⟩ := hq
  have hclaimed : s ≠ .claimed := by
    intro h
    rw [h] at hreturned
    cases hreturned
  have hnot : (isMain && s.accepted) = false := by
    rw [Bool.and_eq_false_iff]
    by_cases h : s.accepted
    · have hack := haccepted.mpr h
      exact .inl (Bool.eq_false_iff.mpr fun hm => hmain hm hack)
    · exact .inr (Bool.eq_false_iff.mpr h)
  simp only [onRespond, hclaimed, if_false, hkind, haccepted, if_true]
  cases s <;> simp_all

theorem follows_handleLine {source : Source} {line : Request}
    (hsource : source = .ble ∨ source = .serial) :
    ClientFollows true (MainLoop.handleLine line)
      ((dispatched source line).elim .refusing fun cmd => .handling cmd .fresh)
      (fun _ q => q = .waiting) := by
  cases line with
  | malformed id =>
    rcases hsource with rfl | rfl <;>
      simp [MainLoop.handleLine, MainLoop.sendResponse, dispatched, ClientPhase.next, onRespond]
  | command cmd =>
    have hdispatched : dispatched source (.command cmd) = some cmd := by
      rcases hsource with rfl | rfl <;> rfl
    rw [hdispatched]
    refine follows_dispatch.bind ?_
    intro rsp q hq
    by_cases hack : rsp.kind = .ackThen
    · obtain ⟨s, rfl, hreturned, haccepted⟩ := hq
      have hs := haccepted.mp hack
      cases s with
      | queued mc =>
        simp [hack, MainLoop.sendResponse, store, ClientPhase.next, onStoreId, onRespond,
          ClaimStage.accepted] at hs ⊢
        simp [hs]
      | fresh | claimed | leaking | released => cases hs
      | noted mc => cases hreturned
    · have hrespond : onRespond true rsp q = some .waiting :=
        onRespond_answered hq rfl fun _ => hack
      simp [hack, MainLoop.sendResponse, ClientPhase.next, hrespond]

/-- A request is received in the loop of a client. -/
theorem follows_receive {isMain : Bool} {α : Type} {source : Source}
    {k : Option Request → Firmware α} {Q : α → ClientPhase → Prop}
    (hnone : ClientFollows isMain (k none) .waiting Q)
    (hsome : ∀ req, ClientFollows isMain (k (some req))
      ((dispatched source req).elim .refusing fun cmd => .handling cmd .fresh) Q) :
    ClientFollows isMain (Program.perform (.receiveRequest source) >>= k) .waiting Q := by
  simp only [Program.act_bind, Program.ret_bind, Protocol.conforms_act, clientProtocol_next,
    ClientPhase.next, onReceive]
  intro req
  cases req with
  | none => exact ⟨_, rfl, hnone⟩
  | some req => exact ⟨_, rfl, hsome req⟩

theorem follows_drainBle :
    ClientFollows true MainLoop.drainBle .waiting (fun _ q => q = .waiting) := by
  refine Protocol.Conforms.iterate (fun _ q => q = .waiting) ?_ rfl
  intro _ q hq
  subst hq
  refine follows_receive (Protocol.conforms_pure.mpr rfl) fun line => ?_
  refine (follows_handleLine (.inl rfl)).bind ?_
  intro _ q hq
  exact Protocol.conforms_pure.mpr hq

theorem follows_drainResult :
    ClientFollows true MainLoop.drainResult .waiting (fun _ q => q = .waiting) := by
  simp only [MainLoop.drainResult, Program.act_bind, Program.ret_bind, Protocol.conforms_act,
    clientProtocol_next, ClientPhase.next, onWaitResult, if_true, Option.some.injEq,
    exists_eq_left']
  intro r
  cases r with
  | none => exact Protocol.conforms_pure.mpr rfl
  | some r =>
    simp only [Option.elim_some, load, Program.act_bind, Program.ret_bind, Protocol.conforms_act,
      clientProtocol_next, ClientPhase.next, onLoadId, Option.some.injEq, exists_eq_left']
    intro id
    have hvolume : ClientFollows true (MainLoop.dispensedVolume r) (.draining r (some id))
        (fun _ q => q = .draining r (some id)) := by
      unfold MainLoop.dispensedVolume
      split
      · refine follows_calibrationRead.bind ?_
        intro cal q hq
        exact Protocol.conforms_pure.mpr hq
      · exact Protocol.conforms_pure.mpr rfl
    refine hvolume.bind ?_
    intro volume q hq
    subst hq
    simp [ClientPhase.next, onResultLine]

/-- The main loop follows its phases from power-up on. -/
theorem follows_appMain : ClientFollows true MainLoop.appMain .waiting (fun _ _ => True) := by
  refine Protocol.Conforms.iterate (fun _ q => q = .waiting) ?_ rfl
  intro _ q hq
  subst hq
  refine follows_drainBle.bind ?_
  intro _ q hq
  subst hq
  have hrest : ClientFollows true
      (do MainLoop.drainResult; vTaskDelay 10; return (.inl () : Unit ⊕ Unit)) .waiting
      (Sum.elim (fun _ q => q = .waiting) fun _ _ => True) := by
    refine follows_drainResult.bind ?_
    intro _ q hq
    subst hq
    simp [vTaskDelay, ClientPhase.next]
  refine follows_receive hrest fun line => ?_
  refine (follows_handleLine (.inr rfl)).bind ?_
  intro _ q hq
  subst hq
  exact hrest

theorem follows_respond {cmd : Command} {rsp rsp' : CommandResponse} {q : ClientPhase}
    (hq : Answered cmd rsp q) (hkind : rsp'.kind = rsp.kind) :
    ClientFollows false (Program.perform (.respond rsp')) q (fun _ q => q = .waiting) := by
  have hrespond : onRespond false rsp' q = some .waiting :=
    onRespond_answered hq hkind fun h => nomatch h
  simp [ClientPhase.next, hrespond]

theorem follows_commandHandler {req : Request} :
    ClientFollows false (RestApi.commandHandler req)
      ((dispatched .httpCommand req).elim .refusing fun cmd => .handling cmd .fresh)
      (fun _ q => q = .waiting) := by
  cases req with
  | malformed id => simp [RestApi.commandHandler, dispatched, ClientPhase.next, onRespond]
  | command cmd =>
    refine follows_dispatch.bind ?_
    intro rsp q hq
    refine follows_respond hq ?_
    split
    case isTrue hack => exact hack.symm
    case isFalse => rfl

theorem follows_handleCommandCore {cmd : Command} :
    ClientFollows false (RestApi.handleCommandCore cmd) (.handling cmd .fresh)
      (fun _ q => q = .waiting) := by
  refine follows_dispatch.bind ?_
  intro rsp q hq
  exact follows_respond hq rfl

theorem follows_valvePostHandler {req : Request} :
    ClientFollows false (RestApi.valvePostHandler req)
      ((dispatched .httpValvePost req).elim .refusing fun cmd => .handling cmd .fresh)
      (fun _ q => q = .waiting) := by
  cases req with
  | malformed id => simp [RestApi.valvePostHandler, dispatched, ClientPhase.next, onRespond]
  | command cmd =>
    cases hpos : cmd.valvePos with
    | none =>
      simp [RestApi.valvePostHandler, dispatched, hpos, ClientPhase.next, onRespond]
    | some pos =>
      simp only [RestApi.valvePostHandler, dispatched, hpos, Option.map_some, Option.elim_some]
      exact follows_handleCommandCore

/-- A route of the server: its handler runs if a request has come. -/
theorem follows_route {source : Source} {handler : Request → Firmware Unit} {α : Type}
    {rest : Firmware α} {Q : α → ClientPhase → Prop}
    (hhandler : ∀ req, ClientFollows false (handler req)
      ((dispatched source req).elim .refusing fun cmd => .handling cmd .fresh)
      (fun _ q => q = .waiting))
    (hrest : ClientFollows false rest .waiting Q) :
    ClientFollows false
      (do match ← Program.perform (.receiveRequest source) with
          | some req => handler req
          | none => pure ()
          rest) .waiting Q := by
  refine follows_receive hrest fun req => ?_
  refine (hhandler req).bind ?_
  intro _ q hq
  subst hq
  exact hrest

/-- The HTTP server follows its phases from power-up on. -/
theorem follows_serve : ClientFollows false RestApi.serve .waiting (fun _ _ => True) := by
  refine Protocol.Conforms.iterate (fun _ q => q = .waiting) ?_ rfl
  intro _ q hq
  subst hq
  refine follows_route (fun req => follows_commandHandler) ?_
  refine follows_route (fun req => follows_valvePostHandler) ?_
  refine follows_route (fun req => ?_) (Protocol.conforms_pure.mpr rfl)
  cases req with
  | command cmd => exact follows_handleCommandCore
  | malformed id => exact follows_handleCommandCore

/-- The timer task follows its phases from power-up on. -/
theorem follows_timerTask :
    timerProtocol.Conforms (fun _ _ => True) timerTask .idle := by
  refine Protocol.Conforms.iterate (fun _ p => p = .idle) ?_ rfl
  intro _ p hp
  subst hp
  simp only [Program.act_bind, Program.ret_bind, Protocol.conforms_act]
  intro pos
  cases pos with
  | none => exact ⟨.idle, rfl, Protocol.conforms_pure.mpr rfl⟩
  | some pos =>
    simp [timerProtocol, TimerPhase.next, TimerPhase.onExpired, TimerPhase.onBroadcast,
      TimerPhase.onStore, valveSettleCallback, wsBroadcast, store]

end Clients
end ClientPhase
end Ecotiter
