import Ecotiter.MotorActions
import Ecotiter.ValveCalls

/-!
# The tasks keep to the phases of valve calls

Most routines do nothing that concerns the valve; what remains are the opening of the handlers that
claim the burette, `handleSetPosition`, the two emergency stops and the loops of the tasks.
-/

namespace Ecotiter
open Interleaving Firmware

namespace ValveCall

attribute [local simp] load store poll storeStop gpioSetLevel vTaskDelay taskWdtReset wsBroadcast
  next
  Act.valveNeutral

section Neutral

theorem only_sendMotorCommand {mc : MotorCommand} :
    (sendMotorCommand mc).Only Act.valveNeutral := by
  simp [sendMotorCommand]

theorem only_enqueueClaimed {mc : MotorCommand} {accepted : CommandResponse} {message : String} :
    (enqueueClaimed mc accepted message).Only Act.valveNeutral := by
  refine only_sendMotorCommand.bind fun sent => ?_
  cases sent <;> simp

theorem only_calibrationRead : calibrationRead.Only Act.valveNeutral := by
  simp [calibrationRead]

theorem only_calibrationWrite {cal : CalibrationData} :
    (calibrationWrite cal).Only Act.valveNeutral := by
  simp [calibrationWrite]

theorem only_readTmcRegister {reg : ℕ} :
    (StallGuard.readTmcRegister reg).Only Act.valveNeutral :=
  only_sendMotorCommand

end Neutral

section Handlers

/-- The handler has answered. -/
abbrev Answering (_ : CommandResponse) (q : ValveCall) : Prop := q.answers

theorem follows_pure {rsp : CommandResponse} {p : ValveCall} (hp : p.answers) :
    ValveFollows (pure rsp) p Answering :=
  Protocol.conforms_pure.mpr (.inl hp)

theorem follows_only {prog : Firmware CommandResponse} (h : prog.Only Act.valveNeutral) :
    ValveFollows prog .outside Answering := by
  refine (follows_neutral h .outside).mono ?_
  intro rsp q hq
  rcases hq with rfl | rfl
  · exact .inl rfl
  · exact .inr rfl

theorem follows_claimBurette {state : BuretteState} {rest : Firmware CommandResponse}
    (hrest : rest.Only Act.valveNeutral) :
    ValveFollows (claimBurette state rest) .outside Answering := by
  simp only [claimBurette, load, Program.act_bind, Program.ret_bind, Protocol.conforms_act,
    valveProtocol_next, next, reduceCtorEq, if_false, onLoadSettling, calm, if_true, onCas,
    Option.some.injEq, exists_eq_left', Bool.forall_bool, Bool.false_eq_true]
  exact ⟨⟨follows_pure rfl, follows_only hrest⟩, follows_pure rfl⟩

theorem follows_handleFill : ValveFollows BuretteOps.handleFill .outside Answering := by
  refine follows_claimBurette ?_
  simp [Option.forall, only_enqueueClaimed]

theorem follows_handleEmpty : ValveFollows BuretteOps.handleEmpty .outside Answering := by
  refine follows_claimBurette ?_
  simp [Option.forall, only_enqueueClaimed]

theorem follows_handleDoseVolume {volume speedMlMin : Option ℚ} :
    ValveFollows (BuretteOps.handleDoseVolume volume speedMlMin) .outside Answering := by
  cases volume with
  | none => exact follows_pure rfl
  | some volume =>
    refine follows_claimBurette ?_
    simp only [Option.forall, load, store, Program.act_bind, Program.ret_bind, Program.only_act,
      Program.only_pure, Act.valveNeutral, true_and]
    intro cal vol
    split <;> simp [only_enqueueClaimed]

theorem follows_handleRinse {cycles : Option ℕ} :
    ValveFollows (BuretteOps.handleRinse cycles) .outside Answering := by
  rcases cycles with _ | _ | n
  · exact follows_pure rfl
  · exact follows_pure rfl
  · refine follows_claimBurette ?_
    simp [Option.forall, only_enqueueClaimed]

theorem follows_handleMoveSteps {steps : Option ℤ} :
    ValveFollows (BuretteOps.handleMoveSteps steps) .outside Answering := by
  cases steps with
  | none => exact follows_pure rfl
  | some steps => exact follows_claimBurette only_enqueueClaimed

theorem follows_handleMoveContinuous {dir : Option Direction} {freqHz : Option ℕ} :
    ValveFollows (BuretteOps.handleMoveContinuous dir freqHz) .outside Answering := by
  rcases dir with _ | dir
  · exact follows_pure rfl
  rcases freqHz with _ | freqHz
  · exact follows_pure rfl
  simp only [BuretteOps.handleMoveContinuous]
  split
  · exact follows_pure rfl
  · exact follows_claimBurette only_enqueueClaimed

theorem follows_handleRunCalibration {freqs : List ℚ} {speedMlMin : ℚ} :
    ValveFollows (BuretteCal.handleRunCalibration freqs speedMlMin) .outside Answering := by
  simp only [BuretteCal.handleRunCalibration]
  split
  · exact follows_pure rfl
  · exact follows_claimBurette only_enqueueClaimed

theorem follows_handleCalRun {mode : Option String} {freqHz speedMlMin : Option ℚ} :
    ValveFollows (BuretteOps.handleCalRun mode freqHz speedMlMin) .outside Answering := by
  cases mode with
  | none => exact follows_pure rfl
  | some mode =>
    simp only [BuretteOps.handleCalRun, load, Program.act_bind, Program.ret_bind,
      Protocol.conforms_act, valveProtocol_next, next, reduceCtorEq, if_false, onLoadSettling,
      calm, if_true, Option.some.injEq, exists_eq_left', Bool.forall_bool, Bool.false_eq_true]
    refine ⟨fun cal => ?_, follows_pure rfl⟩
    cases cal with
    | none => exact follows_pure rfl
    | some cal =>
      simp only [Protocol.conforms_act, valveProtocol_next, next, reduceCtorEq, if_false,
        onLoadState, if_true, Option.some.injEq, exists_eq_left']
      intro state
      generalize planCalRun _ _ _ _ _ _ = plan
      by_cases hreject : plan.action = .reject
      · rw [if_pos hreject]
        exact follows_pure rfl
      simp only [hreject, if_false, Protocol.conforms_act, valveProtocol_next, next, reduceCtorEq,
        onCas, Option.some.injEq, exists_eq_left', Bool.forall_bool, Bool.false_eq_true, if_true]
      exact ⟨follows_pure rfl, follows_only only_enqueueClaimed⟩

theorem follows_handleStop : ValveFollows BuretteOps.handleStop .outside Answering := by
  simp only [BuretteOps.handleStop, load, Program.act_bind, Program.ret_bind,
    Protocol.conforms_act, valveProtocol_next, next, reduceCtorEq, if_false, onLoadSettling, calm,
    if_true, onCas, Option.some.injEq, exists_eq_left', Bool.forall_bool, Bool.false_eq_true]
  exact ⟨⟨follows_pure rfl, follows_only only_enqueueClaimed⟩, follows_pure rfl⟩

/-- The timer is cancelled from outside every other section. -/
theorem follows_cancelValveSettleTimer {p : ValveCall} (hp : p.calm) :
    ValveFollows cancelValveSettleTimer p (fun _ q => q = .cancelled) := by
  have hlive : p ≠ .dead := by
    intro h
    rw [h] at hp
    cases hp
  simp only [cancelValveSettleTimer, Program.act_bind, Program.ret_bind, Protocol.conforms_act,
    valveProtocol_next, next, hlive, reduceCtorEq, if_false, onExchange, hp, if_true,
    Option.some.injEq, exists_eq_left', Bool.forall_bool, Bool.false_eq_true, onIsCreated, onStop,
    Protocol.conforms_pure, true_or, true_and]
  intro err
  cases err <;> simp [next]

theorem follows_handleEmergencyStop :
    ValveFollows BuretteOps.handleEmergencyStop .outside Answering := by
  refine (follows_cancelValveSettleTimer rfl).andThen ?_
  intro _ q hq
  subst hq
  simp only [store, storeStop, Program.act_bind, Program.ret_bind, Protocol.conforms_act,
    valveProtocol_next, next, reduceCtorEq, if_false, onStoreSettling, onCas, if_true,
    Bool.false_eq_true, Option.some.injEq, exists_eq_left', forall_const]
  refine follows_only (only_sendMotorCommand.bind fun sent => ?_)
  cases sent <;> simp

theorem follows_handleGetStatus :
    ValveFollows BuretteOps.handleGetStatus .outside Answering := by
  simp only [BuretteOps.handleGetStatus, load, Program.act_bind, Program.ret_bind,
    Protocol.conforms_act, valveProtocol_next, next, reduceCtorEq, if_false, onLoadState, calm,
    if_true, Option.some.injEq, exists_eq_left', Protocol.conforms_pure]
  intro state temperature position mv direction speed accel volume
  refine .inl ?_
  by_cases hidle : state = .idle
  · rw [if_pos hidle]
    rfl
  · rw [if_neg hidle]
    rfl

/-- A setter reads the flag and the state, and claims nothing. -/
theorem follows_applySetting {α : Type} {v : Var α} {x : α} {mc : MotorCommand}
    (hv : Act.valveNeutral (.store v x)) :
    ValveFollows (BuretteOps.applySetting v x mc) .outside Answering := by
  have hset : ∀ p : ValveCall, p.answers → ValveFollows
      (do store v x
          if ← sendMotorCommand mc then return makeSingleResponse BuretteOps.statusOk
          else return makeErrorResponse "busy") p Answering := by
    intro p hp
    have hstore : (store v x).Only Act.valveNeutral := ⟨hv, fun _ => trivial⟩
    refine (follows_neutral hstore p).andThen ?_
    intro _ q hq
    subst hq
    refine (follows_neutral only_sendMotorCommand q).andThen ?_
    intro sent q hq
    subst hq
    cases sent <;> exact follows_pure hp
  simp only [BuretteOps.applySetting, load, Program.act_bind, Program.ret_bind,
    Protocol.conforms_act, valveProtocol_next, next, reduceCtorEq, if_false, onLoadSettling, calm,
    if_true, onLoadState, Option.some.injEq, exists_eq_left', Bool.forall_bool, Bool.false_eq_true]
  refine ⟨fun state => ?_, follows_pure rfl⟩
  split
  · exact follows_pure rfl
  · exact hset .valveClear rfl

theorem follows_handleSetDirection {dir : Option Direction} :
    ValveFollows (BuretteOps.handleSetDirection dir) .outside Answering := by
  cases dir with
  | none => exact follows_pure rfl
  | some dir => exact follows_applySetting rfl

theorem follows_handleSetSpeed {speedHz : Option ℕ} :
    ValveFollows (BuretteOps.handleSetSpeed speedHz) .outside Answering := by
  cases speedHz with
  | none => exact follows_pure rfl
  | some speedHz => exact follows_applySetting rfl

theorem follows_handleSetAccel {accel : Option ℕ} :
    ValveFollows (BuretteOps.handleSetAccel accel) .outside Answering := by
  cases accel with
  | none => exact follows_pure rfl
  | some accel => exact follows_applySetting rfl

/-- `armValveSettleTimer` with the flag raised. -/
theorem follows_armValveSettleTimer {pos : ValvePosition} :
    ValveFollows (armValveSettleTimer pos) .acquired (fun _ q => ∃ first, q = .started first) := by
  have hprepare : ValveFollows (prepareValveSettleTimer pos) .acquired
      (fun _ q => q = .rearming false ∨ q = .created) := by
    simp only [prepareValveSettleTimer, Program.act_bind, Program.ret_bind, Protocol.conforms_act,
      valveProtocol_next, next, reduceCtorEq, if_false, onIsCreated, if_true, onExchange, onStop,
      onCreate, Option.some.injEq, exists_eq_left', Bool.forall_bool, Bool.false_eq_true,
      Protocol.conforms_pure, true_and, or_false]
    constructor
    · intro err
      cases err <;> simp [espErrorCheck, next]
    · intro err
      cases err <;> simp [next]
  refine hprepare.andThen ?_
  intro _ q hq
  rcases hq with rfl | rfl
  all_goals
    simp only [Program.act_bind, Program.ret_bind, Protocol.conforms_act, valveProtocol_next, next,
      reduceCtorEq, if_false, onStart, Option.some.injEq, exists_eq_left']
    intro err
    cases err <;> simp [espErrorCheck, next]

theorem follows_handleSetPosition {pos : Option ValvePosition} :
    ValveFollows (ValveHandlers.handleSetPosition pos) .outside Answering := by
  cases pos with
  | none => exact follows_pure rfl
  | some pos =>
    simp only [ValveHandlers.handleSetPosition, load, setValve, gpioSetLevel, store,
      Program.act_bind, Program.ret_bind, Protocol.conforms_act, valveProtocol_next, next,
      reduceCtorEq, if_false, onLoadState, calm, if_true, Option.some.injEq, exists_eq_left']
    intro state
    by_cases hidle : state = .idle
    · simp only [hidle, ne_eq, not_true_eq_false, if_false, if_true, Protocol.conforms_act,
        valveProtocol_next, next, reduceCtorEq, onAcquire, Option.some.injEq, exists_eq_left',
        Bool.forall_bool, Bool.false_eq_true, forall_const]
      refine ⟨follows_pure rfl, ValveFollows.andThen follows_armValveSettleTimer ?_⟩
      rintro _ _ ⟨first, rfl⟩
      exact follows_pure rfl
    · simp only [ne_eq, hidle, not_false_eq_true, if_true, if_false]
      exact follows_pure rfl

theorem only_handleCalcVolume {massG temperature pressure : Option ℚ} :
    (BuretteCal.handleCalcVolume massG temperature pressure).Only Act.valveNeutral := by
  cases massG with
  | none => exact trivial
  | some massG =>
    simp only [BuretteCal.handleCalcVolume]
    split
    · exact trivial
    · refine only_calibrationRead.bind fun cal => ?_
      cases cal <;> simp

theorem only_handleCalcSpeed {measurements : List (ℚ × ℚ)} :
    (BuretteCal.handleCalcSpeed measurements).Only Act.valveNeutral := by
  simp only [BuretteCal.handleCalcSpeed]
  split
  · exact trivial
  · refine only_calibrationRead.bind fun cal => ?_
    cases cal <;> simp

theorem only_handleSaveCalibration {stepsPerMl nomVolume : Option ℚ} :
    (BuretteCal.handleSaveCalibration stepsPerMl nomVolume).Only Act.valveNeutral := by
  simp only [BuretteCal.handleSaveCalibration, load, Program.act_bind, Program.ret_bind,
    Program.only_act, Act.valveNeutral, true_and]
  intro pending
  refine only_calibrationWrite.bind fun written => ?_
  cases written <;> simp

theorem only_handleResetCalibration :
    BuretteCal.handleResetCalibration.Only Act.valveNeutral := by
  refine only_calibrationWrite.bind fun written => ?_
  cases written <;> simp

theorem only_handleStallGuardSetThreshold {threshold : Option ℕ} :
    (StallGuard.handleStallGuardSetThreshold threshold).Only Act.valveNeutral := by
  cases threshold <;> simp [StallGuard.handleStallGuardSetThreshold]

theorem follows_handlerOf {cmd : Command} : ValveFollows (handlerOf cmd) .outside Answering := by
  unfold handlerOf
  cases cmd.type with
  | fill => exact follows_handleFill
  | empty => exact follows_handleEmpty
  | doseVolume => exact follows_handleDoseVolume
  | rinse => exact follows_handleRinse
  | stop => exact follows_handleStop
  | moveToStop => exact follows_handleMoveContinuous
  | emergencyStop => exact follows_handleEmergencyStop
  | getStatus | systemGetStatus => exact follows_handleGetStatus
  | moveSteps => exact follows_handleMoveSteps
  | setDirection => exact follows_handleSetDirection
  | setSpeed => exact follows_handleSetSpeed
  | setAccel => exact follows_handleSetAccel
  | calGet =>
    refine follows_only (only_calibrationRead.bind fun cal => ?_)
    cases cal <;> simp
  | calCalcVolume => exact follows_only only_handleCalcVolume
  | calCalcSpeed => exact follows_only only_handleCalcSpeed
  | calSave => exact follows_only only_handleSaveCalibration
  | calReset => exact follows_only only_handleResetCalibration
  | calRun => exact follows_handleCalRun
  | calGetResult =>
    exact follows_only (by simp [BuretteCal.handleGetCalResult, Option.forall])
  | calRunSpeedSeq => exact follows_handleRunCalibration
  | stallGuardGet =>
    exact follows_only (only_readTmcRegister.bind fun _ => only_readTmcRegister.bind fun _ => trivial)
  | stallGuardSetThreshold => exact follows_only only_handleStallGuardSetThreshold
  | valveSetPosition => exact follows_handleSetPosition
  | valveGetState => exact follows_only (by simp [ValveHandlers.handleGetState])
  | tempRead | adcCalGet | adcCalSave | adcCalMeasure | adcCalCompute | adcCalReset
  | systemGetFormattedLogs | systemReadLog | systemFirmwareVersion | serialPing =>
    exact follows_only (by simp [handledElsewhere])

theorem follows_dispatch {cmd : Command} : ValveFollows (dispatch cmd) .outside Answering :=
  ValveFollows.andThen follows_handlerOf fun _ _ hq => follows_pure hq

end Handlers

section Tasks

/-- A client between two calls. -/
abbrev Between {α : Type} (_ : α) (q : ValveCall) : Prop := q = .outside

/-- The answer ends the call. -/
theorem follows_respond {rsp : CommandResponse} {q : ValveCall} (hq : q.answers) :
    ValveFollows (Program.perform (.respond rsp)) q Between := by
  have hlive : q ≠ .dead := by
    intro h
    rw [h] at hq
    cases hq
  simp [next, hlive, onRespond, hq]

theorem follows_handleLine {line : Request} :
    ValveFollows (MainLoop.handleLine line) .outside Between := by
  cases line with
  | malformed id => exact follows_respond rfl
  | command cmd =>
    refine ValveFollows.andThen follows_dispatch ?_
    intro rsp q hq
    by_cases hack : rsp.kind = .ackThen
    · rw [if_pos hack]
      have hstore : (store .lastCmdId cmd.id).Only Act.valveNeutral := by simp
      refine (follows_neutral hstore q).andThen ?_
      intro _ q' hq'
      subst hq'
      exact follows_respond hq
    · rw [if_neg hack]
      exact follows_respond hq

/-- A request may come or not. -/
theorem follows_receive {α : Type} {source : Source} {k : Option Request → Firmware α}
    {Q : α → ValveCall → Prop} (hk : ∀ req, ValveFollows (k req) .outside Q) :
    ValveFollows (Program.perform (.receiveRequest source) >>= k) .outside Q := by
  simp only [Program.act_bind, Program.ret_bind, Protocol.conforms_act, valveProtocol_next,
    next_receiveRequest, Option.some.injEq, exists_eq_left']
  exact hk

theorem follows_drainBle : ValveFollows MainLoop.drainBle .outside Between := by
  refine ValveFollows.iterate (fun _ q => q = .outside) ?_ rfl
  intro _ q hq
  subst hq
  refine follows_receive fun req => ?_
  cases req with
  | none => exact Protocol.conforms_pure.mpr (.inl rfl)
  | some line =>
    refine ValveFollows.andThen follows_handleLine ?_
    intro _ q hq
    exact Protocol.conforms_pure.mpr (.inl hq)

theorem only_drainResult : MainLoop.drainResult.Only Act.valveNeutral := by
  simp only [MainLoop.drainResult, Program.act_bind, Program.ret_bind, Program.only_act,
    Act.valveNeutral, true_and]
  intro r
  cases r with
  | none => exact trivial
  | some r =>
    simp only [load, Program.act_bind, Program.ret_bind, Program.only_act, Act.valveNeutral,
      true_and]
    intro id
    refine Program.Only.bind ?_ fun volume => by simp
    unfold MainLoop.dispensedVolume
    split
    · exact only_calibrationRead.bind fun cal => trivial
    · exact trivial

/-- The main loop follows the phases of valve calls from power-up on. -/
theorem follows_appMain : ValveFollows MainLoop.appMain .outside (fun _ _ => True) := by
  refine ValveFollows.iterate (fun _ q => q = .outside) ?_ rfl
  intro _ q hq
  subst hq
  have hrest : ValveFollows
      (do MainLoop.drainResult; vTaskDelay 10; return (.inl () : Unit ⊕ Unit)) .outside
      (Sum.elim (fun _ q => q = .outside) fun _ _ => True) := by
    have honly : (do MainLoop.drainResult; vTaskDelay 10; return (.inl () : Unit ⊕ Unit)).Only
        Act.valveNeutral := only_drainResult.bind fun _ => by simp
    refine (follows_neutral honly .outside).mono ?_
    intro r q hq
    cases r with
    | inl _ => exact hq
    | inr _ => exact .inl trivial
  refine ValveFollows.andThen follows_drainBle ?_
  intro _ q hq
  subst hq
  refine follows_receive fun req => ?_
  cases req with
  | none => exact hrest
  | some line =>
    refine ValveFollows.andThen follows_handleLine ?_
    intro _ q hq
    subst hq
    exact hrest

theorem follows_commandHandler {req : Request} :
    ValveFollows (RestApi.commandHandler req) .outside Between := by
  cases req with
  | malformed id => exact follows_respond rfl
  | command cmd => exact ValveFollows.andThen follows_dispatch fun _ _ hq => follows_respond hq

theorem follows_handleCommandCore {cmd : Command} :
    ValveFollows (RestApi.handleCommandCore cmd) .outside Between :=
  ValveFollows.andThen follows_dispatch fun _ _ hq => follows_respond hq

theorem follows_valvePostHandler {req : Request} :
    ValveFollows (RestApi.valvePostHandler req) .outside Between := by
  cases req with
  | malformed id => exact follows_respond rfl
  | command cmd =>
    cases hpos : cmd.valvePos with
    | none =>
      simp only [RestApi.valvePostHandler, hpos]
      exact follows_respond rfl
    | some pos =>
      simp only [RestApi.valvePostHandler, hpos]
      exact follows_handleCommandCore

/-- A route of the server: its handler runs if a request has come. -/
theorem follows_route {source : Source} {handler : Request → Firmware Unit} {α : Type}
    {rest : Firmware α} {Q : α → ValveCall → Prop}
    (hhandler : ∀ req, ValveFollows (handler req) .outside Between)
    (hrest : ValveFollows rest .outside Q) :
    ValveFollows
      (do match ← Program.perform (.receiveRequest source) with
          | some req => handler req
          | none => pure ()
          rest) .outside Q := by
  refine follows_receive fun req => ?_
  cases req with
  | none => exact hrest
  | some req =>
    refine (hhandler req).andThen ?_
    intro _ q hq
    subst hq
    exact hrest

/-- The HTTP server follows the phases of valve calls from power-up on. -/
theorem follows_serve : ValveFollows RestApi.serve .outside (fun _ _ => True) := by
  refine ValveFollows.iterate (fun _ q => q = .outside) ?_ rfl
  intro _ q hq
  subst hq
  refine follows_route (fun req => follows_commandHandler) ?_
  refine follows_route (fun req => follows_valvePostHandler) ?_
  refine follows_route (fun req => follows_handleCommandCore) ?_
  exact Protocol.conforms_pure.mpr (.inl rfl)

/-- The routines of the motor task stay out of the sections that concern the timer. -/
theorem follows_ofMotor {α : Type} {prog : Firmware α} (h : prog.Only Act.ofMotor) {p : ValveCall}
    (hp : p.calm) : ValveFollows prog p (fun _ q => q.calm) := by
  refine h.conforms ?_ (.inl hp)
  intro p hp β a b ha
  rcases hp with hp | rfl
  · have hlive : p ≠ .dead := by
      intro h
      rw [h] at hp
      cases hp
    have hneutral : a.valveNeutral → ∃ q, p.next a b = some q ∧ (q.calm ∨ q = .dead) :=
      fun ha => ⟨p, next_neutral p a b ha, .inl hp⟩
    induction a with
    | load v =>
      induction v with
      | buretteState =>
        by_cases hv : p = .valveClear
        · exact ⟨.valveClear, by simp [next, onLoadState, hv], .inl rfl⟩
        · have hnext : p.next (.load .buretteState) b =
              some (if b = .idle then .stateIdle else .outside) := by
            simp [next, hlive, onLoadState, hv, hp]
          refine ⟨_, hnext, .inl ?_⟩
          split <;> rfl
      | _ => first | exact hneutral rfl | cases ha
    | store v x => induction v <;> first | exact hneutral rfl | cases ha
    | abort => exact ⟨.dead, rfl, .inr rfl⟩
    | _ => first | exact hneutral rfl | cases ha
  · exact ⟨.dead, next_dead a b, .inr rfl⟩

theorem follows_handle {cmd : MotorCommand} {p : ValveCall} (hp : p.calm) :
    ValveFollows (MotorTask.handle cmd) p (fun _ q => q.calm) := by
  by_cases ht : cmd.type = .emergencyStop
  · have hhandle : MotorTask.handle cmd = MotorTask.handleEmergencyStop := by
      simp [MotorTask.handle, ht]
    rw [hhandle]
    refine (follows_cancelValveSettleTimer hp).andThen ?_
    intro _ q hq
    subst hq
    simp [next, onStoreSettling, calm]
  · exact follows_ofMotor (only_handle ht) hp

/-- The motor task follows the phases of valve calls from power-up on. -/
theorem follows_motorTaskEntry :
    ValveFollows MotorTask.motorTaskEntry .outside (fun _ _ => True) := by
  have hqueues : MotorTask.createMotorQueues.Only Act.ofMotor := by
    refine .andThen rfl fun created => ?_
    cases created with
    | true => exact ⟨rfl, fun _ => trivial⟩
    | false => exact trivial
  refine (follows_ofMotor hqueues rfl).andThen ?_
  intro created p hp
  cases created with
  | false => exact Protocol.conforms_pure.mpr (.inl trivial)
  | true =>
    have hloop : ∀ q : ValveCall, q.calm →
        ValveFollows MotorTask.commandLoop q (fun _ _ => True) := by
      intro q hq
      refine ValveFollows.iterate (fun _ q => q.calm) ?_ hq
      intro _ q hq
      simp only [taskWdtReset, Program.act_bind, Program.ret_bind, Protocol.conforms_act,
        valveProtocol_next, next, Option.some.injEq, exists_eq_left', forall_const]
      intro cmd
      cases cmd with
      | none => exact Protocol.conforms_pure.mpr (.inl hq)
      | some cmd =>
        refine (follows_handle hq).andThen ?_
        intro _ q hq
        exact Protocol.conforms_pure.mpr (.inl hq)
    have hthen : ∀ {α : Type} {prog : Firmware α} {rest : Firmware Unit}, prog.Only Act.ofMotor →
        (∀ q : ValveCall, q.calm → ValveFollows rest q (fun _ _ => True)) →
        ∀ q : ValveCall, q.calm → ValveFollows (do let _ ← prog; rest) q (fun _ _ => True) :=
      fun hprog hrest q hq => (follows_ofMotor hprog hq).andThen fun _ q hq => hrest q hq
    have hact : ∀ {a : Act Unit}, a.ofMotor → (Program.perform a).Only Act.ofMotor :=
      fun ha => ⟨ha, fun _ => trivial⟩
    refine hthen (hact rfl) (hthen (hact rfl) ?_) p hp
    exact hthen (only_configureTmcUart.mono Act.ofMotor_of_ofMotion)
      (hthen (only_runHoming.mono Act.ofMotor_of_ofDrive) (hthen (hact rfl) hloop))

end Tasks
end ValveCall
end Ecotiter
