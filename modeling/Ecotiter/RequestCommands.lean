import Ecotiter.CommandOrigins
import Ecotiter.LayeredRuns

/-!
# What the clients send for a request

Each handler sends at most the motor commands of its own kind, so the commands in the queue say what
was requested.
-/

namespace Ecotiter
open Interleaving Firmware

/-- The motor commands the handler of a request may send. -/
def Command.sends (cmd : Command) (mc : MotorCommand) : Bool :=
  match cmd.type with
  | .fill | .doseVolume => mc.type = .moveSteps && mc.direction = .liqIn
  | .empty => mc.type = .moveSteps && mc.direction = .liqOut
  | .moveSteps => mc.type = .moveSteps
  | .rinse =>
    mc.type = .startRinse &&
      (cmd.volume.map toU32).any fun n => n ≠ 0 && mc.startRinse.cycles = toU8 n
  | .calRun => mc.type = .startCalDose || mc.type = .startCalSpeed
  | .calRunSpeedSeq =>
    mc.type = .startCalSpeedSeq && 2 ≤ cmd.freqsArray.length &&
      mc.startCalSpeedSeq.freqs = BuretteCal.seqFreqs cmd.freqsArray
  | .moveToStop =>
    mc.type = .moveContinuous && mc.speedHz ≠ 0 && cmd.direction = some mc.direction
  | .stop => mc.type = .stop
  | .emergencyStop => mc.type = .emergencyStop
  | .setDirection => mc.type = .setDirection && cmd.direction = some mc.direction
  | .setSpeed => mc.type = .setSpeed && cmd.speed = some mc.speedHz
  | .setAccel => mc.type = .setAccel
  | .stallGuardGet => mc.type = .readTmcRegister
  | .stallGuardSetThreshold => mc.type = .setStallThreshold
  | _ => false

/-- The actions by which a command reads variables and keeps the calibration records. -/
def Act.keepsRecords : {β : Type} → Act β → Bool
  | _, .load _ | _, .assignPendingCal _ | _, .nvsOpen _ | _, .nvsGet _ | _, .nvsSet _ _
  | _, .peekResult | _, .handledElsewhere => true
  | _, .store .calCache _ | _, .store .pendingCal _ => true
  | _, _ => false

/-- The commands that neither move anything nor send a motor command. -/
def CommandType.keepsRecords : CommandType → Bool
  | .calGet | .calCalcVolume | .calCalcSpeed | .calSave | .calReset | .calGetResult
  | .getStatus | .systemGetStatus | .valveGetState
  | .tempRead | .adcCalGet | .adcCalSave | .adcCalMeasure | .adcCalCompute | .adcCalReset
  | .systemGetFormattedLogs | .systemReadLog | .systemFirmwareVersion | .serialPing => true
  | _ => false

section Records

theorem only_calibrationRead : calibrationRead.Only Act.keepsRecords := by
  refine .andThen rfl fun ok => ?_
  cases ok with
  | false => exact trivial
  | true => simp [store, Act.keepsRecords]

/-- A write that gives up at the first failure. -/
theorem only_unlessFailed {a : Act Bool} {rest : Firmware Bool} (ha : a.keepsRecords)
    (h : rest.Only Act.keepsRecords) :
    (do if !(← Program.perform a) then return false else rest : Firmware Bool).Only
      Act.keepsRecords := by
  refine .andThen ha fun ok => ?_
  cases ok with
  | false => exact trivial
  | true => exact h

theorem only_calibrationWrite {cal : CalibrationData} :
    (calibrationWrite cal).Only Act.keepsRecords := by
  refine only_unlessFailed rfl <| only_unlessFailed rfl <| only_unlessFailed rfl <|
    only_unlessFailed rfl <| only_unlessFailed rfl <| only_unlessFailed rfl <|
    only_unlessFailed rfl ?_
  exact .andThen rfl fun _ => trivial

theorem only_handleCalcVolume {massG temperature pressure : Option ℚ} :
    (BuretteCal.handleCalcVolume massG temperature pressure).Only Act.keepsRecords := by
  cases massG with
  | none => exact trivial
  | some massG =>
    simp only [BuretteCal.handleCalcVolume]
    split
    · exact trivial
    · refine only_calibrationRead.bind fun cal => ?_
      cases cal with
      | none => exact trivial
      | some cal => exact .andThen rfl fun _ => trivial

theorem only_handleCalcSpeed {measurements : List (ℚ × ℚ)} :
    (BuretteCal.handleCalcSpeed measurements).Only Act.keepsRecords := by
  unfold BuretteCal.handleCalcSpeed
  split
  · exact trivial
  · refine only_calibrationRead.bind fun cal => ?_
    cases cal with
    | none => exact trivial
    | some cal => exact .andThen rfl fun _ => trivial

/-- The handlers that send nothing. -/
theorem only_recordHandlers {cmd : Command} (h : cmd.type.keepsRecords) :
    (handlerOf cmd).Only Act.keepsRecords := by
  unfold handlerOf
  cases ht : cmd.type with
  | calGet =>
    refine only_calibrationRead.bind fun cal => ?_
    cases cal <;> exact trivial
  | calCalcVolume => exact only_handleCalcVolume
  | calCalcSpeed => exact only_handleCalcSpeed
  | calSave =>
    refine .andThen rfl fun pending => only_calibrationWrite.bind fun ok => ?_
    cases ok with
    | false => exact trivial
    | true => exact .andThen rfl fun _ => trivial
  | calReset =>
    refine only_calibrationWrite.bind fun ok => ?_
    cases ok <;> exact trivial
  | calGetResult =>
    refine .andThen rfl fun result => ?_
    cases result <;> exact trivial
  | valveGetState => exact .andThen rfl fun _ => trivial
  | getStatus | systemGetStatus =>
    refine .andThen rfl fun _ => .andThen rfl fun _ => .andThen rfl fun _ => .andThen rfl fun _ => ?_
    refine .andThen rfl fun _ => .andThen rfl fun _ => .andThen rfl fun _ => .andThen rfl fun _ => ?_
    exact trivial
  | tempRead | adcCalGet | adcCalSave | adcCalMeasure | adcCalCompute | adcCalReset
  | systemGetFormattedLogs | systemReadLog | systemFirmwareVersion | serialPing =>
    exact .andThen rfl fun _ => trivial
  | _ => rw [ht] at h; cases h

end Records

/-- The actions of a handler that sends only what `P` admits. -/
def Act.sending (P : MotorCommand → Bool) : {β : Type} → Act β → Bool
  | _, .xQueueSend mc => P mc
  | _, .receiveRequest _ | _, .respond _ => false
  | _, _ => true

section Handlers
variable {P : MotorCommand → Bool}

theorem only_sendMotorCommand {mc : MotorCommand} (h : P mc) :
    (sendMotorCommand mc).Only (Act.sending P) := by
  refine .andThen rfl fun created => ?_
  cases created with
  | true => exact ⟨h, fun _ => trivial⟩
  | false => exact trivial

theorem only_claimBurette {state : BuretteState} {next : Firmware CommandResponse}
    (h : next.Only (Act.sending P)) : (claimBurette state next).Only (Act.sending P) := by
  refine .andThen rfl fun settling => ?_
  cases settling with
  | true => exact trivial
  | false =>
    refine .andThen rfl fun ok => ?_
    cases ok with
    | true => exact h
    | false => exact trivial

theorem only_enqueueClaimed {mc : MotorCommand} {accepted : CommandResponse} {message : String}
    (h : P mc) : (enqueueClaimed mc accepted message).Only (Act.sending P) := by
  refine (only_sendMotorCommand h).bind fun sent => ?_
  cases sent with
  | true => exact trivial
  | false => exact .andThen rfl fun _ => trivial

theorem only_applySetting {α : Type} {v : Var α} {x : α} {mc : MotorCommand} (h : P mc) :
    (BuretteOps.applySetting v x mc).Only (Act.sending P) := by
  refine .andThen rfl fun settling => ?_
  cases settling with
  | true => exact trivial
  | false =>
    refine .andThen rfl fun state => ?_
    split
    · exact trivial
    · refine .andThen rfl fun _ => (only_sendMotorCommand h).bind fun sent => ?_
      cases sent <;> exact trivial

theorem only_cancelValveSettleTimer : cancelValveSettleTimer.Only (Act.sending P) := by
  refine .andThen rfl fun armed => ?_
  cases armed with
  | false => exact trivial
  | true =>
    refine .andThen rfl fun created => ?_
    cases created with
    | false => exact trivial
    | true =>
      refine .andThen rfl fun err => ?_
      split
      · exact ⟨rfl, fun _ => trivial⟩
      · exact trivial

/-- What follows a load of the cache. -/
theorem only_loadCal {f : CalibrationData → Firmware CommandResponse}
    (h : ∀ cal, (f cal).Only (Act.sending P)) :
    (do match ← load .calCache with
        | none => return makeErrorResponse "start_failed"
        | some cal => f cal : Firmware CommandResponse).Only (Act.sending P) := by
  refine .andThen rfl fun cache => ?_
  cases cache with
  | none => exact trivial
  | some cal => exact h cal

theorem only_handleFill (h : ∀ mc : MotorCommand, mc.type = .moveSteps → mc.direction = .liqIn → P mc) :
    BuretteOps.handleFill.Only (Act.sending P) := by
  refine only_claimBurette (only_loadCal fun cal => ?_)
  refine .andThen rfl fun _ => .andThen rfl fun speedHz => .andThen rfl fun accel => ?_
  exact only_enqueueClaimed (h _ rfl rfl)

theorem only_handleEmpty
    (h : ∀ mc : MotorCommand, mc.type = .moveSteps → mc.direction = .liqOut → P mc) :
    BuretteOps.handleEmpty.Only (Act.sending P) := by
  refine only_claimBurette (only_loadCal fun cal => .andThen rfl fun curVol => ?_)
  refine .andThen rfl fun _ => .andThen rfl fun speedHz => .andThen rfl fun accel => ?_
  exact only_enqueueClaimed (h _ rfl rfl)

theorem only_handleDoseVolume {volume speedMlMin : Option ℚ}
    (h : ∀ mc : MotorCommand, mc.type = .moveSteps → mc.direction = .liqIn → P mc) :
    (BuretteOps.handleDoseVolume volume speedMlMin).Only (Act.sending P) := by
  cases volume with
  | none => exact trivial
  | some volume =>
    refine only_claimBurette (only_loadCal fun cal => .andThen rfl fun currentVol => ?_)
    by_cases hvalid : (planDose volume currentVol cal).valid
    · simp only [hvalid, Bool.not_true, Bool.false_eq_true, if_false]
      refine .andThen rfl fun speed => .andThen rfl fun _ => .andThen rfl fun accel => ?_
      exact only_enqueueClaimed (h _ rfl rfl)
    · simp only [hvalid, Bool.not_false, if_true]
      exact trivial

theorem only_handleRinse {cycles : Option ℕ}
    (h : ∀ n mc, cycles = some n → n ≠ 0 → mc.type = MotorCommandType.startRinse →
      mc.startRinse.cycles = toU8 n → P mc) :
    (BuretteOps.handleRinse cycles).Only (Act.sending P) := by
  rcases cycles with _ | _ | n
  · exact trivial
  · exact trivial
  · refine only_claimBurette (only_loadCal fun cal => ?_)
    exact only_enqueueClaimed (h (n + 1) _ rfl (Nat.succ_ne_zero n) rfl rfl)

theorem only_handleCalRun {mode : Option String} {freqHz speedMlMin : Option ℚ}
    (h : ∀ mc : MotorCommand, mc.type = .startCalDose ∨ mc.type = .startCalSpeed → P mc) :
    (BuretteOps.handleCalRun mode freqHz speedMlMin).Only (Act.sending P) := by
  cases mode with
  | none => exact trivial
  | some mode =>
    refine .andThen rfl fun settling => ?_
    cases settling with
    | true => exact trivial
    | false =>
      refine only_loadCal fun cal => .andThen rfl fun state => ?_
      simp only
      split
      · exact trivial
      · refine .andThen rfl fun ok => ?_
        cases ok with
        | false => exact trivial
        | true =>
          refine only_enqueueClaimed (h _ ?_)
          unfold BuretteOps.calRunCommand
          split
          · exact .inl rfl
          · exact .inr rfl

theorem only_handleStop (h : ∀ mc : MotorCommand, mc.type = .stop → P mc) :
    BuretteOps.handleStop.Only (Act.sending P) := by
  refine .andThen rfl fun settling => ?_
  cases settling with
  | true => exact trivial
  | false =>
    refine .andThen rfl fun ok => ?_
    cases ok with
    | false => exact trivial
    | true => exact only_enqueueClaimed (h _ rfl)

theorem only_handleEmergencyStop (h : ∀ mc : MotorCommand, mc.type = .emergencyStop → P mc) :
    BuretteOps.handleEmergencyStop.Only (Act.sending P) := by
  refine only_cancelValveSettleTimer.bind fun _ => ?_
  refine .andThen rfl fun _ => .andThen rfl fun _ => .andThen rfl fun _ => ?_
  refine (only_sendMotorCommand (h _ rfl)).bind fun sent => ?_
  cases sent <;> exact trivial

theorem only_handleMoveSteps {steps : Option ℤ}
    (h : ∀ mc : MotorCommand, mc.type = .moveSteps → P mc) :
    (BuretteOps.handleMoveSteps steps).Only (Act.sending P) := by
  cases steps with
  | none => exact trivial
  | some steps => exact only_claimBurette (only_enqueueClaimed (h _ rfl))

theorem only_handleMoveContinuous {dir : Option Direction} {freqHz : Option ℕ}
    (h : ∀ mc : MotorCommand, mc.type = .moveContinuous → mc.speedHz ≠ 0 →
      dir = some mc.direction → P mc) :
    (BuretteOps.handleMoveContinuous dir freqHz).Only (Act.sending P) := by
  cases dir with
  | none => exact trivial
  | some direction =>
    cases freqHz with
    | none => exact trivial
    | some speedHz =>
      simp only [BuretteOps.handleMoveContinuous]
      by_cases hzero : speedHz = 0
      · rw [if_pos hzero]
        exact trivial
      · rw [if_neg hzero]
        exact only_claimBurette (only_enqueueClaimed (h _ rfl hzero rfl))

theorem only_handleSetPosition {pos : Option ValvePosition} :
    (ValveHandlers.handleSetPosition pos).Only (Act.sending P) := by
  cases pos with
  | none => exact trivial
  | some pos =>
    refine .andThen rfl fun state => ?_
    split
    · exact trivial
    · refine .andThen rfl fun ok => ?_
      cases ok with
      | false => exact trivial
      | true =>
        have hvalve : (setValve pos).Only (Act.sending P) :=
          .andThen rfl fun _ => ⟨rfl, fun _ => trivial⟩
        have hcheck : ∀ err, (espErrorCheck err).Only (Act.sending P) := by
          intro err
          unfold espErrorCheck
          split
          · exact ⟨rfl, fun _ => trivial⟩
          · exact trivial
        have hprepare : (prepareValveSettleTimer pos).Only (Act.sending P) := by
          refine .andThen rfl fun created => ?_
          cases created with
          | false => exact .andThen rfl hcheck
          | true =>
            refine .andThen rfl fun armed => ?_
            cases armed with
            | false => exact trivial
            | true =>
              refine .andThen rfl fun err => ?_
              split
              · exact ⟨rfl, fun _ => trivial⟩
              · exact trivial
        have harm : (armValveSettleTimer pos).Only (Act.sending P) :=
          hprepare.bind fun _ => .andThen rfl hcheck
        exact hvalve.bind fun _ => harm.bind fun _ => trivial

theorem only_handleRunCalibration {freqs : List ℚ} {speedMlMin : ℚ}
    (h : ∀ mc : MotorCommand, mc.type = .startCalSpeedSeq → 2 ≤ freqs.length →
      mc.startCalSpeedSeq.freqs = BuretteCal.seqFreqs freqs → P mc) :
    (BuretteCal.handleRunCalibration freqs speedMlMin).Only (Act.sending P) := by
  unfold BuretteCal.handleRunCalibration
  by_cases hlen : freqs.length < 2
  · rw [if_pos hlen]
    exact trivial
  · rw [if_neg hlen]
    exact only_claimBurette (only_enqueueClaimed (h _ rfl (Nat.le_of_not_lt hlen) rfl))

theorem only_handleStallGuardSetThreshold {threshold : Option ℕ}
    (h : ∀ mc : MotorCommand, mc.type = .setStallThreshold → P mc) :
    (StallGuard.handleStallGuardSetThreshold threshold).Only (Act.sending P) := by
  cases threshold with
  | none => exact trivial
  | some threshold =>
    refine .andThen rfl fun _ => .andThen (h _ rfl) fun _ => .andThen rfl fun ok => ?_
    cases ok with
    | false => exact trivial
    | true => exact .andThen rfl fun _ => trivial

/-- A handler that keeps records sends nothing. -/
theorem Act.sending_of_keepsRecords {β : Type} {a : Act β} (h : a.keepsRecords) :
    Act.sending P a = true := by
  induction a <;> first | rfl | cases h

end Handlers

/-- A handler sends only what its request asks for. -/
theorem only_handlerOf (cmd : Command) : (handlerOf cmd).Only (Act.sending cmd.sends) := by
  have hrecords : cmd.type.keepsRecords → (handlerOf cmd).Only (Act.sending cmd.sends) :=
    fun h => (only_recordHandlers h).mono fun _ => Act.sending_of_keepsRecords
  unfold handlerOf at hrecords ⊢
  cases ht : cmd.type with
  | fill => exact only_handleFill fun mc h1 h2 => by simp [Command.sends, ht, h1, h2]
  | empty => exact only_handleEmpty fun mc h1 h2 => by simp [Command.sends, ht, h1, h2]
  | doseVolume => exact only_handleDoseVolume fun mc h1 h2 => by simp [Command.sends, ht, h1, h2]
  | rinse =>
    refine only_handleRinse fun n mc hn hzero h1 h2 => ?_
    simp [Command.sends, ht, h1, h2, hn, hzero]
  | stop => exact only_handleStop fun mc h1 => by simp [Command.sends, ht, h1]
  | moveToStop =>
    exact only_handleMoveContinuous fun mc h1 h2 h3 => by simp [Command.sends, ht, h1, h2, h3]
  | emergencyStop => exact only_handleEmergencyStop fun mc h1 => by simp [Command.sends, ht, h1]
  | moveSteps => exact only_handleMoveSteps fun mc h1 => by simp [Command.sends, ht, h1]
  | setDirection =>
    simp only [BuretteOps.handleSetDirection]
    cases hd : cmd.direction with
    | none => exact trivial
    | some d => exact only_applySetting (by simp [Command.sends, ht, hd])
  | setSpeed =>
    simp only [BuretteOps.handleSetSpeed]
    cases hd : cmd.speed with
    | none => exact trivial
    | some d => exact only_applySetting (by simp [Command.sends, ht, hd])
  | setAccel =>
    simp only [BuretteOps.handleSetAccel]
    cases hd : cmd.accel with
    | none => exact trivial
    | some d => exact only_applySetting (by simp [Command.sends, ht])
  | calRun =>
    refine only_handleCalRun fun mc h1 => ?_
    rcases h1 with h1 | h1 <;> simp [Command.sends, ht, h1]
  | calRunSpeedSeq =>
    exact only_handleRunCalibration fun mc h1 h2 h3 => by simp [Command.sends, ht, h1, h2, h3]
  | stallGuardGet =>
    have hread : ∀ reg, (StallGuard.readTmcRegister reg).Only (Act.sending cmd.sends) :=
      fun reg => only_sendMotorCommand (by simp [Command.sends, ht])
    exact (hread _).bind fun _ => (hread _).bind fun _ => trivial
  | stallGuardSetThreshold =>
    exact only_handleStallGuardSetThreshold fun mc h1 => by simp [Command.sends, ht, h1]
  | valveSetPosition => exact only_handleSetPosition
  | _ => simpa only [ht] using hrecords (by rw [ht]; rfl)

section Clients

/-- The motor commands that may be sent while this request, if any, is being served. -/
def sentFor (request : Option Command) (mc : MotorCommand) : Bool := request.any (·.sends mc)

/-- A client sends what the request it is serving asks for. -/
def requestProtocol : Protocol Act (Option Command) where
  next cmd _ a b :=
    match a, b with
    | .receiveRequest source, req => some (req.bind (dispatched source))
    | .respond _, _ => some none
    | .xQueueSend mc, _ => if sentFor cmd mc then some cmd else none
    | _, _ => some cmd

/-- A client that does for the request it is serving only what `S` admits. -/
def servingProtocol (S : Option Command → {β : Type} → Act β → Bool) :
    Protocol Act (Option Command) where
  next cmd _ a b :=
    match a, b with
    | .receiveRequest source, req => some (req.bind (dispatched source))
    | .respond _, _ => some none
    | a, _ => if S cmd a then some cmd else none

/-- What `S` has to admit for the clients to follow the protocol. -/
structure ServingRule (S : Option Command → {β : Type} → Act β → Bool) : Prop where
  receive : ∀ {cmd source}, S cmd (.receiveRequest source) = false
  respond : ∀ {cmd rsp}, S cmd (.respond rsp) = false
  handler : ∀ cmd, (handlerOf cmd).Only (S (some cmd))
  note : ∀ {cmd id}, S cmd (.store .lastCmdId id) = true
  drain : MainLoop.drainResult.Only (S none)
  delay : ∀ {ms}, S none (.vTaskDelay ms) = true

namespace ServingRule
variable {S : Option Command → {β : Type} → Act β → Bool}

theorem keeps (h : ServingRule S) {cmd : Option Command} {β : Type} (a : Act β) (b : β)
    (ha : S cmd a) : (servingProtocol S).next cmd a b = some cmd := by
  induction a with
  | receiveRequest source => exact absurd ha (by rw [h.receive]; exact Bool.false_ne_true)
  | respond rsp => exact absurd ha (by rw [h.respond]; exact Bool.false_ne_true)
  | _ => exact if_pos ha

theorem dispatch (h : ServingRule S) {cmd : Command} :
    (servingProtocol S).Conforms (fun _ q => q = some cmd) (dispatch cmd) (some cmd) := by
  have hhandler : (servingProtocol S).Conforms (fun _ q => q = some cmd) (handlerOf cmd)
      (some cmd) := (h.handler cmd).keeps fun a b ha => h.keeps a b ha
  refine hhandler.bind ?_
  intro rsp q hq
  exact Protocol.conforms_pure.mpr hq

theorem responds {rsp : CommandResponse} {cmd : Option Command} :
    (servingProtocol S).Conforms (fun _ q => q = none) (Program.perform (.respond rsp)) cmd :=
  Protocol.conforms_act.mpr fun _ => ⟨none, rfl, Protocol.conforms_ret.mpr rfl⟩

theorem receives {α : Type} {source : Source} {k : Option Request → Firmware α}
    {Q : α → Option Command → Prop} {cmd : Option Command}
    (h : ∀ req, (servingProtocol S).Conforms Q (k req) (req.bind (dispatched source))) :
    (servingProtocol S).Conforms Q (Program.perform (.receiveRequest source) >>= k) cmd :=
  .perform fun req => ⟨_, rfl, h req⟩

theorem handleLine (h : ServingRule S) {source : Source} {line : Request}
    (hs : source = .ble ∨ source = .serial) :
    (servingProtocol S).Conforms (fun _ q => q = none) (MainLoop.handleLine line)
      (dispatched source line) := by
  cases line with
  | malformed id => exact responds
  | command cmd =>
    have hcmd : dispatched source (.command cmd) = some cmd := by
      rcases hs with rfl | rfl <;> rfl
    rw [hcmd]
    refine h.dispatch.bind ?_
    intro rsp q hq
    rw [hq]
    split
    · exact .perform fun _ => ⟨some cmd, h.keeps _ _ h.note, responds⟩
    · exact responds

theorem appMain (h : ServingRule S) :
    (servingProtocol S).Conforms (fun _ _ => True) MainLoop.appMain none := by
  have hdrainBle : ∀ cmd,
      (servingProtocol S).Conforms (fun _ q => q = none) MainLoop.drainBle cmd := by
    intro cmd
    refine Protocol.Conforms.iterate (fun _ _ => True) ?_ trivial
    intro _ cmd _
    refine receives fun line => ?_
    cases line with
    | none => exact Protocol.conforms_pure.mpr rfl
    | some line =>
      refine (h.handleLine (.inl rfl)).bind ?_
      intro _ q _
      exact Protocol.conforms_pure.mpr trivial
  have hrest : (servingProtocol S).Conforms (Sum.elim (fun _ _ => True) fun _ _ => True)
      (do MainLoop.drainResult; vTaskDelay 10; return (.inl () : Unit ⊕ Unit)) none := by
    refine (h.drain.keeps fun a b ha => h.keeps a b ha).bind ?_
    intro _ q hq
    rw [hq]
    exact .perform fun _ => ⟨none, h.keeps _ _ h.delay, Protocol.conforms_pure.mpr trivial⟩
  refine Protocol.Conforms.iterate (fun _ _ => True) ?_ trivial
  intro _ cmd _
  refine (hdrainBle cmd).bind ?_
  intro _ q _
  refine receives fun line => ?_
  cases line with
  | none => exact hrest
  | some line =>
    refine (h.handleLine (.inr rfl)).bind ?_
    intro _ q hq
    rw [hq]
    exact hrest

theorem handleCommandCore (h : ServingRule S) {cmd : Command} :
    (servingProtocol S).Conforms (fun _ q => q = none) (RestApi.handleCommandCore cmd)
      (some cmd) := by
  refine h.dispatch.bind ?_
  intro rsp q _
  exact responds

theorem route {source : Source} {handler : Request → Firmware Unit} {α : Type}
    {rest : Firmware α} {Q : α → Option Command → Prop} {cmd : Option Command}
    (hhandler : ∀ req, (servingProtocol S).Conforms (fun _ q => q = none) (handler req)
      (dispatched source req))
    (hrest : (servingProtocol S).Conforms Q rest none) :
    (servingProtocol S).Conforms Q
      (do match ← Program.perform (.receiveRequest source) with
          | some req => handler req
          | none => pure ()
          rest) cmd := by
  refine receives fun req => ?_
  cases req with
  | none => exact hrest
  | some req =>
    refine (hhandler req).bind ?_
    intro _ q hq
    rw [hq]
    exact hrest

theorem serve (h : ServingRule S) :
    (servingProtocol S).Conforms (fun _ _ => True) RestApi.serve none := by
  refine Protocol.Conforms.iterate (fun _ _ => True) ?_ trivial
  intro _ cmd _
  refine route (fun req => ?_) (route (fun req => ?_)
    (route (fun req => ?_) (Protocol.conforms_pure.mpr trivial)))
  · cases req with
    | malformed id => exact responds
    | command cmd =>
      refine h.dispatch.bind ?_
      intro rsp q _
      exact responds
  · cases req with
    | malformed id => exact responds
    | command cmd =>
      simp only [RestApi.valvePostHandler, dispatched]
      cases cmd.valvePos with
      | none => exact responds
      | some pos => exact h.handleCommandCore
  · cases req <;> exact h.handleCommandCore

end ServingRule

/-- The history says what a client is serving, whatever is admitted. -/
theorem serving_eq_phaseAfter (S : Option Command → {β : Type} → Act β → Bool) (t : Tid)
    (past : List Event) : serving t past = phaseAfter (servingProtocol S) none t past := by
  induction past with
  | nil => rfl
  | cons ev past ih =>
    cases ev with
    | happened h m => exact ih
    | did t' a b m =>
      by_cases ht : t' = t
      · subst ht
        rw [phaseAfter, if_pos rfl, ← ih]
        induction a with
        | receiveRequest source => simp [serving, servingProtocol]
        | respond rsp => simp [serving, servingProtocol]
        | _ =>
          simp only [serving, servingProtocol]
          split <;> rfl
      · rw [serving_other ht, phaseAfter_other ht]
        exact ih

theorem requestProtocol_eq :
    requestProtocol = servingProtocol fun cmd => Act.sending (sentFor cmd) := by
  have hnext : ∀ cmd {β : Type} (a : Act β) (b : β), requestProtocol.next cmd a b =
      (servingProtocol fun cmd => Act.sending (sentFor cmd)).next cmd a b := by
    intro cmd β a b
    induction a <;> rfl
  unfold requestProtocol servingProtocol at hnext ⊢
  congr 1
  funext cmd β a b
  exact hnext cmd a b

theorem request_servingRule : ServingRule fun cmd => Act.sending (sentFor cmd) where
  receive := rfl
  respond := rfl
  handler := only_handlerOf
  note := rfl
  drain := by
    refine .andThen rfl fun r => ?_
    cases r with
    | none => exact trivial
    | some r =>
      refine .andThen rfl fun id => .bind ?_ fun volume => ⟨rfl, fun _ => trivial⟩
      unfold MainLoop.dispensedVolume
      split
      · exact only_calibrationRead.mono (fun _ => Act.sending_of_keepsRecords) |>.bind fun _ => trivial
      · exact trivial
  delay := rfl

theorem requests_appMain :
    requestProtocol.Conforms (fun _ _ => True) MainLoop.appMain none := by
  rw [requestProtocol_eq]
  exact request_servingRule.appMain

theorem requests_serve : requestProtocol.Conforms (fun _ _ => True) RestApi.serve none := by
  rw [requestProtocol_eq]
  exact request_servingRule.serve

end Clients

section Runs

theorem serving_eq (t : Tid) (past : List Event) :
    serving t past = phaseAfter requestProtocol none t past := by
  rw [requestProtocol_eq]
  exact serving_eq_phaseAfter _ t past

/-- The two clients follow their requests; the other tasks are not concerned. -/
def RequestPhase : Tid → Type
  | .main | .http => Option Command
  | .motor | .timer => Unit

def requestLayer : ∀ t, Protocol Act (RequestPhase t)
  | .main | .http => requestProtocol
  | .motor | .timer => freeProtocol

def requestStart : ∀ t, RequestPhase t
  | .main | .http => none
  | .motor | .timer => ()

/-- Every command in the queue was sent by a client for the request it was serving. -/
def SentAsked : List Event → Prop :=
  Throughout fun ev past => ∀ o, ev.order past = some o → sentFor o.request o.cmd

theorem MotorMove.no_order {β : Type} {a : Act β} {b : β} {p q : MotorPhase}
    (h : MotorMove a b p q) (t : Tid) (m : Mem) (past : List Event) :
    (Event.did t a b m).order past = none := by
  induction h <;> rfl

theorem Event.order_did {t : Tid} {β : Type} {a : Act β} {b : β} {m : Mem} {past : List Event}
    {o : Order} (h : (Event.did t a b m).order past = some o) :
    (⟨β, a⟩ : Σ β, Act β) = ⟨_, .xQueueSend o.cmd⟩ ∧ o.request = serving t past := by
  induction a with
  | xQueueSend mc =>
    cases b with
    | true =>
      cases h
      exact ⟨rfl, rfl⟩
    | false => cases h
  | _ => cases h

/-- In every run the clients send what they were asked for. -/
theorem sentAsked_of_steps {C : Assumption device} {b : Boot} {c : Config Act Tid World}
    (h : Steps C b.config c) : SentAsked c.shared.past := by
  have hlayer : b.config.Obeys requestLayer
      (fun t w => phaseAfter (requestLayer t) (requestStart t) t w.past) := by
    intro t
    cases t with
    | main => exact requests_appMain
    | http => exact requests_serve
    | motor | timer => exact conforms_freeProtocol _
  have hsteps := (h.obeying (tracks_phaseAfter requestLayer requestStart) hlayer).1
  have hnone : ∀ {ev : Event} {past : List Event}, SentAsked past → ev.order past = none →
      SentAsked (ev :: past) := by
    intro ev past hpast hev
    refine ⟨fun o ho => ?_, hpast⟩
    rw [hev] at ho
    cases ho
  let I : World → Prop := fun w => SentAsked w.past
  have h0 : I b.world := trivial
  suffices hI : I c.shared from hI
  refine system_invariant hsteps h0 ?_ ?_ ?_ ?_
  · intro w t β a e hI hs
    exact hnone hI (Event.order_of_quiet hs.quiet _ _)
  · intro w β a e q hI _ hs
    exact hnone hI (hs.move.no_order .motor _ _)
  · intro w t β a e q hI hC hs
    refine ⟨fun o ho => ?_, hI⟩
    obtain ⟨ha, hrequest⟩ := Event.order_did ho
    cases ha
    have hasked : ∀ {q : Option Command},
        requestProtocol.next (phaseAfter requestProtocol none t w.past) (.xQueueSend o.cmd)
          ((Act.xQueueSend o.cmd).run e w.mem).1 = some q → sentFor o.request o.cmd = true := by
      intro q hnext
      rw [← serving_eq, ← hrequest] at hnext
      simp only [requestProtocol] at hnext
      split at hnext
      case isTrue hfor => exact hfor
      case isFalse => cases hnext
    obtain ⟨-, p, hp, -⟩ := hC
    cases t with
    | main => exact hasked hp
    | http => exact hasked hp
    | motor | timer => cases hs.isClient
  · intro w h m hI _ _
    exact hnone hI rfl

end Runs
end Ecotiter
