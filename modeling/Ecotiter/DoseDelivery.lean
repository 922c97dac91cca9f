import Mathlib.Data.Rat.Floor
import Mathlib.Tactic.Linarith
import Ecotiter.SequentialRuns

/-!
# What a dose delivers

The handler of a dose enqueues one command for the first stroke of its plan, with the direction of a
fill, and the motor task makes that many steps. Here a dose runs from its request to the end of its
command while nothing else happens and no access to the hardware fails.
-/

namespace Ecotiter
open Interleaving Firmware

/-- The steps an event sends in a direction. -/
def Event.steps (dir : Direction) : Event → ℕ
  | .did _ (.rmtTransmit symbols) err before =>
    if err = .ok ∧ before.dirPin = dir.level then symbols.length else 0
  | _ => 0

/-- The steps sent in a direction. -/
def stepsSent (dir : Direction) (past : List Event) : ℕ := (past.map (Event.steps dir)).sum

/-- Every access to the hardware succeeds and no other client is served. -/
def undisturbed : Assumption device where
  allows _ _ _ e _ := e.espErr = .ok
  allowsEnv _ _ := False

/-- The device when nothing stops it and the given numbers of steps have been sent. -/
structure Going (sentIn sentOut : ℕ) (w : World) : Prop where
  running : w.mem.aborted = false
  clear : w.mem.stopFull = false
  sentIn : stepsSent .liqIn w.past = sentIn
  sentOut : stepsSent .liqOut w.past = sentOut

/-- The same in the direction of a fill. -/
structure Filling (sentIn sentOut : ℕ) (w : World) : Prop extends Going sentIn sentOut w where
  pin : w.mem.dirPin = Direction.liqIn.level

/-- The actions of a motion that send no steps. -/
def Act.sendsNoSteps : {β : Type} → Act β → Bool
  | _, .poll _ _ | _, .taskWdtReset | _, .rmtTxWaitAllDone _ | _, .positionFetchAdd _
  | _, .positionLoad | _, .vTaskDelay _ | _, .load _ | _, .store _ _ | _, .wsBroadcast _
  | _, .xQueueOverwrite _ | _, .motorQueueCreated => true
  | _, _ => false

section
variable {k k' : ℕ} {w : World} {t : Tid} {α β : Type} {Q : α → World → Prop}

theorem stepsSent_did {a : Act β} (ha : a.sendsNoSteps) (dir : Direction) (e : Input) :
    stepsSent dir (w.did t a e).past = stepsSent dir w.past := by
  induction a with
  | rmtTransmit symbols => cases ha
  | _ => simp [stepsSent, Event.steps]

theorem Going.did {a : Act β} (h : Going k k' w) (ha : a.sendsNoSteps) (e : Input) :
    Going k k' (w.did t a e) := by
  refine ⟨?_, ?_, (stepsSent_did ha .liqIn e).trans h.sentIn,
    (stepsSent_did ha .liqOut e).trans h.sentOut⟩
  · induction a with
    | store v x => induction v <;> exact h.running
    | _ => first | exact h.running | cases ha
  · induction a with
    | store v x => induction v <;> exact h.clear
    | _ => first | exact h.clear | cases ha

theorem Filling.did {a : Act β} (h : Filling k k' w) (ha : a.sendsNoSteps) (e : Input) :
    Filling k k' (w.did t a e) := by
  refine ⟨h.toGoing.did ha e, ?_⟩
  induction a with
  | store v x => induction v <;> exact h.pin
  | _ => first | exact h.pin | cases ha

/-- A step of an undisturbed run. -/
theorem total_undisturbed {a : Act β} {next : β → Firmware α} (hrun : w.mem.aborted = false)
    (h : ∀ e : Input, e.espErr = .ok →
      (next (a.run e w.mem).1).Total undisturbed t Q (w.did t a e)) :
    (Program.act a next).Total undisturbed t Q w := by
  have hrunning : device.running w := by
    simp only [device, hrun, Bool.not_false]
  exact Program.total_act hrunning ⟨.nothing, rfl⟩ h

/-- A step that sends no steps. -/
theorem Going.total_step {a : Act β} {next : β → Firmware α} (h : Going k k' w)
    (ha : a.sendsNoSteps)
    (hnext : ∀ e : Input, e.espErr = .ok → Going k k' (w.did t a e) →
      (next (a.run e w.mem).1).Total undisturbed t Q (w.did t a e)) :
    (Program.act a next).Total undisturbed t Q w :=
  total_undisturbed h.running fun e he => hnext e he (h.did ha e)

/-- A chunk that the peripheral takes. -/
theorem Filling.transmit {symbols : List RmtSymbol} (h : Filling k k' w) {e : Input}
    (he : e.espErr = .ok) :
    Filling (k + symbols.length) k' (w.did t (.rmtTransmit symbols) e) := by
  have hpin := h.pin
  refine ⟨⟨h.running, h.clear, ?_, ?_⟩, h.pin⟩
  · rw [← h.sentIn]
    simp [stepsSent, Event.steps, Act.run, he, hpin, Nat.add_comm]
  · rw [← h.sentOut]
    simp [stepsSent, Event.steps, Act.run, hpin, Direction.level]

theorem Filling.total_loop {β γ : Type} {body : β → Firmware (β ⊕ γ)} {b : β}
    {next : γ → Firmware α} (h : Filling k k' w)
    (hbody : (Program.unroll body b next).Total undisturbed t Q w) :
    (Program.loop body b next).Total undisturbed t Q w := by
  have hrunning : device.running w := by
    simp only [device, h.running, Bool.not_false]
  exact Program.total_loop hrunning hbody

/-- The direction pin is set for a fill. -/
theorem Going.setDir (h : Going k k' w) {e : Input} :
    Filling k k' (w.did t (.gpioSetLevel .dir Direction.liqIn.level) e) := by
  refine ⟨⟨h.running, h.clear, ?_, ?_⟩, rfl⟩
  · rw [← h.sentIn]
    simp [stepsSent, Event.steps]
  · rw [← h.sentOut]
    simp [stepsSent, Event.steps]

/-- A step of the motion that sends no steps. -/
theorem Filling.total_step {a : Act β} {next : β → Firmware α} (h : Filling k k' w)
    (ha : a.sendsNoSteps)
    (hnext : ∀ e : Input, e.espErr = .ok → Filling k k' (w.did t a e) →
      (next (a.run e w.mem).1).Total undisturbed t Q (w.did t a e)) :
    (Program.act a next).Total undisturbed t Q w :=
  total_undisturbed h.running fun e he => hnext e he (h.did ha e)

/-- A look at the stop flag. -/
theorem Filling.total_poll {site : PollSite} {next : Bool → Firmware α} (h : Filling k k' w)
    (hnext : ∀ w', Filling k k' w' → (next false).Total undisturbed t Q w') :
    (Program.act (.poll site .stopFull) next).Total undisturbed t Q w := by
  refine h.total_step rfl fun e _ hpolled => ?_
  have hclear : ((Act.poll site .stopFull).run e w.mem).1 = false := h.clear
  rw [hclear]
  exact hnext _ hpolled

theorem total_transmitChunk {symbols : List RmtSymbol} (h : Filling k k' w) :
    (StepperMotor.transmitChunk symbols .stopFull).Total undisturbed t
      (fun r w' => r = .ok () ∧ Filling (k + symbols.length) k' w') w := by
  refine h.total_loop (h.total_poll fun w₁ h₁ => total_undisturbed h₁.running fun e he => ?_)
  have hok : ((Act.rmtTransmit symbols).run e w₁.mem).1 = .ok := he
  rw [hok]
  exact Program.total_ret ⟨rfl, h₁.transmit he⟩

theorem total_awaitChunk (h : Filling k k' w) :
    (StepperMotor.awaitChunk .stopFull).Total undisturbed t
      (fun r w' => r = .ok () ∧ Filling k k' w') w := by
  refine h.total_loop (h.total_step rfl fun e he hdone => ?_)
  have hok : ((Act.rmtTxWaitAllDone 100).run e w.mem).1 = .ok := he
  rw [hok]
  exact Program.total_ret ⟨rfl, hdone⟩

theorem total_moveStepsIntervals {intervals : List ℕ} (h : Filling k k' w) :
    (StepperMotor.moveStepsIntervals intervals .stopFull).Total undisturbed t
      (fun r w' => r = .ok () ∧ Filling (k + intervals.length) k' w') w := by
  have hpos : 0 < Config.rmtChunkSymbols := by decide
  let J : ℕ → World → Prop := fun offset w => offset ≤ intervals.length ∧ Filling (k + offset) k' w
  refine .iterate J (fun offset _ => intervals.length - offset) (fun offset w hJ => ?_)
    (fun offset w hJ => ?_) ⟨Nat.zero_le _, h⟩
  · simp only [device, hJ.2.running, Bool.not_false]
  · obtain ⟨hle, hw⟩ := hJ
    by_cases hend : intervals.length ≤ offset
    · have heq : offset = intervals.length := by omega
      rw [if_pos hend]
      subst heq
      exact Program.total_ret ⟨rfl, hw⟩
    · rw [if_neg hend]
      refine hw.total_poll fun w hpolled => ?_
      change Program.Total undisturbed t _ (StepperMotor.transmitChunk _ .stopFull >>= _) _
      refine Program.Total.bind ((total_transmitChunk hpolled).mono fun r w₁ hr => ?_)
      obtain ⟨rfl, hsent⟩ := hr
      refine Program.Total.bind ((total_awaitChunk hsent).mono fun r w₂ hr => ?_)
      obtain ⟨rfl, hdone⟩ := hr
      refine hdone.total_step rfl fun e he hcounted => Program.total_ret ⟨⟨by omega, ?_⟩, by omega⟩
      have hlen : (List.map stepSymbol ((intervals.drop offset).take
          (min (intervals.length - offset) Config.rmtChunkSymbols))).length =
            min (intervals.length - offset) Config.rmtChunkSymbols := by
        simp only [List.length_map, List.length_take, List.length_drop]
        omega
      rwa [hlen, Nat.add_assoc] at hcounted

/-- All steps that are left are sent. -/
theorem total_stepsLoop {intervalUs : ℕ} {steps : ℤ} (h : Filling k k' w) :
    (stepsLoop intervalUs steps).Total undisturbed t
      (fun _ w' => Filling (k + steps.toNat) k' w') w := by
  have hpos : 0 < Config.rmtChunkSymbols := by decide
  let J : ℤ → World → Prop := fun remaining w =>
    remaining ≤ steps ∧ Filling (k + (steps.toNat - remaining.toNat)) k' w
  have hJ : J steps w := ⟨Int.le_refl steps, by rwa [Nat.sub_self]⟩
  refine .iterate J (fun remaining _ => remaining.toNat) (fun remaining w hJ => ?_)
    (fun remaining w hJ => ?_) hJ
  · simp only [device, hJ.2.running, Bool.not_false]
  · obtain ⟨hle, hw⟩ := hJ
    by_cases hend : remaining ≤ 0
    · rw [if_pos hend]
      have hzero : steps.toNat - remaining.toNat = steps.toNat := by omega
      rw [hzero] at hw
      exact Program.total_ret hw
    · rw [if_neg hend]
      refine hw.total_step rfl fun _ _ hfed => hfed.total_poll fun w hpolled => ?_
      change Program.Total undisturbed t _ (StepperMotor.moveStepsIntervals _ .stopFull >>= _) _
      refine Program.Total.bind ((total_moveStepsIntervals hpolled).mono fun r w₁ hr => ?_)
      obtain ⟨rfl, hdone⟩ := hr
      rw [List.length_replicate] at hdone
      have hsum : k + (steps.toNat - remaining.toNat) + min remaining.toNat Config.rmtChunkSymbols =
          k + (steps.toNat -
            (remaining - (min remaining.toNat Config.rmtChunkSymbols : ℕ)).toNat) := by
        omega
      rw [hsum] at hdone
      exact Program.total_ret ⟨⟨by omega, hdone⟩, by omega⟩

theorem total_storeResult {type : SmResultType} {steps : ℤ} (h : Going k k' w) :
    (storeResult type steps 0 [] 0).Total undisturbed t (fun _ w' => Going k k' w') w := by
  refine h.total_step rfl fun _ _ h => h.total_step rfl fun _ _ h => ?_
  refine h.total_step rfl fun _ _ h => ?_
  exact Program.total_ret h

theorem total_executeMoveSteps {steps : ℤ} (h : Going k k' w) (hdir : w.mem.direction = .liqIn) :
    (executeMoveSteps steps).Total undisturbed t
      (fun _ w' => Going (k + steps.toNat) k' w') w := by
  unfold executeMoveSteps
  by_cases hsteps : steps ≤ 0
  · have hzero : steps.toNat = 0 := by omega
    rw [if_pos hsteps]
    rw [hzero]
    exact Program.total_ret h
  · rw [if_neg hsteps]
    refine h.total_step rfl fun e _ hloaded => ?_
    have hread : ((Act.load .direction).run e w.mem).1 = .liqIn := hdir
    rw [hread]
    refine total_undisturbed hloaded.running fun e' _ => ?_
    refine hloaded.setDir.total_step rfl fun _ _ h => h.total_step rfl fun e'' _ h => ?_
    have hdiv : ∀ speed, quotient 1000000 (clampStepFreq speed) =
        (pure (1000000 / clampStepFreq speed) : Firmware ℕ) := by
      intro speed
      have hne : clampStepFreq speed ≠ 0 :=
        Nat.ne_of_gt (Nat.lt_of_lt_of_le (by decide) (clampStepFreq_bounds speed).1)
      exact if_neg hne
    change Program.Total undisturbed t _ (quotient 1000000 (clampStepFreq _) >>= _) _
    rw [hdiv]
    exact (total_stepsLoop h).mono fun _ _ h => h.toGoing

/-- What the motor task makes of a command by a number of steps, if the direction is that of a
fill. -/
theorem total_handleMoveSteps {cmd : MotorCommand} (h : Going k k' w)
    (hdir : w.mem.direction = .liqIn) :
    (MotorTask.handleMoveSteps cmd).Total undisturbed t
      (fun _ w' => Going (k + cmd.steps.toNat) k' w') w := by
  refine h.total_step rfl fun e _ hloaded => ?_
  change Program.Total undisturbed t _ (executeMoveSteps cmd.steps >>= _) _
  refine Program.Total.bind ((total_executeMoveSteps hloaded hdir).mono fun _ w₁ hdone => ?_)
  refine hdone.total_step rfl fun _ _ hdone => ?_
  exact total_storeResult hdone

/-- The requested volume in strokes of the burette. -/
def strokes (volume : ℚ) (cal : CalibrationData) : ℤ := (volume / cal.nominalVolumeMl).ceil

/-- The command of an accepted dose. -/
def doseCommand (volume : ℚ) (speedMlMin : Option ℚ) (m : Mem) (cal : CalibrationData) :
    MotorCommand :=
  { type := .moveSteps
    steps := lround ((planDose volume m.volumeMl cal).firstCycleVolMl * cal.stepsPerMl)
    direction := .liqIn
    speedHz := BuretteOps.doseSpeedHz m.speed speedMlMin cal
    accelHzPerS := m.accel }

/-- The device at rest, with a calibration in the cache. -/
structure AtRest (cal : CalibrationData) (m : Mem) : Prop where
  running : m.aborted = false
  idle : m.buretteState = .idle
  settled : m.valveIsSettling = false
  clear : m.stopFull = false
  cache : m.calCache = some cal
  queue : m.motorCmdQueue = some []

theorem total_handleDoseVolume {cal : CalibrationData} {volume : ℚ} (h : AtRest cal w.mem)
    (hvalid : doseVolumeValid volume cal) (t : Tid) (speedMlMin : Option ℚ) :
    (BuretteOps.handleDoseVolume (some volume) speedMlMin).Total undisturbed t
      (fun rsp w' => rsp = makeAckThenResponse ∧
        Going (stepsSent .liqIn w.past) (stepsSent .liqOut w.past) w' ∧
        w'.mem.direction = .liqIn ∧
        w'.mem.motorCmdQueue = some [doseCommand volume speedMlMin w.mem cal]) w := by
  have hplan : (planDose volume w.mem.volumeMl cal).valid = true := by
    rw [planDose_valid]
    exact hvalid
  have hgoing : Going (stepsSent .liqIn w.past) (stepsSent .liqOut w.past) w :=
    ⟨h.running, h.clear, rfl, rfl⟩
  refine hgoing.total_step rfl fun e₁ _ h₁ => ?_
  have hsettled : ((Act.load .valveIsSettling).run e₁ w.mem).1 = false := h.settled
  rw [hsettled]
  refine total_undisturbed h₁.running fun e₂ _ => ?_
  have hclaim : (Act.casBuretteState .dosing).run e₂ (w.did t (.load .valveIsSettling) e₁).mem =
      (true, { w.mem with buretteState := .dosing }) := if_pos h.idle
  generalize hw₂ : (w.did t (.load .valveIsSettling) e₁).did t (.casBuretteState .dosing) e₂ = w₂
  have hmem : w₂.mem = { w.mem with buretteState := .dosing } := by
    rw [← hw₂]
    exact congrArg Prod.snd hclaim
  have h₂ : Going (stepsSent .liqIn w.past) (stepsSent .liqOut w.past) w₂ := by
    refine ⟨by rw [hmem]; exact h.running, by rw [hmem]; exact h.clear, ?_, ?_⟩
    · rw [← hw₂, ← h₁.sentIn]
      simp [stepsSent, Event.steps]
    · rw [← hw₂, ← h₁.sentOut]
      simp [stepsSent, Event.steps]
  rw [hclaim]
  refine h₂.total_step rfl fun e₃ _ h₃ => ?_
  have hcache : ((Act.load .calCache).run e₃ w₂.mem).1 = some cal := by
    rw [hmem]
    exact h.cache
  rw [hcache]
  refine h₃.total_step rfl fun e₄ _ h₄ => ?_
  have hvolume : ((Act.load .volumeMl).run e₄ (w₂.did t (.load .calCache) e₃).mem).1 =
      w.mem.volumeMl := by
    simp [Act.run, Mem.get, hmem]
  rw [hvolume]
  have hplanned : ∀ {next : Firmware CommandResponse} {w' : World}
      {R : CommandResponse → World → Prop}, next.Total undisturbed t R w' →
      (if !(planDose volume w.mem.volumeMl cal).valid then
        return makeErrorResponse "invalid_params" else next : Firmware CommandResponse).Total
          undisturbed t R w' := by
    intro next w' R hnext
    rw [hplan]
    exact hnext
  refine hplanned (h₄.total_step rfl fun e₅ _ h₅ => h₅.total_step rfl fun e₆ _ h₆ => ?_)
  refine h₆.total_step rfl fun e₇ _ h₇ => ?_
  generalize hw₇ : World.did _ t (Act.load .accel) e₇ = w₇ at h₇
  have hqueue : w₇.mem.motorCmdQueue = some [] := by
    rw [← hw₇]
    simpa [Act.run, Mem.set, hmem] using h.queue
  refine h₇.total_step rfl fun e₈ _ h₈ => ?_
  have hcreated : ((Act.motorQueueCreated).run e₈ w₇.mem).1 = true := by
    simp [Act.run, hqueue]
  rw [hcreated]
  refine total_undisturbed h₈.running fun e₉ _ => ?_
  have hsend : ∀ cmd, (Act.xQueueSend cmd).run e₉ (w₇.did t .motorQueueCreated e₈).mem =
      (true, { w₇.mem with motorCmdQueue := some [cmd] }) := by
    intro cmd
    simp [Act.run, hqueue, Config.motorCmdQueueLen]
  rw [hsend]
  have hdirection : w₇.mem.direction = .liqIn := by
    rw [← hw₇]
    rfl
  refine Program.total_ret ⟨rfl, ⟨?_, ?_, ?_, ?_⟩, ?_, ?_⟩
  · rw [World.did_mem, hsend]
    exact h₇.running
  · rw [World.did_mem, hsend]
    exact h₇.clear
  · rw [← h₈.sentIn]
    simp [stepsSent, Event.steps]
  · rw [← h₈.sentOut]
    simp [stepsSent, Event.steps]
  · rw [World.did_mem, hsend]
    exact hdirection
  · rw [World.did_mem, hsend]
    simp [doseCommand, Act.run, Mem.get, Mem.set, hmem]

/-- One turn of the loop of the motor task. -/
def motorTurn : Firmware (Unit ⊕ Unit) := do
  taskWdtReset
  match ← Program.perform .xQueueReceive with
  | some cmd =>
    MotorTask.handle cmd
    return .inl ()
  | none => return .inl ()

theorem commandLoop_eq : MotorTask.commandLoop = .iterate (fun _ => motorTurn) () := rfl

theorem total_motorTurn {cmd : MotorCommand} (h : Going k k' w) (hdir : w.mem.direction = .liqIn)
    (hqueue : w.mem.motorCmdQueue = some [cmd]) (hcmd : cmd.type = .moveSteps) :
    motorTurn.Total undisturbed t (fun _ w' => Going (k + cmd.steps.toNat) k' w') w := by
  refine h.total_step rfl fun e₁ _ h₁ => total_undisturbed h₁.running fun e₂ _ => ?_
  have hreceive : Act.xQueueReceive.run e₂ (w.did t .taskWdtReset e₁).mem =
      (some cmd, { w.mem with motorCmdQueue := some [] }) := by
    simp [Act.run, hqueue]
  generalize hw₂ : (w.did t .taskWdtReset e₁).did t .xQueueReceive e₂ = w₂
  have hmem : w₂.mem = { w.mem with motorCmdQueue := some [] } := by
    rw [← hw₂]
    exact congrArg Prod.snd hreceive
  have h₂ : Going k k' w₂ := by
    refine ⟨by rw [hmem]; exact h.running, by rw [hmem]; exact h.clear, ?_, ?_⟩
    · rw [← hw₂, ← h₁.sentIn]
      simp [stepsSent, Event.steps]
    · rw [← hw₂, ← h₁.sentOut]
      simp [stepsSent, Event.steps]
  have hdir₂ : w₂.mem.direction = .liqIn := by
    rw [hmem]
    exact hdir
  rw [hreceive]
  have hhandle : MotorTask.handle cmd = MotorTask.handleMoveSteps cmd := by
    simp only [MotorTask.handle, hcmd]
  change Program.Total undisturbed t _ (MotorTask.handle cmd >>= _) _
  rw [hhandle]
  exact Program.Total.bind ((total_handleMoveSteps h₂ hdir₂).mono fun _ _ h => Program.total_ret h)

end

/-- The volume of the first stroke. -/
def firstStroke (volume : ℚ) (cal : CalibrationData) : ℚ :=
  if cal.nominalVolumeMl + 1 / 1000 < volume then cal.nominalVolumeMl else volume

theorem planDose_firstCycle {volume x : ℚ} {cal : CalibrationData}
    (h : doseVolumeValid volume cal) : (planDose volume x cal).firstCycleVolMl =
      firstStroke volume cal := by
  have hin : ¬(volume < 1 / 100 ∨ 50 < volume ∨ cal.nominalVolumeMl < 1 / 1000) := by
    unfold doseVolumeValid at h
    rw [Bool.not_eq_true', decide_eq_false_iff_not] at h
    exact h
  unfold planDose firstStroke
  rw [if_neg hin]
  by_cases hlarge : cal.nominalVolumeMl + 1 / 1000 < volume
  · rw [if_pos hlarge, if_pos hlarge]
    dsimp only
    split <;> rfl
  · rw [if_neg hlarge, if_neg hlarge]

theorem lround_pos {x : ℚ} (hx : 0 < x) : 0 < lround x ↔ 1 / 2 ≤ x := by
  have hfloor : (1 : ℤ) ≤ ⌊x + 1 / 2⌋ ↔ ((1 : ℤ) : ℚ) ≤ x + 1 / 2 := Int.le_floor
  have hround : lround x = ⌊x + 1 / 2⌋ := if_pos hx.le
  rw [hround, Int.lt_iff_add_one_le, Int.zero_add, hfloor]
  norm_num
  constructor <;> intro h <;> linarith

/-- The steps between two moments of a history. -/
def stepsBetween (dir : Direction) (w w' : World) : ℚ :=
  (stepsSent dir w'.past : ℚ) - stepsSent dir w.past

/-- A request for a dose, from its acceptance to the end of what the motor task makes of it, empties
the requested volume up to one step for each stroke, and fills the burette if it does not hold that
much. -/
def Delivers (t : Tid) (cmd : Command) (volume : ℚ) (cal : CalibrationData) (w : World) : Prop :=
  ∀ rsp w₁ r w₂, (dispatch cmd).Ends undisturbed t w rsp w₁ → rsp.kind = .ackThen →
    motorTurn.Ends undisturbed .motor w₁ r w₂ →
    volume * cal.stepsPerMl - stepsBetween .liqOut w w₂ ≤ strokes volume cal ∧
      stepsBetween .liqOut w w₂ - volume * cal.stepsPerMl ≤ strokes volume cal ∧
      (w.mem.volumeMl < volume → 0 < stepsBetween .liqIn w w₂)

section
variable {t : Tid} {cmd : Command} {volume : ℚ} {cal : CalibrationData} {w : World}

theorem total_dispatchDose (hrest : AtRest cal w.mem) (htype : cmd.type = .doseVolume)
    (hvolume : cmd.volume = some volume) (hvalid : doseVolumeValid volume cal) :
    (dispatch cmd).Total undisturbed t
      (fun rsp w' => rsp.kind = .ackThen ∧
        Going (stepsSent .liqIn w.past) (stepsSent .liqOut w.past) w' ∧
        w'.mem.direction = .liqIn ∧
        w'.mem.motorCmdQueue = some [doseCommand volume cmd.speedMlMin w.mem cal]) w := by
  have hhandler : handlerOf cmd = BuretteOps.handleDoseVolume (some volume) cmd.speedMlMin := by
    simp only [handlerOf, htype, hvolume]
  have hdone := total_handleDoseVolume hrest hvalid t cmd.speedMlMin
  rw [← hhandler] at hdone
  change Program.Total undisturbed t _ (handlerOf cmd >>= _) _
  refine Program.Total.bind (hdone.mono fun rsp w' h => ?_)
  obtain ⟨rfl, hdone⟩ := h
  exact Program.total_ret ⟨rfl, hdone⟩

/-- The dose comes to its end, and then only the first stroke has been made, in the direction of a
fill. -/
theorem dose_steps (hrest : AtRest cal w.mem) (htype : cmd.type = .doseVolume)
    (hvolume : cmd.volume = some volume) (hvalid : doseVolumeValid volume cal) :
    (∃ rsp w₁ r w₂, (dispatch cmd).Ends undisturbed t w rsp w₁ ∧ rsp.kind = .ackThen ∧
      motorTurn.Ends undisturbed .motor w₁ r w₂) ∧
    ∀ rsp w₁ r w₂, (dispatch cmd).Ends undisturbed t w rsp w₁ →
      motorTurn.Ends undisturbed .motor w₁ r w₂ →
      stepsBetween .liqOut w w₂ = 0 ∧
        stepsBetween .liqIn w w₂ = (lround (firstStroke volume cal * cal.stepsPerMl)).toNat := by
  have hdispatch := total_dispatchDose (t := t) hrest htype hvolume hvalid
  have hturn : ∀ w₁, Going (stepsSent .liqIn w.past) (stepsSent .liqOut w.past) w₁ →
      w₁.mem.direction = .liqIn →
      w₁.mem.motorCmdQueue = some [doseCommand volume cmd.speedMlMin w.mem cal] →
      motorTurn.Total undisturbed .motor _ w₁ :=
    fun w₁ hgoing hdir hqueue => total_motorTurn hgoing hdir hqueue rfl
  constructor
  · obtain ⟨⟨rsp, w₁, hends⟩, hpost⟩ := hdispatch
    obtain ⟨hkind, hgoing, hdir, hqueue⟩ := hpost rsp w₁ hends
    obtain ⟨⟨r, w₂, hmotor⟩, -⟩ := hturn w₁ hgoing hdir hqueue
    exact ⟨rsp, w₁, r, w₂, hends, hkind, hmotor⟩
  · intro rsp w₁ r w₂ hends hmotor
    obtain ⟨hkind, hgoing, hdir, hqueue⟩ := hdispatch.2 rsp w₁ hends
    have hsent := (hturn w₁ hgoing hdir hqueue).2 r w₂ hmotor
    unfold stepsBetween
    rw [hsent.sentIn, hsent.sentOut, doseCommand, planDose_firstCycle hvalid]
    push_cast
    constructor <;> ring

theorem doseVolumeValid_bounds (h : doseVolumeValid volume cal) :
    1 / 100 ≤ volume ∧ 1 / 1000 ≤ cal.nominalVolumeMl := by
  unfold doseVolumeValid at h
  rw [Bool.not_eq_true', decide_eq_false_iff_not] at h
  push Not at h
  exact ⟨h.1, h.2.2⟩

/-- Every dose leaves the burette unemptied: one of more than a step for each stroke is not
delivered, and one that the burette does not hold is delivered only if its first stroke is as long
as half a step. -/
theorem dose_delivers_iff (hrest : AtRest cal w.mem) (hsteps : 0 < cal.stepsPerMl)
    (htype : cmd.type = .doseVolume) (hvolume : cmd.volume = some volume)
    (hvalid : doseVolumeValid volume cal) :
    Delivers t cmd volume cal w ↔ volume * cal.stepsPerMl ≤ strokes volume cal ∧
      (w.mem.volumeMl < volume → 1 / 2 ≤ firstStroke volume cal * cal.stepsPerMl) := by
  obtain ⟨⟨rsp, w₁, r, w₂, hends, hkind, hmotor⟩, hall⟩ :=
    dose_steps (t := t) hrest htype hvolume hvalid
  obtain ⟨hvolumePos, hnominalPos⟩ := doseVolumeValid_bounds hvalid
  have hfirst : 0 < firstStroke volume cal * cal.stepsPerMl := by
    have hstroke : 0 < firstStroke volume cal := by
      unfold firstStroke
      split <;> linarith
    exact mul_pos hstroke hsteps
  have hstrokes : (0 : ℚ) ≤ strokes volume cal := by
    have hquotient : 0 ≤ volume / cal.nominalVolumeMl := div_nonneg (by linarith) (by linarith)
    exact hquotient.trans Rat.le_ceil
  have hpos : 0 < volume * cal.stepsPerMl := mul_pos (by linarith) hsteps
  have hmade : (0 : ℚ) < ((lround (firstStroke volume cal * cal.stepsPerMl)).toNat : ℕ) ↔
      1 / 2 ≤ firstStroke volume cal * cal.stepsPerMl := by
    rw [← lround_pos hfirst, Nat.cast_pos]
    omega
  constructor
  · intro h
    obtain ⟨hless, -, hfilled⟩ := h rsp w₁ r w₂ hends hkind hmotor
    obtain ⟨hout, hin⟩ := hall rsp w₁ r w₂ hends hmotor
    rw [hout, sub_zero] at hless
    rw [hin] at hfilled
    exact ⟨hless, fun hlow => hmade.mp (hfilled hlow)⟩
  · rintro ⟨hless, hfilled⟩ rsp w₁ r w₂ hends - hmotor
    obtain ⟨hout, hin⟩ := hall rsp w₁ r w₂ hends hmotor
    rw [hout, hin]
    exact ⟨by linarith, by linarith, fun hlow => hmade.mpr (hfilled hlow)⟩

end

/-- The device at rest with a calibration and a volume. -/
def restWorld (cal : CalibrationData) (volumeMl : ℚ) : World where
  mem :=
    { calCache := some cal, volumeMl, motorCmdQueue := some []
      full := { level := false }, empty := { level := false } }
  past := []

theorem atRest_restWorld {cal : CalibrationData} {volumeMl : ℚ} :
    AtRest cal (restWorld cal volumeMl).mem :=
  ⟨rfl, rfl, rfl, rfl, rfl, rfl⟩

/-- A dose of a hundredth with a calibration of a step to the millilitre. -/
theorem dose_delivers_hundredth :
    Delivers .main { type := .doseVolume, volume := some (1 / 100) } (1 / 100)
      { CalibrationData.default with stepsPerMl := 1 }
      (restWorld { CalibrationData.default with stepsPerMl := 1 } 1) :=
  (dose_delivers_iff atRest_restWorld (by decide) rfl rfl (by decide +kernel)).mpr
    ⟨by decide +kernel, by decide +kernel⟩

/-- A dose of five millilitres. -/
def fiveMl : Command := { type := .doseVolume, volume := some 5 }

/-- Five millilitres from a burette that holds them, with the calibration the firmware starts
with. -/
theorem dose_notDelivered : ¬ Delivers .main fiveMl 5 .default (restWorld .default 5) := by
  intro h
  have hvalid : doseVolumeValid 5 .default := by decide +kernel
  have hrest : AtRest .default (restWorld .default 5).mem := atRest_restWorld
  obtain ⟨⟨rsp, w₁, r, w₂, hends, hkind, hmotor⟩, hall⟩ :=
    dose_steps (t := .main) hrest (rfl : fiveMl.type = .doseVolume) rfl hvalid
  have hless := (h rsp w₁ r w₂ hends hkind hmotor).1
  rw [(hall rsp w₁ r w₂ hends hmotor).1] at hless
  exact absurd hless (by decide +kernel)

end Ecotiter
