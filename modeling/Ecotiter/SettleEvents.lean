import Ecotiter.RequestCommands
import Ecotiter.ValveExclusion

/-!
# The position in a settle event

The settle timer is created once, with the position of the first accepted request as the argument
of its callback, and is started again for every later request. The events that the callback pushes
name that first position.
-/

namespace Ecotiter
open Interleaving Firmware

/-- The position of the valve request that was accepted last. -/
def commandedPosition : List Event → Option ValvePosition
  | [] => none
  | .did t .casValveIsSettling true _ :: past => (serving t past).bind Command.valvePos
  | _ :: past => commandedPosition past

/-- The position in an event that the timer callback pushes. -/
def Event.settledAt : Event → Option ValvePosition
  | .did .timer (.wsBroadcast (.valveSettled pos)) _ _ => some pos
  | _ => none

/-- Every event pushed by the callback names the position commanded last. -/
def SettledNamesCommanded : List Event → Prop :=
  Throughout fun ev past => ∀ pos ∈ ev.settledAt, commandedPosition past = some pos

instance : DecidablePred SettledNamesCommanded := decidableThroughout _

/-- A request is accepted only if it commands the position that was commanded before. -/
def positionKept : Guard device where
  allows t _ a _ w :=
    match a with
    | .casValveIsSettling =>
      w.mem.valveIsSettling || commandedPosition w.past = none ||
        (serving t w.past).bind Command.valvePos = commandedPosition w.past
    | _ => true
  allowsEnv _ _ := true

/-! ## What the handlers do to the timer -/

/-- The actions of a handler with a valve position among its parameters. -/
def Act.turning (pos : Option ValvePosition) : {β : Type} → Act β → Bool
  | _, .receiveRequest _ | _, .respond _ => false
  | _, .casValveIsSettling => pos.isSome
  | _, .espTimerCreate arg => pos = some arg
  | _, _ => true

/-- Neither raises `gValveIsSettling` nor creates the timer. -/
def Act.leavesTimer : {β : Type} → Act β → Bool
  | _, .receiveRequest _ | _, .respond _ | _, .casValveIsSettling | _, .espTimerCreate _ => false
  | _, _ => true

theorem Act.turning_of_leavesTimer {pos : Option ValvePosition} {β : Type} (a : Act β)
    (h : a.leavesTimer) : a.turning pos := by
  induction a <;> first | rfl | cases h

section Handlers

attribute [local simp] load store poll storeStop gpioSetLevel vTaskDelay taskWdtReset wsBroadcast
  Act.leavesTimer

theorem Program.only_ite {S : {β : Type} → Act β → Bool} {α : Type} {c : Prop} [Decidable c]
    {p q : Firmware α} :
    (if c then p else q).Only S ↔ (c → p.Only S) ∧ (¬ c → q.Only S) := by
  by_cases h : c <;> simp [h]

namespace LeavesTimer

theorem only_sendMotorCommand {mc : MotorCommand} :
    (sendMotorCommand mc).Only Act.leavesTimer := by
  simp [sendMotorCommand]

theorem only_enqueueClaimed {mc : MotorCommand} {accepted : CommandResponse} {message : String} :
    (enqueueClaimed mc accepted message).Only Act.leavesTimer := by
  refine only_sendMotorCommand.bind fun sent => ?_
  cases sent <;> simp

theorem only_claimBurette {state : BuretteState} {next : Firmware CommandResponse}
    (h : next.Only Act.leavesTimer) : (claimBurette state next).Only Act.leavesTimer := by
  simp [claimBurette, Program.only_ite, h]

theorem only_calibrationRead : calibrationRead.Only Act.leavesTimer := by
  simp [calibrationRead]

theorem only_calibrationWrite {cal : CalibrationData} :
    (calibrationWrite cal).Only Act.leavesTimer := by
  simp [calibrationWrite]

theorem only_applySetting {α : Type} {v : Var α} {x : α} {mc : MotorCommand} :
    (BuretteOps.applySetting v x mc).Only Act.leavesTimer := by
  simp [BuretteOps.applySetting, sendMotorCommand, Program.only_ite]

/-- Every handler but that of `valve.setPosition`. -/
theorem only_handlerOf {cmd : Command} (ht : cmd.type ≠ .valveSetPosition) :
    (handlerOf cmd).Only Act.leavesTimer := by
  unfold handlerOf
  cases h : cmd.type with
  | valveSetPosition => exact absurd h ht
  | fill | empty =>
    apply only_claimBurette
    simp [Option.forall, only_enqueueClaimed]
  | doseVolume =>
    cases cmd.volume with
    | none => exact trivial
    | some volume =>
      apply only_claimBurette
      simp [Option.forall, only_enqueueClaimed, Program.only_ite]
  | rinse =>
    rcases cmd.volume.map toU32 with _ | _ | n
    · exact trivial
    · exact trivial
    · apply only_claimBurette
      simp [Option.forall, only_enqueueClaimed]
  | stop => simp [BuretteOps.handleStop, only_enqueueClaimed, Program.only_ite]
  | moveToStop =>
    cases cmd.direction <;> cases cmd.freqHz.map toU32 <;>
      simp [BuretteOps.handleMoveContinuous, only_claimBurette, only_enqueueClaimed,
        Program.only_ite]
  | emergencyStop =>
    have hcancel : cancelValveSettleTimer.Only Act.leavesTimer := by
      simp [cancelValveSettleTimer, Program.only_ite]
    refine hcancel.bind fun _ => ?_
    simp [sendMotorCommand, Program.only_ite]
  | moveSteps =>
    cases cmd.steps with
    | none => exact trivial
    | some steps => exact only_claimBurette only_enqueueClaimed
  | setDirection =>
    cases cmd.direction with
    | none => exact trivial
    | some direction => exact only_applySetting
  | setSpeed =>
    cases cmd.speed with
    | none => exact trivial
    | some speed => exact only_applySetting
  | setAccel =>
    cases cmd.accel with
    | none => exact trivial
    | some accel => exact only_applySetting
  | calCalcVolume =>
    cases cmd.massG with
    | none => exact trivial
    | some massG =>
      simp only [BuretteCal.handleCalcVolume, Program.only_ite]
      exact ⟨fun _ => trivial, fun _ => only_calibrationRead.bind fun cal => by cases cal <;> simp⟩
  | calCalcSpeed =>
    simp only [BuretteCal.handleCalcSpeed, Program.only_ite]
    exact ⟨fun _ => trivial, fun _ => only_calibrationRead.bind fun cal => by cases cal <;> simp⟩
  | calGet => exact only_calibrationRead.bind fun cal => by cases cal <;> simp
  | calSave =>
    refine .andThen rfl fun pending => only_calibrationWrite.bind fun ok => ?_
    cases ok <;> simp
  | calReset =>
    refine only_calibrationWrite.bind fun ok => ?_
    cases ok <;> simp
  | calRun =>
    cases cmd.mode <;>
      simp [BuretteOps.handleCalRun, Option.forall, only_enqueueClaimed, Program.only_ite]
  | calRunSpeedSeq =>
    simp [BuretteCal.handleRunCalibration, only_claimBurette, only_enqueueClaimed,
      Program.only_ite]
  | calGetResult => simp [BuretteCal.handleGetCalResult, Option.forall]
  | stallGuardGet =>
    have hread : ∀ reg, (StallGuard.readTmcRegister reg).Only Act.leavesTimer :=
      fun reg => only_sendMotorCommand
    exact (hread _).bind fun _ => (hread _).bind fun _ => trivial
  | stallGuardSetThreshold =>
    cases cmd.sgThreshold <;>
      simp [StallGuard.handleStallGuardSetThreshold, Program.only_ite]
  | getStatus | systemGetStatus => simp [BuretteOps.handleGetStatus]
  | valveGetState => simp [ValveHandlers.handleGetState]
  | tempRead | adcCalGet | adcCalSave | adcCalMeasure | adcCalCompute | adcCalReset
  | systemGetFormattedLogs | systemReadLog | systemFirmwareVersion | serialPing =>
    simp [handledElsewhere]

end LeavesTimer

/-- The handler creates the timer for the position it was given. -/
theorem only_handleSetPosition_turning {pos : Option ValvePosition} :
    (ValveHandlers.handleSetPosition pos).Only (Act.turning pos) := by
  cases pos with
  | none => exact trivial
  | some pos =>
    have hcheck : ∀ err, (espErrorCheck err).Only (Act.turning (some pos)) := by
      intro err
      unfold espErrorCheck
      split
      · exact ⟨rfl, fun _ => trivial⟩
      · exact trivial
    have hprepare : (prepareValveSettleTimer pos).Only (Act.turning (some pos)) := by
      refine .andThen rfl fun created => ?_
      cases created with
      | false => exact .andThen (decide_eq_true rfl) hcheck
      | true =>
        refine .andThen rfl fun armed => ?_
        cases armed with
        | false => exact trivial
        | true =>
          refine .andThen rfl fun err => ?_
          split
          · exact ⟨rfl, fun _ => trivial⟩
          · exact trivial
    refine .andThen rfl fun state => ?_
    split
    · exact trivial
    · refine .andThen rfl fun ok => ?_
      cases ok with
      | false => exact trivial
      | true =>
        have hvalve : (setValve pos).Only (Act.turning (some pos)) :=
          .andThen rfl fun _ => ⟨rfl, fun _ => trivial⟩
        have harm : (armValveSettleTimer pos).Only (Act.turning (some pos)) :=
          hprepare.bind fun _ => .andThen rfl hcheck
        exact hvalve.bind fun _ => harm.bind fun _ => trivial

end Handlers

theorem turning_servingRule :
    ServingRule fun cmd => Act.turning (cmd.bind Command.valvePos) where
  receive := rfl
  respond := rfl
  handler := by
    intro cmd
    by_cases ht : cmd.type = .valveSetPosition
    · unfold handlerOf
      rw [ht]
      exact only_handleSetPosition_turning
    · exact (LeavesTimer.only_handlerOf ht).mono fun a ha => Act.turning_of_leavesTimer a ha
  note := rfl
  drain := by
    refine .andThen rfl fun r => ?_
    cases r with
    | none => exact trivial
    | some r =>
      refine .andThen rfl fun id => .bind ?_ fun volume => ⟨rfl, fun _ => trivial⟩
      unfold MainLoop.dispensedVolume
      split
      · refine (LeavesTimer.only_calibrationRead.mono fun a ha => ?_).bind fun _ => trivial
        exact Act.turning_of_leavesTimer a ha
      · exact trivial
  delay := rfl

/-! ## Along a run -/

def turningProtocol : Protocol Act (Option Command) :=
  servingProtocol fun cmd => Act.turning (cmd.bind Command.valvePos)

def turningLayer : ∀ t, Protocol Act (RequestPhase t)
  | .main | .http => turningProtocol
  | .motor | .timer => freeProtocol

/-- The argument of the timer that an action creates. -/
def Act.timerArgument : {β : Type} → Act β → Option ValvePosition
  | _, .espTimerCreate arg => some arg
  | _, _ => none

/-- What an accepted request or the creation of the timer has to do with the request served. -/
structure TurnStep (t : Tid) (past : List Event) {β : Type} (a : Act β) : Prop where
  accepts : ∀ b m, (Event.did t a b m).acquiresValve = some t →
    ((serving t past).bind Command.valvePos).isSome
  creates : ∀ arg, a.timerArgument = some arg → (serving t past).bind Command.valvePos = some arg

theorem turnStep_of_next {t : Tid} {past : List Event} {β : Type} {a : Act β} {b : β}
    {q : Option Command}
    (h : turningProtocol.next (phaseAfter turningProtocol none t past) a b = some q) :
    TurnStep t past a := by
  unfold turningProtocol at h
  rw [← serving_eq_phaseAfter] at h
  constructor
  · intro b m hacquires
    induction a with
    | casValveIsSettling =>
      simp only [servingProtocol, Option.ite_none_right_eq_some] at h
      exact h.1
    | _ => cases hacquires
  · intro arg harg
    induction a with
    | espTimerCreate =>
      cases harg
      simp only [servingProtocol, Option.ite_none_right_eq_some] at h
      exact of_decide_eq_true h.1
    | _ => cases harg

/-- The argument of the timer is given at its creation. -/
theorem Act.timerArg_after {β : Type} (a : Act β) (e : Input) (m : Mem) {pos : ValvePosition}
    (h : (a.run e m).2.timerArg = some pos) :
    m.timerArg = some pos ∨ a.timerArgument = some pos := by
  induction a with
  | store v x => induction v <;> exact .inl h
  | storeStop f b => cases f <;> exact .inl h
  | gpioSetLevel pin level => cases pin <;> exact .inl h
  | gpioIsrHandlerAdd s => cases s <;> exact .inl h
  | espTimerCreate arg =>
    simp only [Act.run] at h
    split at h
    · cases h
      exact .inr rfl
    · exact .inl h
  | casBuretteState | casValveIsSettling | createMotorCmdQueue | xQueueSend | xQueueReceive | nvsSet
  | espTimerStop | espTimerStartOnce | espTimerExpired =>
    simp only [Act.run] at h
    repeat' split at h
    all_goals exact .inl h
  | _ => exact .inl h

theorem commandedPosition_of_acquiresValve {ev : Event} (h : ev.acquiresValve = none)
    (past : List Event) : commandedPosition (ev :: past) = commandedPosition past := by
  cases ev with
  | happened => rfl
  | did t a b m =>
    induction a with
    | casValveIsSettling =>
      cases b with
      | true => cases h
      | false => rfl
    | _ => rfl

/-- The calls that may still create the timer. -/
def ValveCall.placing : ValveCall → Bool
  | .acquired | .missing => true
  | _ => false

/-- The timer, its callback and the calls that may create it hold the position commanded last. -/
structure TurnInvariant (w : World) : Prop where
  named : SettledNamesCommanded w.past
  created : ∀ pos, w.mem.timerArg = some pos → commandedPosition w.past = some pos
  fired : ∀ pos, timerPhase w.past = .fired pos → commandedPosition w.past = some pos
  placing : ∀ t, t ≠ .timer → (valveCall t w.past).placing → ∃ pos,
    (serving t w.past).bind Command.valvePos = some pos ∧ commandedPosition w.past = some pos

namespace TurnInvariant
variable {w : World}

/-- A call goes on placing the timer or begins to with the request it serves. -/
theorem placing_after {p q : ValveCall} {β : Type} {a : Act β} {b : β}
    (h : a.valveNeutral ∧ q = p ∨ ValveMove a b p q) (hq : q.placing) (t : Tid) (m : Mem)
    (past : List Event) :
    (p.placing ∨ (Event.did t a b m).acquiresValve = some t) ∧
      serving t (.did t a b m :: past) = serving t past := by
  rcases h with ⟨ha, rfl⟩ | hmove
  · refine ⟨.inl hq, ?_⟩
    induction a <;> first | rfl | cases ha
  · induction hmove with
    | acquire => exact ⟨.inr rfl, rfl⟩
    | missed => exact ⟨.inl rfl, rfl⟩
    | readSettling | readState | cancel => split at hq <;> cases hq
    | stop herr hs =>
      rcases hs with ⟨-, rfl⟩ | ⟨-, rfl⟩ <;> cases hq
    | _ => cases hq

/-- An accepted request commands a position, the one commanded before if there was one. -/
theorem commanded_after {t : Tid} {β : Type} {a : Act β} {e : Input}
    (hC : positionKept.allows t a e w) (hT : TurnStep t w.past a) :
    (∀ pos, commandedPosition w.past = some pos → commandedPosition (w.did t a e).past = some pos) ∧
      ((Event.did t a (a.run e w.mem).1 w.mem).acquiresValve = some t →
        ∃ pos, (serving t w.past).bind Command.valvePos = some pos ∧
          commandedPosition (w.did t a e).past = some pos) := by
  cases hacquires : (Event.did t a (a.run e w.mem).1 w.mem).acquiresValve with
  | none =>
    refine ⟨fun pos hpos => ?_, nofun⟩
    rw [World.did_past, commandedPosition_of_acquiresValve hacquires]
    exact hpos
  | some s =>
    induction a with
    | casValveIsSettling =>
      cases hsettling : w.mem.valveIsSettling with
      | true => simp [Act.run, hsettling, Event.acquiresValve] at hacquires
      | false =>
        obtain ⟨pos, hpos⟩ := Option.isSome_iff_exists.mp (hT.accepts true w.mem rfl)
        have hnow : commandedPosition (w.did t .casValveIsSettling e).past = some pos := by
          rw [← hpos]
          simp [World.did_past, Act.run, hsettling, commandedPosition]
        refine ⟨fun before hbefore => ?_, fun _ => ⟨pos, hpos, hnow⟩⟩
        have hC : (w.mem.valveIsSettling || commandedPosition w.past = none ||
          (serving t w.past).bind Command.valvePos = commandedPosition w.past) = true := hC
        rw [hsettling, hbefore, hpos] at hC
        rw [hnow]
        simpa using hC
    | _ => cases hacquires

theorem call {t : Tid} {β : Type} {a : Act β} {e : Input} {q : ValveCall} (hI : TurnInvariant w)
    (hC : positionKept.allows t a e w) (hT : TurnStep t w.past a) (hs : CallStep w t a e q) :
    TurnInvariant (w.did t a e) := by
  obtain ⟨hkept, haccepted⟩ := commanded_after hC hT
  refine ⟨⟨?_, hI.named⟩, ?_, ?_, ?_⟩
  · intro pos hpos
    have ht := hs.notTimer
    cases t with
    | timer => exact absurd rfl ht
    | main | http | motor => cases hpos
  · intro pos hpos
    apply hkept
    rcases Act.timerArg_after a e w.mem hpos with hpos | ha
    · exact hI.created pos hpos
    · have hserving := hT.creates pos ha
      have hplacing : (valveCall t w.past).placing := by
        rcases hs.move with ⟨hneutral, -⟩ | hmove
        · induction a with
          | espTimerCreate => cases hneutral
          | _ => cases ha
        · generalize valveCall t w.past = p at hmove ⊢
          generalize (a.run e w.mem).1 = b at hmove
          induction hmove <;> first | rfl | cases ha
      obtain ⟨before, hbefore, hcommanded⟩ := hI.placing t hs.notTimer hplacing
      rw [hserving] at hbefore
      cases hbefore
      exact hcommanded
  · intro pos hpos
    rw [hs.timer] at hpos
    exact hkept pos (hI.fired pos hpos)
  · intro s hst hplacing
    by_cases heq : s = t
    · subst heq
      rw [hs.self] at hplacing
      obtain ⟨hwas, hserving⟩ :=
        placing_after hs.move hplacing s w.mem w.past
      rw [World.did_past, hserving]
      rcases hwas with hwas | hnow
      · obtain ⟨pos, hpos, hcommanded⟩ := hI.placing s hst hwas
        exact ⟨pos, hpos, hkept pos hcommanded⟩
      · exact haccepted hnow
    · rw [hs.other s heq] at hplacing
      obtain ⟨pos, hpos, hcommanded⟩ := hI.placing s hst hplacing
      refine ⟨pos, ?_, hkept pos hcommanded⟩
      rw [World.did_past, serving_other (Ne.symm heq)]
      exact hpos

theorem timer {β : Type} {a : Act β} {e : Input} {q : TimerPhase} (hI : TurnInvariant w)
    (hs : TimerStep w a e q) : TurnInvariant (w.did .timer a e) := by
  obtain ⟨-, hmove, htimer, hcall⟩ := hs
  have hacquires : (Event.did .timer a (a.run e w.mem).1 w.mem).acquiresValve = none := by
    generalize (a.run e w.mem).1 = b at hmove
    generalize timerPhase w.past = p at hmove
    induction hmove <;> rfl
  have hcommanded : commandedPosition (w.did .timer a e).past = commandedPosition w.past :=
    commandedPosition_of_acquiresValve hacquires w.past
  have harg : ∀ pos, (a.run e w.mem).2.timerArg = some pos → w.mem.timerArg = some pos := by
    intro pos hpos
    refine (Act.timerArg_after a e w.mem hpos).resolve_right ?_
    generalize (a.run e w.mem).1 = b at hmove
    generalize timerPhase w.past = p at hmove
    induction hmove <;> exact nofun
  refine ⟨⟨?_, hI.named⟩, ?_, ?_, ?_⟩
  · intro pos hpos
    apply hI.fired
    generalize (a.run e w.mem).1 = b at hmove hpos
    generalize timerPhase w.past = p at hmove
    induction hmove <;> cases hpos
    rfl
  · intro pos hpos
    rw [hcommanded]
    exact hI.created pos (harg pos hpos)
  · intro pos hpos
    rw [hcommanded]
    rw [htimer] at hpos
    subst hpos
    generalize timerPhase w.past = p at hmove
    generalize hb : (a.run e w.mem).1 = b at hmove
    cases hmove with
    | expire =>
      apply hI.created
      simp only [Act.run] at hb
      split at hb
      · exact hb
      · cases hb
  · intro s hst hplacing
    rw [hcall s hst] at hplacing
    rw [hcommanded, World.did_past, serving_other (Ne.symm hst)]
    exact hI.placing s hst hplacing

end TurnInvariant

/-- If every accepted request commands the position that the one before it commanded, every event
pushed when the valve has settled names the position commanded last. -/
theorem settledNamesCommanded_of_positionKept {b : Boot} {c : Config Act Tid World}
    (h : Steps positionKept.assumption b.config c) : SettledNamesCommanded c.shared.past := by
  have hlayer : b.config.Obeys turningLayer
      (fun t w => phaseAfter (turningLayer t) (requestStart t) t w.past) := by
    intro t
    cases t with
    | main => exact turning_servingRule.appMain
    | http => exact turning_servingRule.serve
    | motor | timer => exact conforms_freeProtocol _
  have hsteps := (h.obeying (tracks_phaseAfter turningLayer requestStart) hlayer).1
  have h0 : TurnInvariant b.world := ⟨trivial, nofun, nofun, nofun⟩
  refine TurnInvariant.named
    (valve_invariant (hsteps.obeying tracks_taskPhase b.obeys).1 h0 ?_ ?_ ?_)
  · intro w t β a e q hI hC hs
    obtain ⟨⟨hkept, r, hr, -⟩, p, hp, -⟩ := hC
    refine hI.call hkept ?_ hs
    cases t with
    | main | http => exact turnStep_of_next hr
    | timer => exact absurd rfl hs.notTimer
    | motor =>
      constructor
      · intro b m hacquires
        induction a with
        | casValveIsSettling => cases hp
        | _ => cases hacquires
      · intro arg harg
        induction a with
        | espTimerCreate => cases hp
        | _ => cases harg
  · intro w β a e q hI _ hs
    exact hI.timer hs
  · intro w h m hI _ hm
    obtain ⟨-, -, -, harg⟩ := Happening.run_valve hm
    refine ⟨⟨nofun, hI.named⟩, ?_, hI.fired, hI.placing⟩
    intro pos hpos
    exact hI.created pos (harg.symm.trans hpos)

/-- The timer runs out and its callback returns. -/
def Script.settles : Script := turns .timer 1 ++ [.thread .timer (.value 0)] ++ turns .timer 3

/-- Two requests for the same position, each followed by the callback. -/
def Script.samePosition : Script :=
  boot ++ turns .http 1 ++ request .http { type := .valveSetPosition, valvePos := some .output } 8 ++
    settles ++ turns .http 3 ++
    request .http { type := .valveSetPosition, valvePos := some .output } 8 ++ settles

theorem samePosition_named : ∃ c, Steps positionKept.assumption (Boot.config {}) c ∧
    c.shared.past.countP (·.settledAt.isSome) = 2 ∧ SettledNamesCommanded c.shared.past := by
  have hrun : (device.run positionKept Script.samePosition (Boot.config {})).any
      (fun c => c.shared.past.countP (·.settledAt.isSome) = 2) = true := by decide +kernel
  obtain ⟨c, hsteps, hc⟩ := Machine.exists_of_run hrun
  exact ⟨c, hsteps, of_decide_eq_true hc, settledNamesCommanded_of_positionKept hsteps⟩

/-- The second request commands the other position. -/
def Script.otherPosition : Script :=
  boot ++ turns .http 1 ++ request .http { type := .valveSetPosition, valvePos := some .output } 8 ++
    settles ++ turns .http 3 ++
    request .http { type := .valveSetPosition, valvePos := some .input } 8 ++ settles

theorem otherPosition_misnamed : ∃ c, Reachable {} c ∧ ¬ SettledNamesCommanded c.shared.past := by
  have hrun : (device.run (Guard.any device) Script.otherPosition (Boot.config {})).any
      (fun c => ¬ SettledNamesCommanded c.shared.past) = true := by decide +kernel
  obtain ⟨c, hsteps, hc⟩ := Machine.exists_of_run hrun
  exact ⟨c, hsteps.weaken, of_decide_eq_true hc⟩

end Ecotiter
