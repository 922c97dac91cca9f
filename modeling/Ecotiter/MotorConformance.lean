import Ecotiter.MotorPhases

/-!
# The motor task keeps to its phases

Each routine of the motor task is shown to follow `motorProtocol` from the phases in which it is
called, for all answers of the hardware and of the shared memory. The loops carry the set of phases
possible at their head.
-/

namespace Ecotiter
open Interleaving Firmware MotorPhase

/-- The program follows the phases of the motor task from `p` on and returns as `Q` says. -/
abbrev MotorFollows {α : Type} (prog : Firmware α) (p : MotorPhase) (Q : α → MotorPhase → Prop) :
    Prop :=
  motorProtocol.Conforms Q prog p

@[simp] theorem motorProtocol_next (p : MotorPhase) {β : Type} (a : Act β) (b : β) :
    motorProtocol.next p a b = p.next a b := rfl

attribute [local simp] load store poll storeStop gpioSetLevel vTaskDelay taskWdtReset wsBroadcast
  next

section Chunks
variable {op : Op} {m : Motion}

theorem follows_emergencyStop {p : Place}
    (hp : p = .halting ∨ p.leaves ∧ op.hasType .moveSteps = false) :
    MotorFollows StepperMotor.emergencyStop (.running op (.moving m p))
      (fun _ q => q = .running op (.moving m .halted)) := by
  simp [StepperMotor.emergencyStop, next, onEnPin, onAwait, hp]

/-- How `moveStepsIntervals` and its parts leave the motion. -/
def AfterChunk (op : Op) (m : Motion) (good : Place → Prop) :
    Except StepperError Unit → MotorPhase → Prop
  | .ok (), q => ∃ p, good p ∧ q = .running op (.moving m p)
  | .error .limitSwitchTriggered, q => q = .running op (.moving m .halted)
  | .error .rmt, q => ∃ p, p.leaves ∧ q = .running op (.moving m p)

/-- A poll that sees the flag disables the driver and reports the limit switch. -/
theorem follows_halt {β : Type} {J : β → MotorPhase → Prop} {good : Place → Prop} :
    MotorFollows
      (do StepperMotor.emergencyStop
          return (.inr (.error .limitSwitchTriggered) : β ⊕ Except StepperError Unit))
      (.running op (.moving m .halting)) (Sum.elim J (AfterChunk op m good)) := by
  refine (follows_emergencyStop (.inl rfl)).bind ?_
  rintro _ _ rfl
  simp [AfterChunk]

theorem follows_transmitChunk {symbols : List RmtSymbol} (hs : Motion.fits m symbols) :
    MotorFollows (StepperMotor.transmitChunk symbols m.flag) (.running op (.moving m .checked))
      (AfterChunk op m (· = .sending)) := by
  refine Protocol.Conforms.iterate (fun _ q => q = .running op (.moving m .checked)) ?_ rfl
  rintro retries _ rfl
  simp only [poll, vTaskDelay, Program.act_bind, Program.ret_bind, Protocol.conforms_act,
    motorProtocol_next, next, onPoll, onTransmit, hs, ne_eq, not_true_eq_false, if_false, if_true,
    Bool.forall_bool, Option.some.injEq, exists_eq_left', Bool.false_eq_true]
  refine ⟨fun err => ?_, follows_halt⟩
  cases err with
  | ok => simp [AfterChunk]
  | invalidState =>
    by_cases hr : StepperMotor.maxRetries ≤ retries
    · simp [hr, AfterChunk, Place.leaves]
    · simp [hr, next]
  | timeout | fail => simp [AfterChunk, Place.leaves]

theorem follows_awaitChunk :
    MotorFollows (StepperMotor.awaitChunk m.flag) (.running op (.moving m .sending))
      (AfterChunk op m (· = .sent)) := by
  refine Protocol.Conforms.iterate (fun _ q => q = .running op (.moving m .sending)) ?_ rfl
  rintro _ _ rfl
  simp only [poll, Program.act_bind, Program.ret_bind, Protocol.conforms_act, motorProtocol_next,
    next, onAwait, Option.some.injEq, exists_eq_left']
  intro err
  cases err with
  | ok => simp [AfterChunk]
  | timeout =>
    simp only [Place.afterAwait, Protocol.conforms_act, motorProtocol_next, next, onPoll, ne_eq,
      not_true_eq_false, if_false, if_true, reduceCtorEq, Bool.forall_bool, Option.some.injEq,
      exists_eq_left', Bool.false_eq_true]
    exact ⟨by simp, follows_halt⟩
  | invalidState | fail => simp [AfterChunk, Place.leaves]

/-- The places between two chunks. -/
def Place.between (p : Place) : Prop := p = .armed ∨ p = .moved

theorem follows_moveStepsIntervals {intervals : List ℕ}
    (hi : ∀ hz, m.hz = some hz → ∀ i ∈ intervals, i = 1000000 / hz) :
    MotorFollows (StepperMotor.moveStepsIntervals intervals m.flag)
      (.running op (.moving m .armed)) (AfterChunk op m Place.between) := by
  refine Protocol.Conforms.iterate
    (fun _ q => ∃ p, Place.between p ∧ q = .running op (.moving m p)) ?_ ⟨.armed, .inl rfl, rfl⟩
  rintro offset _ ⟨p, hp, rfl⟩
  by_cases hlen : intervals.length ≤ offset
  · simpa [hlen, AfterChunk] using hp
  have hpoll : ∀ seen, onPoll .chunk m.flag seen (.running op (.moving m p)) =
      some (.running op (.moving m (if seen then .halting else .checked))) := by
    rcases hp with rfl | rfl <;> simp [onPoll]
  simp only [hlen, poll, if_false, Program.act_bind, Program.ret_bind, Protocol.conforms_act,
    motorProtocol_next, next, hpoll, Bool.forall_bool, Option.some.injEq, exists_eq_left',
    if_true, Bool.false_eq_true]
  refine ⟨?_, follows_halt⟩
  have hfits : Motion.fits m (((intervals.drop offset).take
      (min (intervals.length - offset) Config.rmtChunkSymbols)).map stepSymbol) := by
    simp only [Motion.fits, Option.all_eq_true, List.all_eq_true, List.mem_map, decide_eq_true_eq]
    rintro hz hhz _ ⟨i, hmem, rfl⟩
    rw [hi hz hhz i (List.mem_of_mem_drop (List.mem_of_mem_take hmem))]
  refine (follows_transmitChunk hfits).bind ?_
  rintro (⟨_ | _⟩ | ⟨⟩) q hq
  · simp_all [AfterChunk]
  · simpa [AfterChunk] using hq
  obtain ⟨_, rfl, rfl⟩ := hq
  refine follows_awaitChunk.bind ?_
  rintro (⟨_ | _⟩ | ⟨⟩) q hq
  · simp_all [AfterChunk]
  · simpa [AfterChunk] using hq
  obtain ⟨_, rfl, rfl⟩ := hq
  simp [next, onCounted, Place.between]

end Chunks

section Motions
variable {op : Op}

/-- The places at which the loop of a motion reads the flag for its next chunk. -/
def Place.atHead (p : Place) : Prop := p = .poised ∨ p.between

theorem Place.atHead.leaves {p : Place} (h : p.atHead) : p.leaves := by
  rcases h with rfl | rfl | rfl <;> rfl

theorem onPoll_atHead {m : Motion} {p : Place} (hp : p.atHead) (seen : Bool) :
    onPoll .loopHead m.flag seen (.running op (.moving m p)) =
      some (.running op (.moving m (if seen then .halted else .armed))) := by
  rcases hp with rfl | rfl | rfl <;> simp [onPoll]

/-- The motion is over and can be left. -/
def Left (op : Op) (m : Motion) (q : MotorPhase) : Prop :=
  ∃ p : Place, p.leaves ∧ q = .running op (.moving m p)

theorem follows_quotient {a b : ℕ} {p : MotorPhase} :
    MotorFollows (quotient a b) p (fun n q => q = p ∧ (b ≠ 0 → n = a / b)) := by
  by_cases hb : b = 0
  · simp [quotient, hb, next]
  · simp [quotient, hb]

theorem follows_endstopLoop (m : Motion) {intervalUs : ℕ} (hm : m.hz = none) :
    MotorFollows (endstopLoop intervalUs m.flag) (.running op (.moving m .poised))
      (fun _ => Left op m) := by
  refine Protocol.Conforms.iterate (fun _ q => ∃ p : Place, p.atHead ∧ q = .running op (.moving m p))
    ?_ ⟨.poised, .inl rfl, rfl⟩
  rintro _ _ ⟨p, hp, rfl⟩
  simp only [poll, Program.act_bind, Program.ret_bind, Protocol.conforms_act, motorProtocol_next,
    next, onPoll_atHead hp, Bool.forall_bool, Option.some.injEq, exists_eq_left', if_true,
    Bool.false_eq_true, if_false]
  refine ⟨?_, by simp [Left, Place.leaves]⟩
  refine (follows_moveStepsIntervals (by simp [hm])).bind ?_
  rintro (⟨_ | _⟩ | ⟨⟩) q hq
  · simp_all [AfterChunk, Left, Place.leaves]
  · simpa [AfterChunk, Left] using hq
  · obtain ⟨p', hp', rfl⟩ := hq
    exact Protocol.conforms_pure.mpr ⟨p', .inr hp', rfl⟩

/-- `emergencyStop` and `enable` end a motion to an endstop. -/
theorem follows_leave {m : Motion} {p : MotorPhase} (hop : op.hasType .moveSteps = false)
    (hp : Left op m p) :
    MotorFollows (do StepperMotor.emergencyStop; StepperMotor.enable) p
      (fun _ q => q = .running op .ready) := by
  obtain ⟨p, hp, rfl⟩ := hp
  refine (follows_emergencyStop (.inr ⟨hp, hop⟩)).bind ?_
  rintro _ _ rfl
  simp [StepperMotor.enable, gpioSetLevel, next, onEnPin, hop]

theorem Op.endstop_types (h : op.endstop) :
    op.homes = false ∧ op.hasType .moveSteps = false ∧ op.hasType .setDirection = false ∧
      op.produces ∧ op.restores := by
  cases op with
  | homing => cases h
  | command cmd =>
    simp only [Op.endstop, Op.homes, Op.hasType, Op.produces, Op.restores] at h ⊢
    cases ht : cmd.type <;>
      simp_all [MotorCommandType.producesResult, MotorCommandType.restoresIdle]

theorem follows_moveToEndstop {dir : Direction} {speedHz : ℕ} (hop : op.endstop) :
    MotorFollows (moveToEndstop dir speedHz (op.polls dir)) (.running op .ready)
      (fun _ q => q = .running op .ready) := by
  obtain ⟨hhomes, hsteps, hset, -⟩ := Op.endstop_types hop
  have hdir : (if dir.level then Direction.liqIn else .liqOut) = dir := by cases dir <;> rfl
  simp only [moveToEndstop, gpioSetLevel, vTaskDelay, storeStop, Program.act_bind,
    Program.ret_bind, Protocol.conforms_act, motorProtocol_next, next, onDirPin, hhomes, hop, hdir,
    Bool.false_eq_true, if_false, if_true, Option.some.injEq, exists_eq_left', forall_const]
  refine follows_quotient.bind ?_
  rintro intervalUs _ ⟨rfl, -⟩
  simp only [Protocol.conforms_act, motorProtocol_next, next, onStoreStop, hhomes, hop,
    Bool.false_eq_true, if_false, if_true, and_self, Option.some.injEq, exists_eq_left',
    forall_const]
  exact (follows_endstopLoop ⟨dir, op.polls dir, none⟩ rfl).bind fun _ _ => follows_leave hsteps

theorem follows_settleValve {stopFlag : StopFlag} :
    MotorFollows (settleValve stopFlag) (.running op .ready)
      (fun _ q => q = .running op .ready) := by
  refine Protocol.Conforms.iterate (fun _ q => q = .running op .ready) ?_ rfl
  rintro i _ rfl
  by_cases hi : Config.valveSettleMs / 10 ≤ i
  · simp [hi]
  · simp [hi, poll, vTaskDelay, next, onPoll]

theorem follows_moveFill {speedHz : ℕ} (hop : op.endstop)
    (hc : op.hasType .moveContinuous = false) :
    MotorFollows (moveFill speedHz) (.running op .ready) (fun _ q => q = .running op .ready) := by
  have hflag : op.polls .liqIn = .stopFull := by simp [Op.polls, hop, hc, Direction.endstop,
    Endstop.flag]
  simp only [moveFill, setValve, gpioSetLevel, store, Program.act_bind, Program.ret_bind,
    Protocol.conforms_act, motorProtocol_next, next, onReady, Option.some.injEq, exists_eq_left',
    forall_const]
  refine follows_settleValve.bind ?_
  rintro _ _ rfl
  simp only [Protocol.conforms_act, motorProtocol_next, next, onStoreState,
    (Op.endstop_types hop).2.2.2.2, BuretteState.isBusy, if_true, Option.some.injEq,
    exists_eq_left', forall_const]
  exact hflag ▸ follows_moveToEndstop hop

theorem follows_moveEmpty {speedHz : ℕ} (hop : op.endstop)
    (hc : op.hasType .moveContinuous = false) :
    MotorFollows (moveEmpty speedHz) (.running op .ready) (fun _ q => q = .running op .ready) := by
  have hflag : op.polls .liqOut = .stopEmpty := by simp [Op.polls, hop, hc, Direction.endstop,
    Endstop.flag]
  simp only [moveEmpty, setValve, gpioSetLevel, store, Program.act_bind, Program.ret_bind,
    Protocol.conforms_act, motorProtocol_next, next, onReady, Option.some.injEq, exists_eq_left',
    forall_const]
  refine follows_settleValve.bind ?_
  rintro _ _ rfl
  simp only [Protocol.conforms_act, motorProtocol_next, next, onStoreState,
    (Op.endstop_types hop).2.2.2.2, BuretteState.isBusy, if_true, Option.some.injEq,
    exists_eq_left', forall_const]
  exact hflag ▸ follows_moveToEndstop hop

theorem follows_storeResult {type : SmResultType} {steps : ℤ} {speed : ℚ} {results : List ℚ}
    {count : ℕ} {p : MotorPhase} (hp : onPublish p = some (.running op .published)) :
    MotorFollows (storeResult type steps speed results count) p
      (fun _ q => q = .running op .done) := by
  simp [storeResult, wsBroadcast, store, next, hp, onStoreState]

theorem follows_stepsLoop {m : Motion} {hz : ℕ} {steps : ℤ} (hop : op.hasType .moveSteps)
    (hhomes : op.homes = false) (hflag : m.flag = .stopFull) (hm : m.hz = some hz) :
    MotorFollows (stepsLoop (1000000 / hz) steps) (.running op (.moving m .poised))
      (fun _ => Left op m) := by
  refine Protocol.Conforms.iterate (fun _ q => ∃ p : Place, p.atHead ∧ q = .running op (.moving m p))
    ?_ ⟨.poised, .inl rfl, rfl⟩
  rintro remaining _ ⟨p, hp, rfl⟩
  by_cases hr : remaining ≤ 0
  · simp only [hr, if_true, Protocol.conforms_pure, Sum.elim_inr]
    exact ⟨p, hp.leaves, rfl⟩
  simp only [hr, if_false, taskWdtReset, poll, ← hflag, Program.act_bind, Program.ret_bind,
    Protocol.conforms_act, motorProtocol_next, next, onWdtReset, onPoll_atHead hp, Bool.forall_bool,
    Option.some.injEq, exists_eq_left', forall_const, if_true, Bool.false_eq_true]
  refine ⟨?_, by simp [Left, Place.leaves]⟩
  refine (follows_moveStepsIntervals ?_).bind ?_
  · intro hz' hhz' i hi
    rw [hm] at hhz'
    cases hhz'
    exact List.eq_of_mem_replicate hi
  rintro (⟨_ | _⟩ | ⟨⟩) q hq
  · cases hq
    simp [store, next, onStoreState, Place.leaves, hop, hhomes, Left]
  · simpa [AfterChunk, Left] using hq
  · obtain ⟨p', hp', rfl⟩ := hq
    exact Protocol.conforms_pure.mpr ⟨p', .inr hp', rfl⟩

end Motions
end Ecotiter
