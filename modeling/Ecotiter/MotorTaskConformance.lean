import Ecotiter.MotorConformance
import Ecotiter.RunnerRules

/-!
# The operations of the motor task keep to its phases

Every command handler takes the task from the phase `ready` of its command to a phase in which the
task may turn to the next command: `done` for the commands that put idle back, `ready` or `done`
for the others. The whole task follows the protocol from power-up on.
-/

namespace Ecotiter
open Interleaving Firmware MotorPhase

section Runners
variable {op : Op}

theorem onPublish_ready (h : op.produces) :
    onPublish (.running op .ready) = some (.running op .published) := by
  simp [onPublish, h]

/-- An operation whose motions are fills and empties of the burette. -/
structure Op.Strokes (op : Op) : Prop where
  endstop : op.endstop
  notContinuous : op.hasType .moveContinuous = false

theorem Op.Strokes.produces (h : op.Strokes) : op.produces := (Op.endstop_types h.1).2.2.2.1

theorem Op.Strokes.restores (h : op.Strokes) : op.restores := (Op.endstop_types h.1).2.2.2.2

theorem Op.Strokes.rule (hop : op.Strokes) :
    RunnerRule motorProtocol (.running op .ready) (fun _ => True) (· = .running op .done) where
  upward _ _ := trivial
  speed _ := trivial
  fill _ := follows_moveFill hop.1 hop.2
  empty _ := follows_moveEmpty hop.1 hop.2
  settle := follows_settleValve
  reads a b ha := by
    induction a with
    | load v => induction v <;> first | rfl | cases ha
    | taskWdtReset => simp [next, onWdtReset, hop.restores]
    | _ => first | rfl | cases ha
  publish _ _ _ _ _ := follows_storeResult (onPublish_ready hop.produces)

end Runners

section Homing
variable {op : Op}

/-- What `checkHomingTermination` leaves behind when it starts at place `p`. -/
def AfterCheck (op : Op) (m : Motion) (p : Place) (s : HomingState) (r : Bool × HomingState)
    (q : MotorPhase) : Prop :=
  r.2.error = s.error ∧ (s.homed → r.2.homed) ∧
    ((q = .running op (.moving m .halted) ∧ (p = .halted ∨ r.2.homed ∧ r.1)) ∨
      (q = .running op (.moving m .armed) ∧ p.atHead))

theorem follows_checkHomingTermination {start : ℕ} {s : HomingState} {m : Motion} {p : Place}
    (hm : m.flag = .stopFull) (hp : p.atHead ∨ p = .halted) :
    MotorFollows (checkHomingTermination start s) (.running op (.moving m p))
      (AfterCheck op m p s) := by
  have hpoll : ∀ seen, ∃ p', onPoll .loopHead m.flag seen (.running op (.moving m p)) =
      some (.running op (.moving m p')) ∧
        ((p' = .halted ∧ (p = .halted ∨ seen)) ∨ (p' = .armed ∧ p.atHead ∧ seen = false)) := by
    intro seen
    rcases hp with hp | rfl
    · rw [onPoll_atHead hp]
      cases seen <;> simp [hp]
    · exact ⟨.halted, by simp [onPoll], .inl ⟨rfl, .inl rfl⟩⟩
  unfold checkHomingTermination
  simp only [poll, ← hm, Program.act_bind, Program.ret_bind, Protocol.conforms_act,
    motorProtocol_next, next]
  intro seen
  obtain ⟨p', hp', hcases⟩ := hpoll seen
  refine ⟨_, hp', ?_⟩
  cases seen with
  | true =>
    simp only [if_true, Protocol.conforms_pure, AfterCheck]
    rcases hcases with ⟨rfl, -⟩ | ⟨-, -, h⟩
    · simp
    · cases h
  | false =>
    have hend : ∀ r : Bool × HomingState, r.2.error = s.error → (s.homed → r.2.homed) →
        AfterCheck op m p s r (.running op (.moving m p')) := by
      intro r herr hhomed
      refine ⟨herr, hhomed, ?_⟩
      rcases hcases with ⟨rfl, h⟩ | ⟨rfl, h, -⟩
      · exact .inl ⟨rfl, .inl (by simpa using h)⟩
      · exact .inr ⟨rfl, h⟩
    simp only [Bool.false_eq_true, if_false, Protocol.conforms_act, motorProtocol_next, next,
      Option.some.injEq, exists_eq_left']
    intro now
    split
    · exact Protocol.conforms_pure.mpr (hend _ rfl id)
    · exact Protocol.conforms_pure.mpr (hend _ rfl id)

/-- How the loop of `run_homing` is left. -/
def AfterHoming (op : Op) (m : Motion) (s : HomingState) (q : MotorPhase) : Prop :=
  if s.error then q = .running op (.moving m .faulted) else Left op m q

theorem AfterHoming.of_left {m : Motion} {s : HomingState} {q : MotorPhase} (hs : s.error = false)
    (hq : Left op m q) : AfterHoming op m s q := by
  simpa only [AfterHoming, hs, Bool.false_eq_true, if_false] using hq

theorem follows_homingLoop {start : ℕ} (hop : op.homes) :
    MotorFollows (homingLoop start) (.running op (.moving ⟨.liqIn, .stopFull, none⟩ .poised))
      (AfterHoming op ⟨.liqIn, .stopFull, none⟩) := by
  generalize hm : (⟨.liqIn, .stopFull, none⟩ : Motion) = m
  have hflag : m.flag = .stopFull := by rw [← hm]
  have hhz : m.hz = none := by rw [← hm]
  refine Protocol.Conforms.iterate
    (fun s q => s.error = false ∧ ∃ p : Place, (p.atHead ∨ p = .halted ∧ s.homed) ∧
      q = .running op (.moving m p)) ?_ ⟨rfl, .poised, .inl (.inl rfl), rfl⟩
  rintro s _ ⟨herr, p, hp, rfl⟩
  have hleave : Left op m (.running op (.moving m p)) := by
    refine ⟨p, ?_, rfl⟩
    rcases hp with hp | ⟨rfl, -⟩
    · exact hp.leaves
    · rfl
  by_cases hstop : s.homed ∨ s.timedOut ∨ s.error
  · simp only [hstop, if_true, Protocol.conforms_pure, Sum.elim_inr]
    exact .of_left herr hleave
  have hhead : p.atHead := hp.resolve_right fun h => hstop (.inl h.2)
  simp only [hstop, if_false, taskWdtReset, Program.act_bind, Program.ret_bind,
    Protocol.conforms_act, motorProtocol_next, next, onWdtReset, Option.some.injEq,
    exists_eq_left', forall_const]
  refine (follows_checkHomingTermination hflag (.inl hhead)).bind ?_
  rintro ⟨done, s'⟩ q ⟨herr', -, hq⟩
  have hnot : p ≠ .halted := by rcases hhead with rfl | rfl | rfl <;> decide
  cases done with
  | true =>
    have hq' : Left op m q := by
      rcases hq with ⟨rfl, -⟩ | ⟨rfl, -⟩ <;> exact ⟨_, rfl, rfl⟩
    exact Protocol.conforms_pure.mpr (.of_left (herr'.trans herr) hq')
  | false =>
    obtain rfl : q = .running op (.moving m .armed) := by
      rcases hq with ⟨-, h | ⟨-, h⟩⟩ | ⟨rfl, -⟩
      · exact absurd h hnot
      · cases h
      · rfl
    rw [← hflag]
    refine (follows_moveStepsIntervals (by simp [hhz])).bind ?_
    rintro (⟨_ | _⟩ | ⟨⟩) q hq
    · cases hq
      refine (follows_checkHomingTermination hflag (.inr rfl)).bind ?_
      rintro ⟨_, s''⟩ q ⟨herr'', hhomed, hq⟩
      obtain ⟨rfl, -⟩ | ⟨-, h⟩ := hq
      · exact Protocol.conforms_pure.mpr
          ⟨herr''.trans (herr'.trans herr), .halted, .inr ⟨rfl, hhomed rfl⟩, rfl⟩
      · rcases h with h | h | h <;> cases h
    · obtain ⟨p', hp', rfl⟩ := hq
      simp [store, next, onStoreState, hp', hop, AfterHoming]
    · obtain ⟨p', hp', rfl⟩ := hq
      refine (follows_checkHomingTermination hflag (.inl (.inr hp'))).bind ?_
      rintro ⟨_, s''⟩ q ⟨herr'', -, hq⟩
      have herr3 := herr''.trans (herr'.trans herr)
      obtain ⟨rfl, h | ⟨h, -⟩⟩ | ⟨rfl, -⟩ := hq
      · rcases hp' with rfl | rfl <;> cases h
      · exact Protocol.conforms_pure.mpr ⟨herr3, .halted, .inr ⟨rfl, h⟩, rfl⟩
      · exact Protocol.conforms_pure.mpr ⟨herr3, .armed, .inl (.inr (.inl rfl)), rfl⟩

theorem Op.homes_types (h : op.homes) :
    op.restores ∧ op.produces = false ∧ op.hasType .moveSteps = false := by
  cases op with
  | homing => exact ⟨rfl, rfl, rfl⟩
  | command cmd =>
    have ht : cmd.type = .home := by simpa [Op.homes] using h
    simp [Op.restores, Op.produces, Op.hasType, ht, MotorCommandType.restoresIdle,
      MotorCommandType.producesResult]

theorem follows_postHomingCleanup {s : HomingState} {m : Motion} {q : MotorPhase} (hop : op.homes)
    (hq : AfterHoming op m s q) :
    MotorFollows (postHomingCleanup s) q (fun _ q => q = .running op .done) := by
  obtain ⟨hrestores, hproduces, hsteps⟩ := Op.homes_types hop
  unfold AfterHoming at hq
  split at hq
  case isTrue herr =>
    subst hq
    simp [postHomingCleanup, StepperMotor.emergencyStop, StepperMotor.enable, gpioSetLevel, herr,
      next, onEnPin, onAwait, hop, hsteps, Place.leaves]
  case isFalse herr =>
    obtain ⟨p, hp, rfl⟩ := hq
    refine (follows_emergencyStop (.inr ⟨hp, hsteps⟩)).bind ?_
    rintro _ _ rfl
    cases s.homed <;>
      simp [StepperMotor.enable, StepperMotor.setCurrentPosition, gpioSetLevel, storeStop, store,
        herr, next, onEnPin, onStoreStop, onStoreState, hop, hsteps, hrestores, hproduces,
        BuretteState.isBusy]

/-- Homing takes place in an operation of its own, which it enters by writing its state. -/
theorem follows_runHoming {switch : Endstop} {p : MotorPhase} (hop : op.homes)
    (hp : onStoreState .homing p = some (.running op .ready)) :
    MotorFollows (runHoming switch) p (fun _ q => q = .running op .done) := by
  simp only [runHoming, load, store, gpioSetLevel, storeStop, Program.act_bind, Program.ret_bind,
    Protocol.conforms_act, motorProtocol_next, next, hp, onDirPin, onStoreStop, hop, if_true,
    Option.some.injEq, exists_eq_left', forall_const, Bool.false_eq_true, if_false, and_self]
  intro oldState startTime
  exact (follows_homingLoop hop).bind fun s q hq => follows_postHomingCleanup hop hq

end Homing

section Commands
variable {cmd : MotorCommand}

/-- The task may turn to the next command. -/
def Finished (op : Op) (q : MotorPhase) : Prop :=
  q = .running op .done ∨ op.restores = false ∧ q = .running op .ready

theorem follows_executeMoveSteps {steps : ℤ} (ht : cmd.type = .moveSteps) :
    MotorFollows (executeMoveSteps steps) (.running (.command cmd) .ready)
      (fun _ q => onPublish q = some (.running (.command cmd) .published)) := by
  have htype : (Op.command cmd).hasType .moveSteps := by simp [Op.hasType, ht]
  have hproduces : (Op.command cmd).produces := by
    simp [Op.produces, ht, MotorCommandType.producesResult]
  by_cases hsteps : steps ≤ 0
  · simpa [executeMoveSteps, hsteps] using onPublish_ready hproduces
  simp only [executeMoveSteps, hsteps, if_false, load, gpioSetLevel, vTaskDelay, Program.act_bind,
    Program.ret_bind, Protocol.conforms_act, motorProtocol_next, next, onLoadDirection, htype,
    if_true, onDirPin, onLoadSpeed, Option.some.injEq, exists_eq_left', forall_const]
  intro dir speed
  refine follows_quotient.bind ?_
  rintro intervalUs _ ⟨rfl, hdiv⟩
  have hpos : clampStepFreq speed ≠ 0 :=
    Nat.ne_of_gt (Nat.lt_of_lt_of_le (by decide) (clampStepFreq_bounds speed).1)
  rw [hdiv hpos]
  refine (follows_stepsLoop htype (by simp [Op.homes, ht]) rfl rfl).mono ?_
  rintro _ _ ⟨p, hp, rfl⟩
  simp [onPublish, htype, hp]

theorem follows_handleMoveSteps (ht : cmd.type = .moveSteps) :
    MotorFollows (MotorTask.handleMoveSteps cmd) (.running (.command cmd) .ready)
      (fun _ => Finished (.command cmd)) := by
  simp only [MotorTask.handleMoveSteps, StepperMotor.position, Program.act_bind, Program.ret_bind,
    Protocol.conforms_act, motorProtocol_next, next, Option.some.injEq, exists_eq_left']
  intro before
  refine (follows_executeMoveSteps ht).bind fun _ q hq => ?_
  simp only [Protocol.conforms_act, motorProtocol_next, next, Option.some.injEq, exists_eq_left']
  exact fun after => (follows_storeResult hq).mono fun _ _ => .inl

theorem follows_handleMoveContinuous (ht : cmd.type = .moveContinuous) :
    MotorFollows (MotorTask.handleMoveContinuous cmd) (.running (.command cmd) .ready)
      (fun _ => Finished (.command cmd)) := by
  have hop : (Op.command cmd).endstop := by simp [Op.endstop, ht]
  have hflag : (Op.command cmd).polls cmd.direction = .stopFull := by
    simp [Op.polls, Op.hasType, ht]
  unfold MotorTask.handleMoveContinuous
  rw [← hflag]
  refine (follows_moveToEndstop hop).bind ?_
  rintro _ _ rfl
  exact (follows_storeResult (onPublish_ready (Op.endstop_types hop).2.2.2.1)).mono
    fun _ _ => .inl

theorem Op.strokes_of_type (ht : cmd.type = .startRinse ∨ cmd.type = .startCalDose ∨
    cmd.type = .startCalSpeed ∨ cmd.type = .startCalSpeedSeq) : (Op.command cmd).Strokes := by
  rcases ht with h | h | h | h <;> exact ⟨by simp [Op.endstop, h], by simp [Op.hasType, h]⟩

/-- The opening of the four handlers that start a runner. -/
theorem follows_runner {state : BuretteState} {run : ℚ × ℚ → Firmware Unit}
    (hop : (Op.command cmd).Strokes) (hs : state.isBusy)
    (hrun : ∀ v, MotorFollows (run v) (.running (.command cmd) .ready)
      (fun _ q => q = .running (.command cmd) .done)) :
    MotorFollows (do store .buretteState state; let v ← MotorTask.runnerVolumes; run v)
      (.running (.command cmd) .ready) (fun _ => Finished (.command cmd)) := by
  simp only [store, MotorTask.runnerVolumes, load, Program.act_bind, Program.ret_bind,
    Program.pure_bind, Protocol.conforms_act, motorProtocol_next, next, onStoreState, hop.restores,
    hs, if_true, Option.some.injEq, exists_eq_left', forall_const]
  exact fun vol => (hrun _).mono fun _ _ => .inl

theorem follows_cancelValveSettleTimer {op : Op} :
    MotorFollows cancelValveSettleTimer (.running op .ready)
      (fun _ q => q = .running op .ready) := by
  simp only [cancelValveSettleTimer, Program.act_bind, Program.ret_bind, Protocol.conforms_act,
    motorProtocol_next, next, onReady, Option.some.injEq, exists_eq_left', Bool.forall_bool,
    Bool.false_eq_true, if_false, if_true, Protocol.conforms_pure, true_and]
  intro err
  split <;> simp [next]

theorem follows_handleEmergencyStop (ht : cmd.type = .emergencyStop) :
    MotorFollows MotorTask.handleEmergencyStop (.running (.command cmd) .ready)
      (fun _ => Finished (.command cmd)) := by
  refine follows_cancelValveSettleTimer.bind ?_
  rintro _ _ rfl
  simp [store, storeStop, next, onReady, onStoreState, onStoreStop, Op.restores, Op.hasType, ht,
    MotorCommandType.restoresIdle, MotorCommandType.producesResult, Finished]

theorem follows_handleHome (ht : cmd.type = .home) :
    MotorFollows MotorTask.handleHome (.running (.command cmd) .ready)
      (fun _ => Finished (.command cmd)) := by
  have hop : (Op.command cmd).homes := by simp [Op.homes, ht]
  refine (follows_runHoming hop ?_).mono fun _ _ => .inl
  simp [onStoreState, (Op.homes_types hop).1, BuretteState.isBusy]

/-- The commands that only set something end where they began. -/
theorem finished_ready (ht : cmd.type.restoresIdle = false) :
    Finished (.command cmd) (.running (.command cmd) .ready) :=
  .inr ⟨ht, rfl⟩

theorem follows_handle : MotorFollows (MotorTask.handle cmd) (.running (.command cmd) .ready)
    (fun _ => Finished (.command cmd)) := by
  unfold MotorTask.handle
  cases ht : cmd.type with
  | moveSteps => exact follows_handleMoveSteps ht
  | moveContinuous => exact follows_handleMoveContinuous ht
  | stop =>
    simp [MotorTask.handleStop, store, storeStop, vTaskDelay, next, onStoreState, onStoreStop,
      Op.restores, Op.produces, Op.hasType, ht, MotorCommandType.restoresIdle,
      MotorCommandType.producesResult, BuretteState.isBusy, Finished]
  | emergencyStop => exact follows_handleEmergencyStop ht
  | home => exact follows_handleHome ht
  | setDirection =>
    have hend : Finished (.command cmd) (.running (.command cmd) .ready) :=
      finished_ready (by rw [ht]; rfl)
    simpa [MotorTask.handleSetDirection, store, gpioSetLevel, next, onReady, onDirPin, Op.homes,
      Op.endstop, Op.hasType, ht] using hend
  | setSpeed =>
    have hend : Finished (.command cmd) (.running (.command cmd) .ready) :=
      finished_ready (by rw [ht]; rfl)
    simp only [MotorTask.handleSetSpeed, store]
    split <;> simpa [next, onReady] using hend
  | setAccel =>
    have hend : Finished (.command cmd) (.running (.command cmd) .ready) :=
      finished_ready (by rw [ht]; rfl)
    simpa [MotorTask.handleSetAccel, store, next, onReady] using hend
  | setStallThreshold =>
    have hend : Finished (.command cmd) (.running (.command cmd) .ready) :=
      finished_ready (by rw [ht]; rfl)
    simpa [MotorTask.handleSetStallThreshold, store, next, onReady] using hend
  | startRinse =>
    have hop := Op.strokes_of_type (.inl ht)
    exact follows_runner hop rfl fun v => hop.rule.runRinseSm _ _ _ _
  | startCalDose =>
    have hop := Op.strokes_of_type (.inr (.inl ht))
    exact follows_runner hop rfl fun v => hop.rule.runCalDoseSm _ _ _
  | startCalSpeed =>
    have hop := Op.strokes_of_type (.inr (.inr (.inl ht)))
    exact follows_runner hop rfl fun v => hop.rule.runCalSpeedSm _ _ _ _
  | startCalSpeedSeq =>
    have hop := Op.strokes_of_type (.inr (.inr (.inr ht)))
    exact follows_runner hop rfl fun v => hop.rule.runCalSpeedSeqSm (fun _ _ => trivial) _ _ _
  | readTmcRegister =>
    have hend : Finished (.command cmd) (.running (.command cmd) .ready) :=
      finished_ready (by rw [ht]; rfl)
    simp only [MotorTask.handleReadTmcRegister, wsBroadcast, Program.act_bind, Program.ret_bind,
      Protocol.conforms_act, motorProtocol_next, next, Option.some.injEq, exists_eq_left']
    intro value
    cases value <;> simpa [next] using hend

theorem onWdtReset_finished {op : Op} {q : MotorPhase} (h : Finished op q) :
    onWdtReset q = some .listening := by
  rcases h with rfl | ⟨hop, rfl⟩ <;> simp [onWdtReset, *]

/-- The phases in which the loop of the task comes round. -/
def AtLoopTop (q : MotorPhase) : Prop := onWdtReset q = some .listening

theorem follows_commandLoop {q : MotorPhase} (hq : AtLoopTop q) :
    MotorFollows MotorTask.commandLoop q (fun _ _ => False) := by
  refine Protocol.Conforms.iterate (fun _ => AtLoopTop) ?_ hq
  rintro _ q hq
  unfold AtLoopTop at hq
  simp only [taskWdtReset, Program.act_bind, Program.ret_bind, Protocol.conforms_act,
    motorProtocol_next, next, hq, onReceive, Option.some.injEq, exists_eq_left', forall_const]
  intro cmd
  cases cmd with
  | none => exact Protocol.conforms_pure.mpr rfl
  | some cmd =>
    refine follows_handle.bind fun _ q hq => ?_
    exact Protocol.conforms_pure.mpr (onWdtReset_finished hq)

theorem follows_configureTmcUart :
    MotorFollows MotorTask.configureTmcUart .booting (fun _ q => q = .booting) := by
  simp [MotorTask.configureTmcUart, load, next, onBoot]

/-- The motor task follows its phases from power-up on. -/
theorem follows_motorTaskEntry :
    MotorFollows MotorTask.motorTaskEntry .unborn (fun _ _ => True) := by
  simp only [MotorTask.motorTaskEntry, MotorTask.createMotorQueues, Program.act_bind,
    Program.ret_bind, Protocol.conforms_act, motorProtocol_next, next, onCreate, onCreateResults,
    onBoot, Option.some.injEq, exists_eq_left', Bool.forall_bool, Bool.false_eq_true, if_false,
    if_true, Program.pure_bind, Protocol.conforms_pure, true_and, forall_const]
  refine follows_configureTmcUart.bind ?_
  rintro _ _ rfl
  have hhoming : MotorFollows (runHoming .full) .booting (fun _ q => q = .running .homing .done) :=
    follows_runHoming rfl rfl
  refine hhoming.bind ?_
  rintro _ _ rfl
  simp only [store, Program.act_bind, Program.ret_bind, Protocol.conforms_act, motorProtocol_next,
    next, Option.some.injEq, exists_eq_left', forall_const]
  have htop : AtLoopTop (.running .homing .done) := rfl
  exact (follows_commandLoop htop).mono fun _ _ _ => trivial

end Commands
end Ecotiter
