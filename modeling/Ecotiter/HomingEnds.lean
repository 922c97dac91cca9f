import Ecotiter.FailedMotions

/-!
# How a homing ends

A homing ends when it reads the stop flag as set, when its time is over or when the driver fails.
Only in the first case is the position reset, and only in the first two does the homing write idle.
The flag is raised by the interrupt of the FULL switch or by the request for an emergency stop.
-/

namespace Ecotiter
open Interleaving Firmware

/-- How far a homing has got, as the answers to its actions tell. -/
inductive HomingPhase
  | outside                              -- no homing, or its state is written
  | opened                               -- homing is written to `gBuretteState`
  | cleared                              -- `gStopFull` is lowered
  | searching (start : ℕ) (o : Outcome)  -- the time of the start is known
  | found                                -- the flag was read as set
  | timedOut
  | failed
  deriving DecidableEq

namespace HomingPhase

def onStoreState (x : BuretteState) : HomingPhase → Option HomingPhase
  | p =>
    match x, p with
    | .homing, _ => some .opened
    | .idle, .outside | .idle, .found | .idle, .timedOut => some .outside
    | .idle, _ => none
    | _, p => some p

def onStoreStop (flag : StopFlag) (b : Bool) : HomingPhase → Option HomingPhase
  | .outside => some .outside
  | .opened => if b then none else some (if flag = .stopFull then .cleared else .opened)
  | p => if b then none else some p

def onClock (now : ℕ) : HomingPhase → HomingPhase
  | .cleared => .searching now {}
  | .searching start o =>
    if homingTimeoutMs ≤ subU32 now start then .timedOut else .searching start o
  | p => p

def onPoll (site : PollSite) (flag : StopFlag) (seen : Bool) : HomingPhase → Option HomingPhase
  | .searching start o =>
    if flag = .stopFull then
      some (if seen then .found else .searching start (o.step (.poll site flag) seen))
    else none
  | p => some p

def onDriver (o' : Outcome → Outcome) : HomingPhase → HomingPhase
  | .searching start o => if (o' o).failed then .failed else .searching start (o' o)
  | p => p

def onReset : HomingPhase → Option HomingPhase
  | .found => some .found
  | _ => none

def next (p : HomingPhase) : {β : Type} → Act β → β → Option HomingPhase
  | _, .store .buretteState x, _ => p.onStoreState x
  | _, .storeStop flag b, _ => p.onStoreStop flag b
  | _, .xTaskGetTickCount, now => some (p.onClock now)
  | _, .poll site flag, seen => p.onPoll site flag seen
  | _, .rmtTransmit _, err => some (p.onDriver fun o => o.onTransmit err)
  | _, .rmtTxWaitAllDone timeoutMs, err => some (p.onDriver fun o => o.onAwait timeoutMs err)
  | _, .positionStore _, _ => p.onReset
  | _, .xQueueReceive, cmd => some (if cmd.isSome then .outside else p)
  | _, _, _ => some p

end HomingPhase

def homingProtocol : Protocol Act HomingPhase := ⟨fun p _ a b => p.next a b⟩

/-- The phase of the motor task with respect to homing after a history. -/
def homing (past : List Event) : HomingPhase := phaseAfter homingProtocol .outside .motor past

@[simp] theorem homingProtocol_next {p : HomingPhase} {β : Type} {a : Act β} {b : β} :
    homingProtocol.next p a b = p.next a b := rfl

section Driver

/-- The phase in which a call of the driver returns while the switch is searched for. -/
def HomingPhase.AfterCall (start : ℕ) (r : Except StepperError Unit) (q : HomingPhase) : Prop :=
  match r with
  | .ok () => ∃ o, q = .searching start o ∧ o.failed = false
  | .error .limitSwitchTriggered => q = .found
  | .error .rmt => q = .failed

/-- A call that has seen the stop flag disables the driver before it returns. -/
theorem homing_emergencyStop {α : Type} {rest : Firmware α} {Q : α → HomingPhase → Prop}
    {p : HomingPhase} (hp : ∀ o', p.onDriver o' = p) (h : homingProtocol.Conforms Q rest p) :
    homingProtocol.Conforms Q (do StepperMotor.emergencyStop; rest) p := by
  refine Protocol.conforms_act.mpr fun _ => ⟨p, rfl, Protocol.conforms_act.mpr fun err => ?_⟩
  refine ⟨p, ?_, h⟩
  simp only [homingProtocol_next, HomingPhase.next, hp]

theorem homing_transmitChunk {symbols : List RmtSymbol} {start : ℕ} {o : Outcome}
    (ho : o.retries = 0) (hok : o.failed = false) :
    homingProtocol.Conforms (HomingPhase.AfterCall start)
      (StepperMotor.transmitChunk symbols .stopFull) (.searching start o) := by
  refine Protocol.Conforms.iterate
    (fun (retries : ℕ) q => ∃ o, q = .searching start o ∧ o.retries = retries ∧ o.failed = false)
    ?_ ⟨o, rfl, ho, hok⟩
  intro retries q hq
  obtain ⟨o, hq, hretries, hok⟩ := hq
  rw [hq]
  refine .perform fun seen => ?_
  cases seen with
  | true =>
    exact ⟨.found, rfl, homing_emergencyStop (fun _ => rfl) (Protocol.conforms_pure.mpr rfl)⟩
  | false =>
    refine ⟨.searching start o, rfl, .perform fun err => ⟨_, rfl, ?_⟩⟩
    by_cases herr : err = .ok
    · rw [if_pos herr]
      refine Protocol.conforms_pure.mpr ⟨o, ?_, hok⟩
      simp [HomingPhase.onDriver, Outcome.onTransmit, herr, hok]
    · rw [if_neg herr]
      by_cases hend : err ≠ .invalidState ∨ StepperMotor.maxRetries ≤ retries
      · rw [if_pos hend]
        have hnot : ¬ (err = .invalidState ∧ o.retries < StepperMotor.maxRetries) := by
          rw [hretries]
          rintro ⟨hinvalid, hlt⟩
          rcases hend with hne | hle
          · exact hne hinvalid
          · omega
        refine Protocol.conforms_pure.mpr ?_
        simp [HomingPhase.AfterCall, HomingPhase.onDriver, Outcome.onTransmit, herr, hnot]
      · rw [if_neg hend]
        have hretry : err = .invalidState ∧ o.retries < StepperMotor.maxRetries := by
          rw [hretries]
          by_cases hinvalid : err = .invalidState
          · exact ⟨hinvalid, by omega⟩
          · exact absurd (.inl hinvalid) hend
        have hnext : HomingPhase.onDriver (fun o => o.onTransmit err) (.searching start o) =
            .searching start { o with retries := o.retries + 1 } := by
          simp only [HomingPhase.onDriver, Outcome.onTransmit, if_neg herr, if_pos hretry, hok,
            Bool.false_eq_true, if_false]
        rw [hnext]
        refine .perform fun _ => ⟨_, rfl, Protocol.conforms_pure.mpr ⟨_, rfl, ?_, hok⟩⟩
        exact congrArg (· + 1) hretries

theorem homing_awaitChunk {start : ℕ} {o : Outcome} (hok : o.failed = false) :
    homingProtocol.Conforms (HomingPhase.AfterCall start) (StepperMotor.awaitChunk .stopFull)
      (.searching start o) := by
  refine Protocol.Conforms.iterate (fun _ q => q = .searching start o) ?_ rfl
  intro _ q hq
  rw [hq]
  refine .perform fun err => ⟨_, rfl, ?_⟩
  by_cases herr : err = .ok
  · rw [if_pos herr]
    refine Protocol.conforms_pure.mpr ⟨o, ?_, hok⟩
    simp [HomingPhase.onDriver, Outcome.onAwait, herr, hok]
  · rw [if_neg herr]
    by_cases htimeout : err = .timeout
    · have hsame : HomingPhase.onDriver (fun o => o.onAwait 100 err) (.searching start o) =
          .searching start o := by
        simp [HomingPhase.onDriver, Outcome.onAwait, htimeout, hok]
      rw [if_neg (fun h => h htimeout), hsame]
      refine .perform fun seen => ?_
      cases seen with
      | true =>
        exact ⟨.found, rfl, homing_emergencyStop (fun _ => rfl) (Protocol.conforms_pure.mpr rfl)⟩
      | false => exact ⟨.searching start o, rfl, Protocol.conforms_pure.mpr rfl⟩
    · rw [if_pos htimeout]
      refine Protocol.conforms_pure.mpr ?_
      simp [HomingPhase.AfterCall, HomingPhase.onDriver, Outcome.onAwait, herr, htimeout]

theorem homing_moveStepsIntervals {intervals : List ℕ} {start : ℕ} {o : Outcome}
    (hok : o.failed = false) :
    homingProtocol.Conforms (HomingPhase.AfterCall start)
      (StepperMotor.moveStepsIntervals intervals .stopFull) (.searching start o) := by
  refine Protocol.Conforms.iterate
    (fun _ q => ∃ o, q = .searching start o ∧ o.failed = false) ?_ ⟨o, rfl, hok⟩
  intro offset q hq
  by_cases hend : intervals.length ≤ offset
  · rw [if_pos hend]
    exact Protocol.conforms_pure.mpr hq
  rw [if_neg hend]
  obtain ⟨o, hq, hok⟩ := hq
  rw [hq]
  refine .perform fun seen => ?_
  cases seen with
  | true =>
    exact ⟨.found, rfl, homing_emergencyStop (fun _ => rfl) (Protocol.conforms_pure.mpr rfl)⟩
  | false =>
    refine ⟨.searching start { o with retries := 0 }, rfl, ?_⟩
    refine (@homing_transmitChunk _ start { o with retries := 0 } rfl hok).bind ?_
    intro sent q hsent
    rcases sent with err | _
    · exact Protocol.conforms_pure.mpr hsent
    · obtain ⟨o, hq, hok⟩ := hsent
      rw [hq]
      refine (homing_awaitChunk hok).bind ?_
      intro done q hdone
      rcases done with err | _
      · exact Protocol.conforms_pure.mpr hdone
      · obtain ⟨o, hq, hok⟩ := hdone
        rw [hq]
        exact .perform fun _ => ⟨_, rfl, Protocol.conforms_pure.mpr ⟨o, rfl, hok⟩⟩

end Driver

section Task

/-- The variables of the homing loop say what the phase says. -/
inductive HomingState.Tells (start : ℕ) : HomingState → HomingPhase → Prop
  | searching {o : Outcome} : o.failed = false →
      Tells start ⟨false, false, false⟩ (.searching start o)
  | found {late : Bool} : Tells start ⟨true, late, false⟩ .found
  | timedOut : Tells start ⟨false, true, false⟩ .timedOut
  | failed : Tells start ⟨false, false, true⟩ .failed

def HomingState.ended (s : HomingState) : Prop := s.homed ∨ s.timedOut ∨ s.error

/-- A check of the end of a homing, while the switch is searched for or after it was found. -/
theorem homing_check {start : ℕ} {s : HomingState} {p : HomingPhase} (h : s.Tells start p)
    (hp : p ≠ .failed) (ht : p ≠ .timedOut) :
    homingProtocol.Conforms
      (fun r q => r.2.Tells start q ∧ if r.1 then r.2.ended else r.2 = s)
      (checkHomingTermination start s) p := by
  refine .perform fun seen => ?_
  induction h with
  | @searching o hok =>
    cases seen with
    | true => exact ⟨.found, rfl, Protocol.conforms_pure.mpr ⟨.found, .inl rfl⟩⟩
    | false =>
      refine ⟨.searching start o, rfl, .perform fun now => ⟨_, rfl, ?_⟩⟩
      by_cases hlate : homingTimeoutMs ≤ subU32 now start
      · rw [if_pos hlate, HomingPhase.onClock, if_pos hlate]
        exact Protocol.conforms_pure.mpr ⟨.timedOut, .inr (.inl rfl)⟩
      · rw [if_neg hlate, HomingPhase.onClock, if_neg hlate]
        exact Protocol.conforms_pure.mpr ⟨.searching hok, rfl⟩
  | found =>
    cases seen with
    | true => exact ⟨.found, rfl, Protocol.conforms_pure.mpr ⟨.found, .inl rfl⟩⟩
    | false =>
      refine ⟨.found, rfl, .perform fun now => ⟨.found, rfl, ?_⟩⟩
      split
      · exact Protocol.conforms_pure.mpr ⟨.found, .inl rfl⟩
      · exact Protocol.conforms_pure.mpr ⟨.found, rfl⟩
  | timedOut => exact absurd rfl ht
  | failed => exact absurd rfl hp

theorem homing_homingLoop {start : ℕ} :
    homingProtocol.Conforms (fun s q => s.Tells start q ∧ s.ended) (homingLoop start)
      (.searching start {}) := by
  refine Protocol.Conforms.iterate (fun s q => s.Tells start q) ?_ (.searching rfl)
  intro s p hs
  by_cases hend : s.homed ∨ s.timedOut ∨ s.error
  · rw [if_pos hend]
    exact Protocol.conforms_pure.mpr ⟨hs, hend⟩
  rw [if_neg hend]
  induction hs with
  | found => exact absurd (.inl rfl) hend
  | timedOut => exact absurd (.inr (.inl rfl)) hend
  | failed => exact absurd (.inr (.inr rfl)) hend
  | @searching o hok =>
    refine .perform fun _ => ⟨.searching start o, rfl, ?_⟩
    refine (homing_check (.searching hok) nofun nofun).bind ?_
    intro r q hr
    obtain ⟨done, s⟩ := r
    obtain ⟨htells, hdone⟩ := hr
    cases done with
    | true => exact Protocol.conforms_pure.mpr ⟨htells, hdone⟩
    | false =>
      have hsame : s = ⟨false, false, false⟩ := hdone
      rw [hsame] at htells ⊢
      cases htells with
      | @searching o hok =>
        refine (homing_moveStepsIntervals hok).bind ?_
        intro moved q hmoved
        rcases moved with ⟨_ | _⟩ | _
        · have hfound : q = .found := hmoved
          rw [hfound]
          refine (homing_check .found nofun nofun).bind ?_
          intro r q hr
          exact Protocol.conforms_pure.mpr hr.1
        · have hfailed : q = .failed := hmoved
          rw [hfailed]
          refine .perform fun _ => ⟨.failed, rfl, ?_⟩
          exact Protocol.conforms_pure.mpr ⟨.failed, .inr (.inr rfl)⟩
        · obtain ⟨o, hq, hok⟩ := hmoved
          rw [hq]
          refine (homing_check (.searching hok) nofun nofun).bind ?_
          intro r q hr
          exact Protocol.conforms_pure.mpr hr.1

/-- The phases in which a homing is over. -/
def HomingPhase.over (p : HomingPhase) : Prop := p = .outside ∨ p = .failed

theorem homing_postHomingCleanup {start : ℕ} {s : HomingState} {p : HomingPhase}
    (h : s.Tells start p) (hend : s.ended) :
    homingProtocol.Conforms (fun _ => HomingPhase.over) (postHomingCleanup s) p := by
  have hdriver : ∀ o', p.onDriver o' = p := by
    intro o'
    induction h with
    | searching => simp [HomingState.ended] at hend
    | _ => rfl
  refine homing_emergencyStop hdriver (.perform fun _ => ⟨p, rfl, ?_⟩)
  induction h with
  | searching => simp [HomingState.ended] at hend
  | found =>
    refine .perform fun _ => ⟨.found, rfl, .perform fun _ => ⟨.found, rfl, ?_⟩⟩
    exact Protocol.conforms_act.mpr fun _ => ⟨.outside, rfl, Protocol.conforms_ret.mpr (.inl rfl)⟩
  | timedOut =>
    exact Protocol.conforms_act.mpr fun _ => ⟨.outside, rfl, Protocol.conforms_ret.mpr (.inl rfl)⟩
  | failed => exact Protocol.conforms_pure.mpr (.inr rfl)

theorem homing_runHoming {switch : Endstop} :
    homingProtocol.Conforms (fun _ => HomingPhase.over) (runHoming switch) .outside := by
  refine .perform fun _ => ⟨.outside, rfl, .perform fun _ => ⟨.opened, rfl, ?_⟩⟩
  refine .perform fun _ => ⟨.opened, rfl, .perform fun _ => ?_⟩
  have hrest : ∀ p : HomingPhase, p = .opened ∨ p = .cleared →
      homingProtocol.Conforms (fun _ => HomingPhase.over)
        (do storeStop .stopFull false
            let startTime ← Program.perform .xTaskGetTickCount
            let s ← homingLoop startTime
            postHomingCleanup s) p := by
    intro p hp
    refine .perform fun _ => ⟨.cleared, by rcases hp with rfl | rfl <;> rfl, ?_⟩
    refine .perform fun start => ⟨.searching start {}, rfl, homing_homingLoop.bind ?_⟩
    intro s q hs
    exact homing_postHomingCleanup hs.1 hs.2
  cases switch with
  | full => exact ⟨.cleared, rfl, hrest .cleared (.inr rfl)⟩
  | empty => exact ⟨.opened, rfl, hrest .opened (.inl rfl)⟩

/-- What happens outside a homing. -/
def Act.sparesHoming : {β : Type} → Act β → Bool
  | _, .positionStore _ | _, .store .buretteState .homing => false
  | _, _ => true

theorem homing_keeps {β : Type} (a : Act β) (b : β) (h : a.sparesHoming) :
    homingProtocol.next .outside a b = some .outside := by
  induction a with
  | positionStore n => cases h
  | store v x =>
    induction v with
    | buretteState => cases x <;> first | rfl | cases h
    | _ => rfl
  | xQueueReceive => cases b <;> rfl
  | _ => rfl

theorem Act.sparesHoming_of_ofMotion {β : Type} (a : Act β) (h : a.ofMotion) : a.sparesHoming := by
  induction a with
  | positionStore n => cases h
  | store v x =>
    induction v with
    | buretteState => cases x <;> first | rfl | cases h
    | _ => rfl
  | _ => rfl

theorem homing_directRule (cmd : MotorCommand) : DirectRule Act.sparesHoming cmd where
  drive := Act.sparesHoming_of_ofMotion
  publish _ _ := rfl
  timer := ⟨rfl, rfl, rfl, rfl⟩
  abort := .inr rfl

theorem homing_runnerRule :
    RunnerRule homingProtocol .outside (fun _ => True) (· = .outside) := by
  refine .of_only homing_keeps (fun _ _ => trivial) (fun _ => trivial) ?_ ?_ fun _ _ => rfl
  · intro f _
    exact ⟨Act.sparesHoming_of_ofMotion, fun _ => rfl, fun _ => rfl, fun _ => rfl, .inr rfl⟩
  · intro β a ha
    induction a <;> first | rfl | cases ha

theorem homing_taskRule : TaskRule homingProtocol HomingPhase.over (· = .outside) where
  between := .inl
  setup := by
    intro p hp β a b ha
    rw [hp]
    refine ⟨.outside, homing_keeps a b ?_, rfl⟩
    induction a <;> first | rfl | cases ha
  drive := by
    intro p hp β a b ha
    rw [hp]
    exact ⟨.outside, homing_keeps a b (Act.sparesHoming_of_ofMotion a ha), rfl⟩
  homing hp _ := hp ▸ homing_runHoming
  announce hp := ⟨_, rfl, hp⟩
  feed hp := ⟨_, rfl, hp⟩
  idle hp := ⟨_, rfl, hp⟩
  receive := by
    intro p _ cmd
    refine ⟨.outside, rfl, ?_⟩
    split
    case isTrue => rfl
    case isFalse hplain =>
      by_cases hs : cmd.type.selects
      · have hstate : ∀ x, x = .rinsing ∨ x = .dosing →
            homingProtocol.next .outside (.store .buretteState x) () = some .outside := by
          intro x hx
          rcases hx with rfl | rfl <;> rfl
        exact (homing_runnerRule.handle hs hstate fun _ _ _ => trivial).mono fun _ _ => .inl
      · have honly := (homing_directRule cmd).only_handle (Bool.eq_false_iff.mpr hs)
          (Bool.eq_false_iff.mpr hplain)
        exact (honly.keeps homing_keeps).mono fun _ _ => .inl

theorem homes_motorTaskEntry :
    homingProtocol.Conforms (fun _ _ => True) MotorTask.motorTaskEntry .outside :=
  homing_taskRule.motorTaskEntry rfl

end Task
end Ecotiter
