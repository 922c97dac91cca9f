import Ecotiter.MotorTaskRule
import Ecotiter.LayeredRuns

/-!
# How a runner selects the valve

The runners of rinse and of the calibrations select the valve before each of their motions. The
protocol follows one selection: the slices of the settling time, the direction and the motion, until
the driver is enabled again. The other commands of the motor task leave the valve alone.
-/

namespace Ecotiter
open Interleaving Firmware

/-- The direction of the motion for which a valve position is selected. -/
def ValvePosition.direction : ValvePosition → Direction
  | .input => .liqIn
  | .output => .liqOut

/-- The level of the valve pin for a position. -/
def ValvePosition.level : ValvePosition → Bool
  | .input => false
  | .output => true

/-- The flag that cuts the settling time short. -/
def ValvePosition.flag (pos : ValvePosition) : StopFlag := pos.direction.endstop.flag

inductive ValveChoice
  | free                                    -- the command does not select the valve
  | undecided                               -- between two motions of a runner
  | waiting (pos : ValvePosition) (n : ℕ)   -- selected, `n` slices have passed
  | slice (pos : ValvePosition) (n : ℕ)     -- in a slice of the settling time
  | settled (pos : ValvePosition)           -- the settling time is over or was cut short
  | aimed (pos : ValvePosition)             -- DIR is set for the motion
  deriving DecidableEq

namespace ValveChoice

def slices : ℕ := Config.valveSettleMs / 10

def onValvePin (level : Bool) : ValveChoice → Option ValveChoice
  | .undecided => some (.waiting (if level then .output else .input) 0)
  | _ => none

def onStoreState : ValveChoice → Option ValveChoice
  | .waiting pos n => if n = slices then some (.settled pos) else none
  | .slice _ _ | .aimed _ => none
  | c => some c

def onStorePosition : ValveChoice → Option ValveChoice
  | .waiting pos n => some (.waiting pos n)
  | .free => some .free
  | _ => none

def onSettle (flag : StopFlag) (seen : Bool) : ValveChoice → Option ValveChoice
  | .waiting pos n =>
    if flag = pos.flag ∧ n < slices then some (if seen then .settled pos else .slice pos n)
    else none
  | .free => some .free
  | .undecided => some .undecided
  | _ => none

def onDelay (ms : ℕ) : ValveChoice → Option ValveChoice
  | .slice pos n => if ms = 10 then some (.waiting pos (n + 1)) else none
  | .waiting _ _ | .settled _ => none
  | c => some c

def onDirPin (level : Bool) : ValveChoice → Option ValveChoice
  | .settled pos => if level = pos.direction.level then some (.aimed pos) else none
  | .free => some .free
  | _ => none

def onEnPin (level : Bool) : ValveChoice → Option ValveChoice
  | .aimed pos => some (if level then .aimed pos else .undecided)
  | .free => some .free
  | _ => none

def onReceive (cmd : Option MotorCommand) : ValveChoice → Option ValveChoice
  | .free => some (if cmd.any (·.type.selects) then .undecided else .free)
  | .undecided => some (cmd.elim .undecided fun cmd => if cmd.type.selects then .undecided else .free)
  | _ => none

/-- Within a motion, or where no valve is selected. -/
def onMotion : ValveChoice → Option ValveChoice
  | .aimed pos => some (.aimed pos)
  | .free => some .free
  | _ => none

/-- Between two motions, or where no valve is selected. -/
def onRead : ValveChoice → Option ValveChoice
  | .undecided => some .undecided
  | .free => some .free
  | _ => none

def next (c : ValveChoice) : {β : Type} → Act β → β → Option ValveChoice
  | _, .gpioSetLevel .valve level, _ => onValvePin level c
  | _, .gpioSetLevel .dir level, _ => onDirPin level c
  | _, .gpioSetLevel .en level, _ => onEnPin level c
  | _, .store .buretteState _, _ => onStoreState c
  | _, .store .valvePosition _, _ => onStorePosition c
  | _, .poll .settle flag, seen => onSettle flag seen c
  | _, .vTaskDelay ms, _ => onDelay ms c
  | _, .xQueueReceive, cmd => onReceive cmd c
  | _, .poll _ _, _ | _, .storeStop _ _, _ | _, .rmtTransmit _, _ | _, .rmtTxWaitAllDone _, _
  | _, .positionFetchAdd _, _ | _, .abort, _ => onMotion c
  | _, _, _ => onRead c

end ValveChoice

def choiceProtocol : Protocol Act ValveChoice := ⟨fun c _ a b => c.next a b⟩

@[simp] theorem choiceProtocol_next {c : ValveChoice} {β : Type} {a : Act β} {b : β} :
    choiceProtocol.next c a b = c.next a b := rfl

section Strokes
variable {pos : ValvePosition} {f : ℕ}

/-- The settling time is waited out or cut short. -/
def ValveChoice.SettledFor (pos : ValvePosition) (c : ValveChoice) : Prop :=
  c = .settled pos ∨ c = .waiting pos slices

theorem selects_settleValve :
    choiceProtocol.Conforms (fun _ => ValveChoice.SettledFor pos) (settleValve pos.flag)
      (.waiting pos 0) := by
  refine Protocol.Conforms.iterate
    (fun i c => i ≤ ValveChoice.slices ∧ c = .waiting pos i) ?_ ⟨Nat.zero_le _, rfl⟩
  intro i c hc
  obtain ⟨hi, rfl⟩ := hc
  have hslices : Config.valveSettleMs / 10 = ValveChoice.slices := rfl
  rw [hslices]
  by_cases hlast : ValveChoice.slices ≤ i
  · have hi : i = ValveChoice.slices := by omega
    rw [if_pos hlast, hi]
    exact Protocol.conforms_pure.mpr (.inr rfl)
  · have hlt : i < ValveChoice.slices := by omega
    rw [if_neg hlast]
    simp only [poll, vTaskDelay, Program.act_bind, Program.ret_bind, Protocol.conforms_act,
      choiceProtocol_next, ValveChoice.next, ValveChoice.onSettle, hlt, true_and, if_true]
    intro seen
    cases seen with
    | true => exact ⟨_, rfl, Protocol.conforms_pure.mpr (.inl rfl)⟩
    | false =>
      refine ⟨.slice pos i, rfl, ?_⟩
      simp only [Bool.false_eq_true, if_false, Protocol.conforms_act, choiceProtocol_next,
        ValveChoice.next, ValveChoice.onDelay, if_true]
      intro _
      exact ⟨_, rfl, Protocol.conforms_pure.mpr ⟨hlt, rfl⟩⟩

theorem ValveChoice.onMotion_aimed : onMotion (.aimed pos) = some (.aimed pos) := rfl

/-- Sending chunks keeps the selection. -/
theorem ValveChoice.next_ofChunk {β : Type} (a : Act β) (b : β) (h : a.ofChunk) :
    choiceProtocol.next (.aimed pos) a b = some (.aimed pos) := by
  induction a with
  | poll site flag => cases site <;> first | rfl | cases h
  | gpioSetLevel pin level =>
    cases pin with
    | en =>
      cases level with
      | true => rfl
      | false => cases h
    | dir | valve => cases h
  | vTaskDelay ms => rfl
  | _ => first | rfl | cases h

/-- What a motion consists of after DIR is set, up to the driver being enabled again. -/
def Act.ofAimed {β : Type} (a : Act β) : Bool :=
  a.ofChunk || match a with | .abort | .storeStop _ _ => true | _ => false

theorem ValveChoice.next_ofAimed {β : Type} (a : Act β) (b : β) (h : a.ofAimed) :
    choiceProtocol.next (.aimed pos) a b = some (.aimed pos) := by
  induction a with
  | abort | storeStop flag x => rfl
  | _ => exact ValveChoice.next_ofChunk _ b (by simpa [Act.ofAimed] using h)

theorem ValveChoice.within_aimed {α β : Type} {prog : Firmware α} {rest : α → Firmware β}
    {Q : β → ValveChoice → Prop} (h : prog.Only Act.ofAimed)
    (hrest : ∀ x, choiceProtocol.Conforms Q (rest x) (.aimed pos)) :
    choiceProtocol.Conforms Q (prog >>= rest) (.aimed pos) := by
  have hkeeps : choiceProtocol.Conforms (fun _ q => q = .aimed pos) prog (.aimed pos) :=
    h.keeps fun a b => ValveChoice.next_ofAimed a b
  refine hkeeps.bind ?_
  intro x q hq
  rw [hq]
  exact hrest x

/-- The motion that follows a selection goes in its direction. -/
theorem selects_moveToEndstop :
    choiceProtocol.Conforms (fun _ q => q = .undecided) (moveToEndstop pos.direction f pos.flag)
      (.settled pos) := by
  have hchunk : ∀ {β : Type} (a : Act β), a.ofChunk → a.ofAimed := by
    intro β a ha
    simp [Act.ofAimed, ha]
  have hdir : ValveChoice.onDirPin pos.direction.level (.settled pos) = some (.aimed pos) := by
    simp [ValveChoice.onDirPin]
  have hmotion : ∀ intervalUs, choiceProtocol.Conforms (fun _ q => q = .undecided) (do
      storeStop pos.flag false
      endstopLoop intervalUs pos.flag
      StepperMotor.emergencyStop
      StepperMotor.enable) (.aimed pos) := by
    intro intervalUs
    refine ValveChoice.within_aimed ⟨rfl, fun _ => trivial⟩ fun _ => ?_
    refine ValveChoice.within_aimed (only_endstopLoop.mono hchunk) fun _ => ?_
    refine ValveChoice.within_aimed (only_emergencyStop.mono hchunk) fun _ => ?_
    refine Protocol.conforms_act.mpr fun _ => ⟨.undecided, rfl, ?_⟩
    exact Protocol.conforms_ret.mpr rfl
  have hquotient : (quotient 1000000 f).Only Act.ofAimed := only_quotient (.inr rfl)
  have haimed := ValveChoice.within_aimed hquotient hmotion
  refine Protocol.conforms_act.mpr fun _ => ⟨.aimed pos, hdir, ?_⟩
  exact Protocol.conforms_act.mpr fun _ => ⟨.aimed pos, rfl, haimed⟩

/-- A stroke of the burette: the valve is selected and settles, then the motion runs. -/
theorem selects_stroke {x : BuretteState} :
    choiceProtocol.Conforms (fun _ q => q = .undecided)
      (do setValve pos; settleValve pos.flag; store .buretteState x
          moveToEndstop pos.direction f pos.flag) .undecided := by
  have hpin : ValveChoice.onValvePin (pos = .output) .undecided = some (.waiting pos 0) := by
    cases pos <;> rfl
  refine Protocol.conforms_act.mpr fun _ => ⟨.waiting pos 0, hpin, ?_⟩
  refine Protocol.conforms_act.mpr fun _ => ⟨.waiting pos 0, rfl, ?_⟩
  refine selects_settleValve.bind ?_
  intro _ c hc
  have hstore : ValveChoice.onStoreState c = some (.settled pos) := by
    rcases hc with rfl | rfl
    · rfl
    · simp [ValveChoice.onStoreState]
  exact Protocol.conforms_act.mpr fun _ => ⟨.settled pos, hstore, selects_moveToEndstop⟩

theorem selects_moveFill :
    choiceProtocol.Conforms (fun _ q => q = .undecided) (moveFill f) .undecided :=
  selects_stroke

theorem selects_moveEmpty :
    choiceProtocol.Conforms (fun _ q => q = .undecided) (moveEmpty f) .undecided :=
  selects_stroke

end Strokes

section Commands

theorem valve_runnerRule :
    RunnerRule choiceProtocol .undecided (fun _ => True) (· = .undecided) where
  upward _ _ := trivial
  speed _ := trivial
  fill _ := selects_moveFill
  empty _ := selects_moveEmpty
  settle := by
    refine Protocol.Conforms.iterate (fun _ c => c = .undecided) ?_ rfl
    intro i c hc
    rw [hc]
    split
    · exact Protocol.conforms_pure.mpr rfl
    · refine Protocol.conforms_act.mpr fun seen => ⟨.undecided, rfl, ?_⟩
      cases seen with
      | true => exact Protocol.conforms_pure.mpr rfl
      | false =>
        refine Protocol.conforms_act.mpr fun _ => ⟨.undecided, rfl, ?_⟩
        exact Protocol.conforms_pure.mpr rfl
  reads a b ha := by
    induction a with
    | load v => rfl
    | taskWdtReset | positionLoad | xTaskGetTickCount => rfl
    | _ => cases ha
  publish _ _ _ _ _ := by
    simp [storeResult, wsBroadcast, store, ValveChoice.next, ValveChoice.onRead,
      ValveChoice.onStoreState]

/-- Everything but the valve pin and the queue. -/
def Act.sparesValve : {β : Type} → Act β → Bool
  | _, .gpioSetLevel pin _ => pin ≠ .valve
  | _, .xQueueReceive => false
  | _, _ => true

theorem ValveChoice.next_sparesValve {β : Type} (a : Act β) (b : β) (h : a.sparesValve) :
    choiceProtocol.next .free a b = some .free := by
  induction a with
  | gpioSetLevel pin level => cases pin <;> first | rfl | cases h
  | poll site flag => cases site <;> rfl
  | store v x => induction v <;> rfl
  | xQueueReceive => cases h
  | _ => rfl

theorem Act.sparesValve_of_ofAimed {β : Type} {a : Act β} (h : a.ofAimed) : a.sparesValve := by
  induction a with
  | gpioSetLevel pin level => cases pin <;> first | rfl | cases h
  | xQueueReceive => cases h
  | _ => rfl

theorem Act.sparesValve_of_ofDrive {β : Type} (a : Act β) (h : a.ofDrive) : a.sparesValve := by
  induction a with
  | gpioSetLevel pin level => exact h
  | xQueueReceive => cases h
  | _ => rfl

theorem valve_directRule (cmd : MotorCommand) : DirectRule Act.sparesValve cmd where
  drive a h := Act.sparesValve_of_ofDrive a (Act.ofDrive_of_ofMotion a h)
  publish _ _ := rfl
  timer := ⟨rfl, rfl, rfl, rfl⟩
  abort := .inr rfl

theorem valve_taskRule :
    TaskRule choiceProtocol (fun c => c = .free ∨ c = .undecided) (· = .free) := by
  refine .of_drive .inl ?_ ?_ ?_
  · intro p hp β a b ha
    rw [hp]
    refine ⟨.free, ValveChoice.next_sparesValve a b ?_, rfl⟩
    cases hs : a.ofSetup with
    | false =>
      rw [hs, Bool.false_or] at ha
      exact Act.sparesValve_of_ofDrive a ha
    | true => induction a <;> first | rfl | cases hs
  · intro p hp β a b ha
    have hsame : choiceProtocol.next p a b = some p := by
      induction a with
      | store v x => rcases hp with rfl | rfl <;> induction v <;> first | rfl | cases ha
      | xQueueReceive => rcases hp with rfl | rfl <;> cases b <;> first | rfl | cases ha
      | taskWdtReset => rcases hp with rfl | rfl <;> rfl
      | _ => cases ha
    exact ⟨p, hsame, hp⟩
  · intro p hp cmd
    by_cases hs : cmd.type.selects
    · have hreceive : ValveChoice.onReceive (some cmd) p = some .undecided := by
        rcases hp with rfl | rfl <;> simp [ValveChoice.onReceive, hs]
      refine ⟨.undecided, hreceive, ?_⟩
      have hplain : cmd.type.plain = false := by
        revert hs
        cases cmd.type <;> decide
      simp only [hplain, Bool.false_eq_true, if_false]
      refine (valve_runnerRule.handle hs (fun _ _ => rfl) fun _ _ _ => trivial).mono ?_
      exact fun _ q hq => .inr hq
    · have hreceive : ValveChoice.onReceive (some cmd) p = some .free := by
        rcases hp with rfl | rfl <;> simp [ValveChoice.onReceive, hs]
      refine ⟨.free, hreceive, ?_⟩
      split
      case isTrue => rfl
      case isFalse hplain =>
        have honly := (valve_directRule cmd).only_handle (Bool.eq_false_iff.mpr hs)
          (Bool.eq_false_iff.mpr hplain)
        exact (honly.keeps ValveChoice.next_sparesValve).mono fun _ q hq => .inl hq

/-- The motor task follows its selections from power-up on. -/
theorem selects_motorTaskEntry :
    choiceProtocol.Conforms (fun _ _ => True) MotorTask.motorTaskEntry .free :=
  valve_taskRule.motorTaskEntry rfl

end Commands

/-- No settling time is running. -/
def ValveChoice.resting : ValveChoice → Bool
  | .waiting _ _ | .slice _ _ => false
  | _ => true

/-- What a runner does between two motions. -/
def Act.ofPause : {β : Type} → Act β → Bool
  | _, .poll site _ => site = .settle
  | _, .store .valvePosition _ | _, .gpioSetLevel _ _ | _, .storeStop _ _ | _, .rmtTransmit _
  | _, .rmtTxWaitAllDone _ | _, .positionFetchAdd _ | _, .abort | _, .xQueueReceive => false
  | _, _ => true

theorem Act.sparesValve_of_ofPause {β : Type} {a : Act β} (h : a.ofPause) : a.sparesValve := by
  induction a with
  | gpioSetLevel pin level | xQueueReceive => cases h
  | _ => rfl

/-- What the motor task does with a selection. -/
inductive ChoiceMove : {β : Type} → Act β → β → ValveChoice → ValveChoice → Prop
  | select {level : Bool} :
      ChoiceMove (.gpioSetLevel .valve level) () .undecided
        (.waiting (if level then .output else .input) 0)
  | note {pos x : ValvePosition} {n : ℕ} :
      ChoiceMove (.store .valvePosition x) () (.waiting pos n) (.waiting pos n)
  | cut {pos : ValvePosition} {n : ℕ} (hn : n < ValveChoice.slices) :
      ChoiceMove (.poll .settle pos.flag) true (.waiting pos n) (.settled pos)
  | slice {pos : ValvePosition} {n : ℕ} (hn : n < ValveChoice.slices) :
      ChoiceMove (.poll .settle pos.flag) false (.waiting pos n) (.slice pos n)
  | tick {pos : ValvePosition} {n : ℕ} :
      ChoiceMove (.vTaskDelay 10) () (.slice pos n) (.waiting pos (n + 1))
  | elapsed {pos : ValvePosition} {x : BuretteState} :
      ChoiceMove (.store .buretteState x) () (.waiting pos ValveChoice.slices) (.settled pos)
  | announce {pos : ValvePosition} {x : BuretteState} :
      ChoiceMove (.store .buretteState x) () (.settled pos) (.settled pos)
  | aim {pos : ValvePosition} :
      ChoiceMove (.gpioSetLevel .dir pos.direction.level) () (.settled pos) (.aimed pos)
  | within {pos : ValvePosition} {β : Type} {a : Act β} {b : β} (ha : a.ofAimed) :
      ChoiceMove a b (.aimed pos) (.aimed pos)
  | enable {pos : ValvePosition} :
      ChoiceMove (.gpioSetLevel .en false) () (.aimed pos) .undecided
  | receive {c : ValveChoice} {cmd : MotorCommand} (hc : c = .free ∨ c = .undecided) :
      ChoiceMove .xQueueReceive (some cmd) c (if cmd.type.selects then .undecided else .free)
  | receiveNone {c : ValveChoice} (hc : c = .free ∨ c = .undecided) :
      ChoiceMove .xQueueReceive none c c
  | free {β : Type} {a : Act β} {b : β} (ha : a.sparesValve) : ChoiceMove a b .free .free
  | between {β : Type} {a : Act β} {b : β} (ha : a.ofPause) : ChoiceMove a b .undecided .undecided

namespace ValveChoice

theorem moves_onMotion {β : Type} {a : Act β} {b : β} {c c' : ValveChoice}
    (hs : a.sparesValve) (ha : a.ofAimed) (h : onMotion c = some c') : ChoiceMove a b c c' := by
  cases c with
  | aimed pos =>
    cases h
    exact .within ha
  | free =>
    cases h
    exact .free hs
  | _ => cases h

theorem moves_onRead {β : Type} {a : Act β} {b : β} {c c' : ValveChoice}
    (hs : a.sparesValve) (ha : a.ofPause) (h : onRead c = some c') : ChoiceMove a b c c' := by
  cases c with
  | undecided =>
    cases h
    exact .between ha
  | free =>
    cases h
    exact .free hs
  | _ => cases h

theorem moves {β : Type} {a : Act β} {b : β} {c c' : ValveChoice}
    (h : c.next a b = some c') : ChoiceMove a b c c' := by
  induction a with
  | gpioSetLevel pin level =>
    cases pin with
    | valve =>
      have h : onValvePin level c = some c' := h
      cases c with
      | undecided =>
        cases h
        exact .select
      | _ => cases h
    | dir =>
      have h : onDirPin level c = some c' := h
      cases c with
      | settled pos =>
        simp only [onDirPin] at h
        split at h
        case isTrue hlevel =>
          cases h
          rw [hlevel]
          exact .aim
        case isFalse => cases h
      | free =>
        cases h
        exact .free rfl
      | _ => cases h
    | en =>
      have h : onEnPin level c = some c' := h
      cases c with
      | aimed pos =>
        cases h
        cases level with
        | true => exact .within rfl
        | false => exact .enable
      | free =>
        cases h
        exact .free rfl
      | _ => cases h
  | store v x =>
    induction v with
    | buretteState =>
      have h : onStoreState c = some c' := h
      cases c with
      | waiting pos n =>
        simp only [onStoreState] at h
        split at h
        case isTrue hn =>
          cases h
          rw [hn]
          exact .elapsed
        case isFalse => cases h
      | slice pos n => cases h
      | settled pos =>
        cases h
        exact .announce
      | aimed pos => cases h
      | free =>
        cases h
        exact .free rfl
      | undecided =>
        cases h
        exact .between rfl
    | valvePosition =>
      have h : onStorePosition c = some c' := h
      cases c with
      | waiting pos n =>
        cases h
        exact .note
      | free =>
        cases h
        exact .free rfl
      | _ => cases h
    | _ => exact moves_onRead rfl rfl h
  | poll site flag =>
    cases site with
    | settle =>
      have h : onSettle flag b c = some c' := h
      cases c with
      | waiting pos n =>
        by_cases hx : flag = pos.flag ∧ n < slices
        · rw [onSettle, if_pos hx] at h
          cases h
          rw [hx.1]
          cases b with
          | true => exact .cut hx.2
          | false => exact .slice hx.2
        · rw [onSettle, if_neg hx] at h
          cases h
      | free =>
        cases h
        exact .free rfl
      | undecided =>
        cases h
        exact .between rfl
      | _ => cases h
    | _ => exact moves_onMotion rfl rfl h
  | vTaskDelay ms =>
    have h : onDelay ms c = some c' := h
    cases c with
    | slice pos n =>
      simp only [onDelay] at h
      split at h
      case isTrue hms =>
        cases h
        rw [hms]
        exact .tick
      case isFalse => cases h
    | aimed pos =>
      cases h
      exact .within rfl
    | free =>
      cases h
      exact .free rfl
    | undecided =>
      cases h
      exact .between rfl
    | _ => cases h
  | xQueueReceive =>
    have h : onReceive b c = some c' := h
    cases c with
    | free =>
      cases h
      cases b with
      | none => exact .receiveNone (.inl rfl)
      | some cmd => exact .receive (.inl rfl)
    | undecided =>
      cases h
      cases b with
      | none => exact .receiveNone (.inr rfl)
      | some cmd => exact .receive (.inr rfl)
    | _ => cases h
  | storeStop flag x | rmtTransmit symbols | rmtTxWaitAllDone ms | positionFetchAdd n | abort =>
    exact moves_onMotion rfl rfl h
  | _ => exact moves_onRead rfl rfl h

end ValveChoice
end Ecotiter
