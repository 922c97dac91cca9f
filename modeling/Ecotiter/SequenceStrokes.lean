import Mathlib.Tactic.NormNum
import Ecotiter.MotorActions
import Ecotiter.SpeedSequence

/-!
# The strokes of a speed sequence

Every point of a speed sequence is measured by emptying the burette. The sequence fills it before
the second and the third point, but not before the first, whatever the volume is at its start.
-/

namespace Ecotiter
open Interleaving Firmware

/-- An emptying may begin only if the burette was full at the start or has been filled since, and
not been emptied again. A stroke begins where its direction is set. -/
def strokeProtocol : Protocol Act Bool where
  next filled _ a _ :=
    match a with
    | .gpioSetLevel .dir level =>
      if level = Direction.liqIn.level then some true
      else if filled then some false
      else none
    | _ => some filled

/-- The actions that begin no stroke. -/
def Act.withinStroke : {β : Type} → Act β → Bool
  | _, .gpioSetLevel .dir _ => false
  | _, _ => true

section
variable {α β : Type} {filled : Bool} {speedHz fillHz : ℕ} {sm : CalSpeedSeqSm}

theorem strokeProtocol_keeps {a : Act β} (h : a.withinStroke) (b : β) :
    strokeProtocol.next filled a b = some filled := by
  induction a with
  | gpioSetLevel pin level => cases pin <;> first | rfl | cases h
  | _ => rfl

theorem conforms_withinStroke {prog : Firmware α} (h : prog.Only Act.withinStroke) :
    strokeProtocol.Conforms (fun _ q => q = filled) prog filled :=
  h.keeps fun _ b ha => strokeProtocol_keeps ha b

theorem Act.withinStroke_of_ofChunk (a : Act β) (h : a.ofChunk) : a.withinStroke := by
  induction a with
  | gpioSetLevel pin level => cases pin <;> first | rfl | cases h
  | _ => rfl

theorem conforms_setValve {pos : ValvePosition} :
    strokeProtocol.Conforms (fun _ q => q = filled) (setValve pos) filled :=
  conforms_withinStroke (.andThen rfl fun _ => ⟨rfl, fun _ => trivial⟩)

theorem conforms_settleValve {flag : StopFlag} :
    strokeProtocol.Conforms (fun _ q => q = filled) (settleValve flag) filled :=
  conforms_withinStroke (only_settle rfl rfl)

theorem conforms_moveToEndstop {dir : Direction} {flag : StopFlag} {after : Bool}
    (h : strokeProtocol.next filled (.gpioSetLevel .dir dir.level) () = some after) :
    strokeProtocol.Conforms (fun _ q => q = after) (moveToEndstop dir speedHz flag) filled := by
  have hdrive : (do driveToEndstop speedHz flag; StepperMotor.enable : Firmware Unit).Only
      Act.withinStroke :=
    (only_driveToEndstop Act.withinStroke_of_ofChunk rfl (.inr rfl)).bind
      fun _ => ⟨rfl, fun _ => trivial⟩
  rw [moveToEndstop_eq]
  exact .perform fun _ => ⟨after, h, conforms_withinStroke hdrive⟩

theorem conforms_moveFill :
    strokeProtocol.Conforms (fun _ q => q = true) (moveFill speedHz) filled := by
  refine conforms_setValve.bind ?_
  rintro _ q rfl
  refine conforms_settleValve.bind ?_
  rintro _ q rfl
  exact .perform fun _ => ⟨q, rfl, conforms_moveToEndstop rfl⟩

theorem conforms_moveEmpty :
    strokeProtocol.Conforms (fun _ q => q = false) (moveEmpty speedHz) true := by
  refine conforms_setValve.bind ?_
  rintro _ q hq
  refine conforms_settleValve.bind ?_
  rintro _ q rfl
  rw [hq]
  exact .perform fun _ => ⟨true, rfl, conforms_moveToEndstop rfl⟩

/-- In the phases that lead to an emptying the burette is full. -/
def FilledIn (sm : CalSpeedSeqSm) (filled : Bool) : Prop :=
  sm.phase = .fillFirst ∨ sm.phase = .valveSettleAfterFill → filled = true

theorem conforms_storeResult {type : SmResultType} {steps : ℤ} {speed : ℚ} {results : List ℚ}
    {count : ℕ} :
    strokeProtocol.Conforms (fun _ q => q = filled)
      (storeResult type steps speed results count) filled :=
  conforms_withinStroke (.andThen rfl fun _ => .andThen rfl fun _ => ⟨rfl, fun _ => trivial⟩)

/-- The machine asks for an emptying only when the burette is full, and where it then waits for one
the burette is full. -/
theorem filledIn_onTick (now : ℕ) (h : FilledIn sm filled) :
    ((sm.onTick now).1 = .emptyToLimit → filled = true ∧ FilledIn (sm.onTick now).2 false) ∧
      ((sm.onTick now).1 = .settleValve → FilledIn (sm.onTick now).2 filled) := by
  cases hstarted : sm.started with
  | false => simp [CalSpeedSeqSm.onTick, hstarted]
  | true =>
    cases hphase : sm.phase with
    | fillFirst =>
      simp [CalSpeedSeqSm.onTick, hstarted, hphase, FilledIn, h (.inl hphase)]
    | valveSettleAfterFill =>
      have hfull := h (.inr hphase)
      by_cases hover : CalSpeedSeqSm.valveSwitchMs ≤ subU32 now sm.valveSettleStartMs <;>
        simp [CalSpeedSeqSm.onTick, hstarted, hphase, hover, FilledIn, hfull]
    | empty =>
      by_cases hlast : CalSpeedSeqSm.calSeqPoints ≤ sm.seqIdx + 1 <;>
        simp [CalSpeedSeqSm.onTick, hstarted, hphase, hlast, FilledIn]
    | valveSettleAfterEmpty =>
      by_cases hover : CalSpeedSeqSm.valveSwitchMs ≤ subU32 now sm.valveSettleStartMs <;>
        simp [CalSpeedSeqSm.onTick, hstarted, hphase, hover, FilledIn]
    | idle | nextPoint | done => simp [CalSpeedSeqSm.onTick, hstarted, hphase]

theorem conforms_dispatch {now : ℕ} (h : FilledIn sm filled) :
    strokeProtocol.Conforms (fun goOn q => goOn = true → FilledIn (sm.onTick now).2 q)
      (dispatchCalSpeedAction (sm.onTick now).2 (sm.onTick now).1 fillHz) filled := by
  obtain ⟨hempty, hsettle⟩ := filledIn_onTick now h
  generalize (sm.onTick now).1 = action at hempty hsettle ⊢
  generalize (sm.onTick now).2 = sm' at hempty hsettle ⊢
  cases action with
  | fillToLimit =>
    refine conforms_moveFill.bind ?_
    rintro _ q rfl
    exact Protocol.conforms_pure.mpr fun _ _ => rfl
  | emptyToLimit =>
    obtain ⟨rfl, hafter⟩ := hempty rfl
    refine conforms_moveEmpty.bind ?_
    rintro _ q rfl
    exact Protocol.conforms_pure.mpr fun _ => hafter
  | settleValve =>
    refine conforms_settleValve.bind ?_
    rintro _ q rfl
    exact Protocol.conforms_pure.mpr fun _ => hsettle rfl
  | complete | error =>
    refine conforms_storeResult.bind ?_
    rintro _ q rfl
    exact Protocol.conforms_pure.mpr fun h => absurd h Bool.false_ne_true

theorem conforms_calSpeedSeqLoop (h : FilledIn sm filled) :
    strokeProtocol.Conforms (fun _ _ => True) (calSpeedSeqLoop fillHz sm) filled := by
  refine .iterate FilledIn ?_ h
  intro sm filled hfilled
  split
  · exact Protocol.conforms_pure.mpr trivial
  refine .perform fun _ => ⟨filled, rfl, .perform fun now => ⟨filled, rfl, ?_⟩⟩
  refine (conforms_dispatch hfilled).bind ?_
  intro goOn q hq
  cases goOn with
  | true => exact Protocol.conforms_pure.mpr (hq rfl)
  | false => exact Protocol.conforms_pure.mpr trivial

/-- What a program that conforms does after an answer. -/
theorem conforms_answer {a : Act β} {next : β → Firmware α} {Q : α → Bool → Prop} {after : Bool}
    (h : strokeProtocol.Conforms Q (.act a next) filled) (b : β)
    (hnext : strokeProtocol.next filled a b = some after) :
    strokeProtocol.Conforms Q (next b) after := by
  obtain ⟨q, hq, h⟩ := Protocol.conforms_act.mp h b
  obtain rfl : after = q := Option.some.inj (hnext.symm.trans hq)
  exact h

/-- One turn of the loop of a sequence. -/
theorem conforms_turn
    (h : strokeProtocol.Conforms (fun _ _ => True) (calSpeedSeqLoop fillHz sm) filled)
    (hgoing : sm.isComplete = false) (now : ℕ) {action : CalSpeedAction} {sm' : CalSpeedSeqSm}
    (htick : sm.onTick now = (action, sm')) :
    strokeProtocol.Conforms (fun _ _ => True)
      (dispatchCalSpeedAction sm' action fillHz >>= fun goOn =>
        if goOn then calSpeedSeqLoop fillHz sm' else pure ()) filled := by
  have hgoing : ¬ sm.isComplete = true := by
    rw [hgoing]
    exact Bool.false_ne_true
  have hunrolled := Protocol.conforms_loop.mp h
  dsimp only [Program.unroll] at hunrolled
  rw [if_neg hgoing] at hunrolled
  have hfed := conforms_answer hunrolled () rfl
  have hread := conforms_answer hfed now rfl
  dsimp only [Program.bind] at hread
  rw [htick] at hread
  dsimp only at hread
  rw [Program.bind_eq, Program.bind_assoc] at hread
  rw [Program.bind_eq]
  convert hread using 3 with goOn
  cases goOn <;> rfl

/-- The settling delay may be cut short by a raised stop flag. -/
theorem conforms_cutSettle {flag : StopFlag} {f : Unit → Firmware α} {Q : α → Bool → Prop}
    (h : strokeProtocol.Conforms Q (settleValve flag >>= f) filled) :
    strokeProtocol.Conforms Q (f ()) filled :=
  conforms_answer (Protocol.conforms_loop.mp h) true rfl

/-- A burette that is not full may not be emptied. -/
theorem not_conforms_moveEmpty {f : Unit → Firmware α} {Q : α → Bool → Prop} :
    ¬ strokeProtocol.Conforms Q (moveEmpty speedHz >>= f) false := by
  intro h
  have hswitched := conforms_answer (conforms_answer h () rfl) () rfl
  have hsettled := conforms_answer (Protocol.conforms_loop.mp hswitched) true rfl
  have hannounced := conforms_answer hsettled () rfl
  obtain ⟨q, hq, -⟩ := Protocol.conforms_act.mp hannounced ()
  cases hq

/-- The first tick of a sequence finds the burette as it is, and a second later it is emptied. -/
theorem not_conforms_start (hphase : sm.phase = .fillFirst) (hstarted : sm.started = true) :
    ¬ strokeProtocol.Conforms (fun _ _ => True) (calSpeedSeqLoop fillHz sm) false := by
  intro h
  let settling : CalSpeedSeqSm :=
    { sm with phase := .valveSettleAfterFill, valveSettleStartMs := 0 }
  have hfirst : sm.onTick 0 = (.settleValve, settling) := by
    simp [CalSpeedSeqSm.onTick, hstarted, hphase, settling]
  have hsecond : settling.onTick 1000 =
      (.emptyToLimit, { settling with phase := .empty, elapsedMs := 1000 }) := by
    have hover : CalSpeedSeqSm.valveSwitchMs ≤ subU32 1000 0 := by decide
    simp [CalSpeedSeqSm.onTick, hstarted, settling, hover]
  have hsettle := conforms_turn h (by simp [CalSpeedSeqSm.isComplete, hphase]) 0 hfirst
  rw [dispatchCalSpeedAction, Program.bind_eq, Program.bind_eq, Program.bind_assoc] at hsettle
  have hrest := conforms_cutSettle hsettle
  have hempty := conforms_turn hrest rfl 1000 hsecond
  rw [dispatchCalSpeedAction, Program.bind_eq, Program.bind_eq, Program.bind_assoc] at hempty
  exact not_conforms_moveEmpty hempty

/-- A speed sequence empties only a burette that is full or has been filled since it was last
emptied, in all its runs, exactly if the burette is full at its start. -/
theorem sequence_emptiesFilled_iff (freqs : List ℕ)
    (fillSpeedMlMin currentVolumeMl nominalVolumeMl : ℚ) :
    strokeProtocol.Conforms (fun _ _ => True)
        (runCalSpeedSeqSm freqs fillSpeedMlMin currentVolumeMl nominalVolumeMl)
        (decide (nominalVolumeMl - 1 / 10 ≤ currentVolumeMl)) ↔
      nominalVolumeMl - 1 / 10 ≤ currentVolumeMl := by
  unfold runCalSpeedSeqSm
  by_cases hfull : nominalVolumeMl - 1 / 10 ≤ currentVolumeMl
  · rw [decide_eq_true hfull]
    refine iff_of_true ?_ hfull
    exact conforms_calSpeedSeqLoop fun _ => rfl
  · rw [decide_eq_false hfull]
    refine iff_of_false ?_ hfull
    dsimp only
    rw [if_neg hfull]
    exact not_conforms_start rfl rfl

/-- A sequence on an empty burette of 8.14 ml. -/
theorem sequence_emptiesUnfilled :
    ¬ ∀ (freqs : List ℕ) (fillSpeedMlMin currentVolumeMl nominalVolumeMl : ℚ),
      strokeProtocol.Conforms (fun _ _ => True)
        (runCalSpeedSeqSm freqs fillSpeedMlMin currentVolumeMl nominalVolumeMl)
        (decide (nominalVolumeMl - 1 / 10 ≤ currentVolumeMl)) := by
  intro h
  have hconforms := h [100, 500, 1000] 10 0 (814 / 100)
  have hempty : ¬ ((814 / 100 : ℚ) - 1 / 10 ≤ 0) := by norm_num
  unfold runCalSpeedSeqSm at hconforms
  dsimp only at hconforms
  rw [decide_eq_false hempty, if_neg hempty] at hconforms
  exact not_conforms_start rfl rfl hconforms

end
end Ecotiter
