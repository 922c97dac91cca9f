import Ecotiter.Histories
import Ecotiter.MotorActions
import Ecotiter.MotorView

/-!
# The symbol of a step

The driver encodes a step as a pulse and a pause whose lengths are fields of 15 bits. The symbol
stands for the interval of a step frequency only in a range of frequencies that is smaller at both
ends than the one the commands may ask for.
-/

namespace Ecotiter
open Interleaving Firmware

/-- The symbol of a step frequency is a pulse and a pause that together take one step. -/
structure SymbolExact (freq : ℕ) : Prop where
  pulse : (stepSymbol (1000000 / freq)).duration0 ≠ 0
  pause : (stepSymbol (1000000 / freq)).duration1 ≠ 0
  interval : (stepSymbol (1000000 / freq)).duration0 + (stepSymbol (1000000 / freq)).duration1 =
    1000000 / freq
  levels : (stepSymbol (1000000 / freq)).level0 = true ∧
    (stepSymbol (1000000 / freq)).level1 = false

/-- The intervals a symbol can stand for. -/
theorem stepSymbol_exact_iff (interval : ℕ) :
    ((stepSymbol interval).duration0 ≠ 0 ∧ (stepSymbol interval).duration1 ≠ 0 ∧
      (stepSymbol interval).duration0 + (stepSymbol interval).duration1 = interval) ↔
        2 ≤ interval ∧ interval ≤ 32772 := by
  unfold stepSymbol
  by_cases hshort : interval ≤ 5 * 2
  · simp only [if_pos hshort]
    omega
  · simp only [if_neg hshort]
    omega

theorem symbolExact_iff (freq : ℕ) : SymbolExact freq ↔ 31 ≤ freq ∧ freq ≤ 500000 := by
  have hinterval : 2 ≤ 1000000 / freq ∧ 1000000 / freq ≤ 32772 ↔ 31 ≤ freq ∧ freq ≤ 500000 := by
    rcases Nat.eq_zero_or_pos freq with rfl | hpos
    · decide
    · have hshort : 2 ≤ 1000000 / freq ↔ 2 * freq ≤ 1000000 := Nat.le_div_iff_mul_le hpos
      have hlong : 1000000 / freq < 32773 ↔ 1000000 < 32773 * freq :=
        Nat.div_lt_iff_lt_mul hpos
      omega
  rw [← hinterval, ← stepSymbol_exact_iff]
  constructor
  · rintro ⟨hpulse, hpause, hsum, -⟩
    exact ⟨hpulse, hpause, hsum⟩
  · rintro ⟨hpulse, hpause, hsum⟩
    exact ⟨hpulse, hpause, hsum, rfl, rfl⟩

/-- The symbols of these step frequencies. -/
def isSymbolOf (freqs : List ℕ) (s : RmtSymbol) : Bool :=
  freqs.any fun freq => s = stepSymbol (1000000 / freq)

/-- The actions that send only symbols of these step frequencies. -/
def Act.sendsAt (freqs : List ℕ) : {β : Type} → Act β → Bool
  | _, .rmtTransmit symbols => symbols.all (isSymbolOf freqs)
  | _, _ => true

section
variable {freqs : List ℕ} {freq : ℕ} {stopFlag : StopFlag}

theorem isSymbolOf_stepSymbol (h : freq ∈ freqs) : isSymbolOf freqs (stepSymbol (1000000 / freq)) :=
  List.any_eq_true.mpr ⟨freq, h, by simp⟩

theorem sendsAt_emergencyStop : StepperMotor.emergencyStop.Only (Act.sendsAt freqs) :=
  .andThen rfl fun _ => .andThen rfl fun _ => trivial

theorem sendsAt_transmitChunk {symbols : List RmtSymbol} (h : symbols.all (isSymbolOf freqs)) :
    (StepperMotor.transmitChunk symbols stopFlag).Only (Act.sendsAt freqs) := by
  refine .iterate fun retries => .andThen rfl fun seen => ?_
  cases seen with
  | true => exact sendsAt_emergencyStop.bind fun _ => trivial
  | false =>
    refine .andThen h fun err => ?_
    split
    · exact trivial
    · split
      · exact trivial
      · exact .andThen rfl fun _ => trivial

theorem sendsAt_awaitChunk : (StepperMotor.awaitChunk stopFlag).Only (Act.sendsAt freqs) := by
  refine .iterate fun _ => .andThen rfl fun err => ?_
  split
  · exact trivial
  · split
    · exact trivial
    · refine .andThen rfl fun seen => ?_
      cases seen with
      | true => exact sendsAt_emergencyStop.bind fun _ => trivial
      | false => exact trivial

/-- A chunk at one step frequency. -/
theorem sendsAt_moveStepsIntervals {n : ℕ} (h : freq ∈ freqs) :
    (StepperMotor.moveStepsIntervals (List.replicate n (1000000 / freq)) stopFlag).Only
      (Act.sendsAt freqs) := by
  refine .iterate fun offset => ?_
  split
  · exact trivial
  · refine .andThen rfl fun seen => ?_
    cases seen with
    | true => exact sendsAt_emergencyStop.bind fun _ => trivial
    | false =>
      refine .bind (sendsAt_transmitChunk ?_) fun sent => ?_
      · rw [List.all_eq_true]
        intro s hs
        obtain ⟨interval, hinterval, rfl⟩ := List.mem_map.mp hs
        have hmem := List.mem_of_mem_drop (List.mem_of_mem_take hinterval)
        rw [List.eq_of_mem_replicate hmem]
        exact isSymbolOf_stepSymbol h
      · cases sent with
        | error err => exact trivial
        | ok =>
          refine sendsAt_awaitChunk.bind fun done => ?_
          cases done with
          | error err => exact trivial
          | ok => exact .andThen rfl fun _ => trivial

/-- A program that goes on from a quotient; a division by zero stops the device. -/
theorem sendsAt_quotient {α : Type} {rest : ℕ → Firmware α}
    (h : (rest (1000000 / freq)).Only (Act.sendsAt freqs)) :
    (do let intervalUs ← quotient 1000000 freq; rest intervalUs : Firmware α).Only
      (Act.sendsAt freqs) := by
  unfold quotient
  split
  case isTrue hzero =>
    subst hzero
    exact ⟨rfl, fun _ => h⟩
  case isFalse => exact h

theorem sendsAt_moveToEndstop {dir : Direction} (h : freq ∈ freqs) :
    (moveToEndstop dir freq stopFlag).Only (Act.sendsAt freqs) := by
  have hloop : (endstopLoop (1000000 / freq) stopFlag).Only (Act.sendsAt freqs) := by
    refine .iterate fun _ => .andThen rfl fun seen => ?_
    cases seen with
    | true => exact trivial
    | false =>
      refine (sendsAt_moveStepsIntervals h).bind fun moved => ?_
      cases moved <;> exact trivial
  refine .andThen rfl fun _ => .andThen rfl fun _ => sendsAt_quotient ?_
  refine .andThen rfl fun _ => hloop.bind fun _ => sendsAt_emergencyStop.bind fun _ => ?_
  exact ⟨rfl, fun _ => trivial⟩

theorem sendsAt_stroke {pos : ValvePosition} {state : BuretteState} {dir : Direction}
    (h : freq ∈ freqs) :
    (do setValve pos; settleValve stopFlag; store .buretteState state
        moveToEndstop dir freq stopFlag : Firmware Unit).Only (Act.sendsAt freqs) := by
  refine ⟨rfl, fun _ => ⟨rfl, fun _ => ?_⟩⟩
  have hsettle : (settleValve stopFlag).Only (Act.sendsAt freqs) := only_settle rfl rfl
  exact hsettle.bind fun _ => .andThen rfl fun _ => sendsAt_moveToEndstop h

theorem sendsAt_storeResult {type : SmResultType} {steps : ℤ} {speed : ℚ} {results : List ℚ}
    {count : ℕ} : (storeResult type steps speed results count).Only (Act.sendsAt freqs) := by
  refine .andThen rfl fun _ => .andThen rfl fun _ => ?_
  exact ⟨rfl, fun _ => trivial⟩

theorem sendsAt_executeMoveSteps {steps : ℤ} (h : ∀ speed, clampStepFreq speed ∈ freqs) :
    (executeMoveSteps steps).Only (Act.sendsAt freqs) := by
  unfold executeMoveSteps
  split
  · exact trivial
  refine .andThen rfl fun dir => .andThen rfl fun _ => .andThen rfl fun _ => .andThen rfl ?_
  refine fun speed => sendsAt_quotient (.iterate fun remaining => ?_)
  split
  · exact trivial
  refine .andThen rfl fun _ => .andThen rfl fun seen => ?_
  cases seen with
  | true => exact trivial
  | false =>
    refine (sendsAt_moveStepsIntervals (h speed)).bind fun moved => ?_
    rcases moved with ⟨_ | _⟩ | _
    · exact .andThen rfl fun _ => trivial
    · exact trivial
    · exact trivial

theorem sendsAt_moveFill (h : freq ∈ freqs) : (moveFill freq).Only (Act.sendsAt freqs) :=
  sendsAt_stroke h

theorem sendsAt_moveEmpty (h : freq ∈ freqs) : (moveEmpty freq).Only (Act.sendsAt freqs) :=
  sendsAt_stroke h

section Runners
variable {speedMlMin currentVolumeMl nominalVolumeMl : ℚ}

theorem sendsAt_runRinseSm {cycles : ℕ} (h : mlMinToHz speedMlMin ∈ freqs) :
    (runRinseSm speedMlMin cycles currentVolumeMl nominalVolumeMl).Only (Act.sendsAt freqs) := by
  have hloop : ∀ sm, (rinseLoop (mlMinToHz speedMlMin) sm).Only (Act.sendsAt freqs) := by
    refine fun sm => .iterate fun sm => ?_
    split
    · exact trivial
    refine .andThen rfl fun _ => .andThen rfl fun volume => ?_
    generalize sm.onMotorComplete = r
    obtain ⟨action, sm'⟩ := r
    cases action with
    | fillToLimit => exact (sendsAt_moveFill h).bind fun _ => trivial
    | emptyToLimit => exact (sendsAt_moveEmpty h).bind fun _ => trivial
    | complete | error => exact sendsAt_storeResult.bind fun _ => trivial
  unfold runRinseSm
  dsimp only
  split
  · exact (sendsAt_moveFill h).bind fun _ => hloop _
  · exact hloop _

/-- A stroke that the state machine may or may not ask for, with a reading after it. -/
theorem sendsAt_asked {α β : Type} {asked : Prop} [Decidable asked] {stroke : Firmware Unit}
    {a : Act β} {f : β → α} {otherwise : α} (hs : stroke.Only (Act.sendsAt freqs))
    (ha : Act.sendsAt freqs a) :
    (if asked then do stroke; let b ← Program.perform a; pure (f b)
      else pure otherwise : Firmware α).Only (Act.sendsAt freqs) := by
  split
  · exact hs.bind fun _ => .andThen ha fun _ => trivial
  · exact trivial

theorem sendsAt_runCalDoseSm (h : mlMinToHz speedMlMin ∈ freqs) :
    (runCalDoseSm speedMlMin currentVolumeMl nominalVolumeMl).Only (Act.sendsAt freqs) := by
  refine .bind (sendsAt_asked (sendsAt_moveFill h) rfl) fun filled => ?_
  refine .bind (sendsAt_asked (sendsAt_moveEmpty h) rfl) fun emptied => ?_
  split <;> exact sendsAt_storeResult

/-- The frequency at which a speed calibration empties the burette. -/
def calSpeedFreq (testFreqHz : ℕ) : ℕ :=
  let least := mlMinToHz Config.minCalSpeedMlMin
  if testFreqHz < least then least else testFreqHz

theorem sendsAt_runCalSpeedSm {testFreqHz : ℕ} (h : mlMinToHz speedMlMin ∈ freqs)
    (htest : calSpeedFreq testFreqHz ∈ freqs) :
    (runCalSpeedSm speedMlMin testFreqHz currentVolumeMl nominalVolumeMl).Only
      (Act.sendsAt freqs) := by
  refine .bind (sendsAt_asked (sendsAt_moveFill h) rfl) fun filled => ?_
  refine .bind (sendsAt_asked (sendsAt_moveEmpty htest) rfl) fun emptied => ?_
  split <;> exact sendsAt_storeResult

theorem CalSpeedSeqSm.freqs_onTick (sm : CalSpeedSeqSm) (now : ℕ) :
    (sm.onTick now).2.freqs = sm.freqs := by
  unfold CalSpeedSeqSm.onTick
  split
  · rfl
  · cases sm.phase <;> dsimp only <;> try split
    all_goals rfl

end Runners
end

/-- The symbols an event hands to the peripheral. -/
def Event.symbols : Event → List RmtSymbol
  | .did _ (.rmtTransmit symbols) _ _ => symbols
  | _ => []

/-- Since `past` only symbols of these step frequencies have been sent. -/
def SentAt (freqs : List ℕ) (past own : List Event) : Prop :=
  ∃ events, own = events ++ past ∧ ∀ ev ∈ events, ev.symbols.all (isSymbolOf freqs)

/-- The step frequencies of a motor command. -/
def MotorCommand.stepFrequencies (cmd : MotorCommand) : List ℕ :=
  match cmd.type with
  | .moveSteps => (List.range (Config.stepFreqMaxHz + 1)).filter (Config.stepFreqMinHz ≤ ·)
  | .moveContinuous => [cmd.speedHz]
  | .home => [1500]
  | .startRinse => [mlMinToHz cmd.startRinse.speedMlMin]
  | .startCalDose => [mlMinToHz cmd.startCalDose.speedMlMin]
  | .startCalSpeed =>
    [mlMinToHz cmd.startCalSpeed.speedMlMin, calSpeedFreq cmd.startCalSpeed.testFreqHz]
  | .startCalSpeedSeq =>
    mlMinToHz cmd.startCalSpeedSeq.fillSpeedMlMin :: 0 :: cmd.startCalSpeedSeq.freqs
  | _ => []

section
variable {α β : Type} {v : MotorView} {D : Assumption motorView} {freqs : List ℕ}
  {past : List Event}

theorem SentAt.refl : SentAt freqs past past := ⟨[], rfl, fun _ h => absurd h List.not_mem_nil⟩

theorem SentAt.did {a : Act β} (ha : Act.sendsAt freqs a) {x : Input × Mem}
    (h : SentAt freqs past v.own) : SentAt freqs past (motorView.exec .motor a x v).2.own := by
  obtain ⟨events, hown, hevents⟩ := h
  let ev : Event := .did .motor a (a.run x.1 (v.mem x)).1 (v.mem x)
  refine ⟨ev :: events, congrArg (ev :: ·) hown, fun e he => ?_⟩
  obtain rfl | he := List.mem_cons.mp he
  · induction a with
    | rmtTransmit symbols => exact ha
    | _ => rfl
  · exact hevents e he

theorem post_sentAt {p : Firmware α} (hp : p.Only (Act.sendsAt freqs))
    (h : SentAt freqs past v.own) :
    p.Post D .motor (fun _ w => SentAt freqs past w.own) v :=
  hp.post (fun _ _ _ ha hs => SentAt.did ha hs) h

theorem sentAt_calSpeedSeqLoop {fillHz : ℕ} {sm : CalSpeedSeqSm} (hfill : fillHz ∈ freqs)
    (hfreqs : ∀ i, sm.freqs.getD i 0 ∈ freqs) (h : SentAt freqs past v.own) :
    (calSpeedSeqLoop fillHz sm).Post D .motor (fun _ w => SentAt freqs past w.own) v := by
  let J : CalSpeedSeqSm → MotorView → Prop := fun sm w =>
    (∀ i, sm.freqs.getD i 0 ∈ freqs) ∧ SentAt freqs past w.own
  refine .iterate J (fun sm w hw => ?_) ⟨hfreqs, h⟩
  obtain ⟨hfreqs, hsent⟩ := hw
  split
  · exact Program.post_ret.mpr hsent
  refine Program.post_act.mpr fun _ x₁ _ => Program.post_act.mpr fun _ x₂ _ => ?_
  have hsent₁ : SentAt freqs past (motorView.exec .motor Act.taskWdtReset x₁ w).2.own :=
    SentAt.did rfl hsent
  generalize (motorView.exec .motor Act.taskWdtReset x₁ w).2 = w₁ at hsent₁
  have hsent₂ : SentAt freqs past (motorView.exec .motor Act.xTaskGetTickCount x₂ w₁).2.own :=
    SentAt.did rfl hsent₁
  generalize motorView.exec .motor Act.xTaskGetTickCount x₂ w₁ = r at hsent₂
  obtain ⟨now, w₂⟩ := r
  have htick : (sm.onTick now).2.freqs = sm.freqs := sm.freqs_onTick now
  change Program.Post D .motor _ (dispatchCalSpeedAction (sm.onTick now).2 (sm.onTick now).1 fillHz >>=
    fun continues => if continues then pure (Sum.inl (sm.onTick now).2) else pure (Sum.inr ())) w₂
  generalize sm.onTick now = r at htick
  obtain ⟨action, sm'⟩ := r
  have hdispatch : (dispatchCalSpeedAction sm' action fillHz).Only (Act.sendsAt freqs) := by
    cases action with
    | fillToLimit => exact (sendsAt_moveFill hfill).bind fun _ => trivial
    | emptyToLimit =>
      refine (sendsAt_moveEmpty ?_).bind fun _ => trivial
      rw [show sm'.freqs = sm.freqs from htick]
      exact hfreqs _
    | settleValve =>
      have hsettle : (settleValve .stopFull).Only (Act.sendsAt freqs) := only_settle rfl rfl
      exact hsettle.bind fun _ => trivial
    | complete | error => exact sendsAt_storeResult.bind fun _ => trivial
  refine Program.post_bind.mpr ((post_sentAt hdispatch hsent₂).mono fun continues w₃ hsent₃ => ?_)
  cases continues with
  | true => exact Program.post_ret.mpr ⟨fun i => htick ▸ hfreqs i, hsent₃⟩
  | false => exact Program.post_ret.mpr hsent₃

theorem mem_stepFrequencies_clamp {cmd : MotorCommand} (h : cmd.type = .moveSteps) (speed : ℕ) :
    clampStepFreq speed ∈ cmd.stepFrequencies := by
  have hbounds := clampStepFreq_bounds speed
  simp only [MotorCommand.stepFrequencies, h, List.mem_filter, List.mem_range, decide_eq_true_eq]
  omega

theorem sendsAt_runHoming {switch : Endstop} : (runHoming switch).Only (Act.sendsAt [1500]) := by
  have hcheck : ∀ start s, (checkHomingTermination start s).Only (Act.sendsAt [1500]) := by
    intro start s
    refine .andThen rfl fun seen => ?_
    cases seen with
    | true => exact trivial
    | false =>
      refine .andThen rfl fun now => ?_
      split <;> exact trivial
  have hloop : ∀ start, (homingLoop start).Only (Act.sendsAt [1500]) := by
    refine fun start => .iterate fun s => ?_
    split
    · exact trivial
    refine .andThen rfl fun _ => (hcheck start s).bind fun r => ?_
    obtain ⟨done, s'⟩ := r
    cases done with
    | true => exact trivial
    | false =>
      refine (sendsAt_moveStepsIntervals List.mem_cons_self).bind fun moved => ?_
      rcases moved with ⟨_ | _⟩ | _
      · exact (hcheck _ _).bind fun _ => trivial
      · exact .andThen rfl fun _ => trivial
      · exact (hcheck _ _).bind fun _ => trivial
  have hcleanup : ∀ s, (postHomingCleanup s).Only (Act.sendsAt [1500]) := by
    intro s
    refine sendsAt_emergencyStop.bind fun _ => .andThen rfl fun _ => ?_
    split
    · exact trivial
    · split
      · exact ⟨rfl, fun _ => ⟨rfl, fun _ => ⟨rfl, fun _ => trivial⟩⟩⟩
      · exact ⟨rfl, fun _ => trivial⟩
  refine .andThen rfl fun _ => .andThen rfl fun _ => .andThen rfl fun _ => .andThen rfl fun _ => ?_
  exact .andThen rfl fun _ => .andThen rfl fun start => (hloop start).bind hcleanup

/-- A runner, started by its handler. -/
theorem sendsAt_runner {state : BuretteState} {run : ℚ × ℚ → Firmware Unit}
    (hrun : ∀ volumes, (run volumes).Only (Act.sendsAt freqs)) :
    (do store .buretteState state
        let volumes ← MotorTask.runnerVolumes
        run volumes : Firmware Unit).Only (Act.sendsAt freqs) :=
  .andThen rfl fun _ => .bind (.andThen rfl fun _ => trivial) hrun

/-- What the motor task sends for a command are symbols of its step frequencies. -/
theorem sentAt_handle (cmd : MotorCommand) (v : MotorView) :
    (MotorTask.handle cmd).Post D .motor
      (fun _ w => SentAt cmd.stepFrequencies v.own w.own) v := by
  unfold MotorTask.handle
  cases hc : cmd.type with
  | moveSteps =>
    refine post_sentAt ?_ .refl
    have hmove : (executeMoveSteps cmd.steps).Only (Act.sendsAt cmd.stepFrequencies) :=
      sendsAt_executeMoveSteps (mem_stepFrequencies_clamp hc)
    exact .andThen rfl fun _ => hmove.bind fun _ => .andThen rfl fun _ => sendsAt_storeResult
  | moveContinuous =>
    simp only [MotorCommand.stepFrequencies, hc]
    refine post_sentAt ?_ .refl
    exact (sendsAt_moveToEndstop List.mem_cons_self).bind fun _ => sendsAt_storeResult
  | home =>
    simp only [MotorCommand.stepFrequencies, hc]
    exact post_sentAt sendsAt_runHoming .refl
  | startRinse =>
    simp only [MotorCommand.stepFrequencies, hc]
    exact post_sentAt (sendsAt_runner fun _ => sendsAt_runRinseSm List.mem_cons_self) .refl
  | startCalDose =>
    simp only [MotorCommand.stepFrequencies, hc]
    exact post_sentAt (sendsAt_runner fun _ => sendsAt_runCalDoseSm List.mem_cons_self) .refl
  | startCalSpeed =>
    simp only [MotorCommand.stepFrequencies, hc]
    refine post_sentAt (sendsAt_runner fun _ => ?_) .refl
    exact sendsAt_runCalSpeedSm List.mem_cons_self (List.mem_cons_of_mem _ List.mem_cons_self)
  | startCalSpeedSeq =>
    simp only [MotorCommand.stepFrequencies, hc]
    generalize hfreqs : mlMinToHz cmd.startCalSpeedSeq.fillSpeedMlMin :: 0 ::
      cmd.startCalSpeedSeq.freqs = freqs
    have hpoint : ∀ i, cmd.startCalSpeedSeq.freqs.getD i 0 ∈ freqs := by
      intro i
      rw [← hfreqs, List.getD_eq_getElem?_getD]
      cases hi : cmd.startCalSpeedSeq.freqs[i]? with
      | none => simp
      | some f => simp [List.mem_of_getElem? hi]
    have hfill : mlMinToHz cmd.startCalSpeedSeq.fillSpeedMlMin ∈ freqs := by simp [← hfreqs]
    have hvolumes : MotorTask.runnerVolumes.Only (Act.sendsAt freqs) :=
      .andThen rfl fun _ => trivial
    have hstore : (store .buretteState BuretteState.dosing).Only (Act.sendsAt freqs) :=
      ⟨rfl, fun _ => trivial⟩
    refine Program.post_bind.mpr ((post_sentAt hstore .refl).mono fun _ v₁ h₁ => ?_)
    refine Program.post_bind.mpr ((post_sentAt hvolumes h₁).mono fun volumes v₂ h₂ => ?_)
    unfold runCalSpeedSeqSm
    dsimp only
    split <;> exact sentAt_calSpeedSeqLoop hfill hpoint h₂
  | stop =>
    exact post_sentAt ⟨rfl, fun _ => ⟨rfl, fun _ => ⟨rfl, fun _ => ⟨rfl, fun _ =>
      ⟨rfl, fun _ => trivial⟩⟩⟩⟩⟩ .refl
  | emergencyStop =>
    have hcancel : cancelValveSettleTimer.Only (Act.sendsAt cmd.stepFrequencies) := by
      refine .andThen rfl fun armed => ?_
      split
      · refine .andThen rfl fun created => ?_
        split
        · refine .andThen rfl fun err => ?_
          split
          · exact ⟨rfl, fun _ => trivial⟩
          · exact trivial
        · exact trivial
      · exact trivial
    exact post_sentAt (hcancel.bind fun _ => ⟨rfl, fun _ => ⟨rfl, fun _ => ⟨rfl, fun _ =>
      ⟨rfl, fun _ => trivial⟩⟩⟩⟩) .refl
  | setDirection => exact post_sentAt ⟨rfl, fun _ => ⟨rfl, fun _ => trivial⟩⟩ .refl
  | setSpeed =>
    refine post_sentAt ?_ .refl
    simp only [MotorTask.handleSetSpeed]
    split
    · exact ⟨rfl, fun _ => trivial⟩
    · exact trivial
  | setAccel => exact post_sentAt ⟨rfl, fun _ => trivial⟩ .refl
  | setStallThreshold => exact post_sentAt ⟨rfl, fun _ => ⟨rfl, fun _ => trivial⟩⟩ .refl
  | readTmcRegister =>
    refine post_sentAt ?_ .refl
    refine .andThen rfl fun value => ?_
    cases value with
    | some value => exact ⟨rfl, fun _ => trivial⟩
    | none => exact trivial

end
/-- What is sent for a motor command are symbols of its step frequencies, and the symbol of a
frequency is right exactly between 31 and 500000 Hz. -/
theorem stepSymbols_exact_iff (cmd : MotorCommand) (v : MotorView) :
    (MotorTask.handle cmd).Post (.any motorView) .motor
      (fun _ w => SentAt cmd.stepFrequencies v.own w.own) v ∧
      ∀ freq, SymbolExact freq ↔ 31 ≤ freq ∧ freq ≤ 500000 :=
  ⟨sentAt_handle cmd v, symbolExact_iff⟩

/-- A motion to the switch at 10 Hz, up to its first chunk. -/
def Script.slowMotion : Script :=
  boot ++ turns .http 1 ++
    request .http { type := .moveToStop, direction := some .liqIn, freqHz := some 10 } 6 ++
    turns .motor 11

/-- The motion is accepted and sends symbols that are not those of 10 Hz. -/
theorem slowMotion_notExact :
    (∃ c, Reachable {} c ∧ ∃ ev ∈ c.shared.past, stepSymbol (1000000 / 10) ∈ ev.symbols) ∧
      ¬ SymbolExact 10 := by
  have hrun : (device.run (Guard.any device) Script.slowMotion (Boot.config {})).any
      (fun c => decide (∃ ev ∈ c.shared.past, stepSymbol (1000000 / 10) ∈ ev.symbols)) = true := by
    decide +kernel
  obtain ⟨c, hsteps, hc⟩ := Machine.exists_of_run hrun
  refine ⟨⟨c, hsteps.weaken, of_decide_eq_true hc⟩, ?_⟩
  rw [symbolExact_iff]
  decide

end Ecotiter
