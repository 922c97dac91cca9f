import Mathlib.Algebra.Order.Field.Rat
import Mathlib.Tactic.NormNum
import Ecotiter.DoseCalibration

/-!
# The speeds a speed calibration publishes

A speed calibration divides the volume of the burette by the time an emptying took. Time is a count
of milliseconds that goes on, by whatever amounts, with every action of the motor task but a look at
the clock and the feeding of the watchdog; a reading of it is its residue modulo `2^32`.
-/

namespace Ecotiter
open Interleaving Firmware

/-- The event takes time. -/
def Event.timed : Event → Bool
  | .did _ .xTaskGetTickCount _ _ | .did _ .taskWdtReset _ _ => false
  | _ => true

/-- The time after a history. -/
def nowAt (time : ℕ → ℕ) (own : List Event) : ℕ := time (own.countP Event.timed)

/-- The clock reads the time. -/
def clocked (time : ℕ → ℕ) : Assumption motorView where
  allows _ _ a x v :=
    match a with
    | .xTaskGetTickCount => x.1.nat = nowAt time v.own
    | _ => True
  allowsEnv _ _ := False

/-- When the stroke in progress began, if it is an emptying: a stroke begins by setting the valve. -/
def emptyingSince (time : ℕ → ℕ) : List Event → Option ℕ
  | .did _ (.gpioSetLevel .valve output) _ _ :: past =>
    if output then some (nowAt time past) else none
  | _ :: past => emptyingSince time past
  | [] => none

/-- The beginnings and ends of the emptyings, latest first: a stroke ends by enabling the driver. -/
def emptyings (time : ℕ → ℕ) : List Event → List (ℕ × ℕ)
  | .did t (.gpioSetLevel .en off) b m :: past =>
    if off then emptyings time past
    else match emptyingSince time past with
      | some start =>
        (start, nowAt time (.did t (.gpioSetLevel .en off) b m :: past)) :: emptyings time past
      | none => emptyings time past
  | _ :: past => emptyings time past
  | [] => []

/-- The milliseconds between two times, as the clock counts them. -/
def elapsed (span : ℕ × ℕ) : ℕ := subU32 span.2 span.1

/-- The speed that empties a volume in a time. -/
def speedOver (volumeMl : ℚ) (ms : ℕ) : ℚ := volumeMl * 60000 / (max 1 ms : ℕ)

/-- The published speed is that of the emptying. -/
def SpeedMeasured (time : ℕ → ℕ) (nominalVolumeMl : ℚ) (own : List Event) : Prop :=
  ∃ r p span rest, lastResult own = some (r, p) ∧ emptyings time own = span :: rest ∧
    r.measuredSpeedMlMin = speedOver nominalVolumeMl (elapsed span)

/-- The published speeds are those of the last three emptyings. -/
def SpeedsMeasured (time : ℕ → ℕ) (nominalVolumeMl : ℚ) (own : List Event) : Prop :=
  ∃ r p, lastResult own = some (r, p) ∧ r.results =
    (((emptyings time own).take 3).map fun span => speedOver nominalVolumeMl (elapsed span)).reverse

/-- The actions within a stroke. -/
def Act.keepsSpans : {β : Type} → Act β → Bool
  | _, .gpioSetLevel .valve _ => false
  | _, .gpioSetLevel .en off => off
  | _, _ => true

section
variable {α β : Type} {v : MotorView} {D : Assumption motorView} {time : ℕ → ℕ} {speedHz : ℕ}

theorem Act.keepsSpans_of_ofChunk (a : Act β) (h : a.ofChunk) : a.keepsSpans := by
  induction a with
  | gpioSetLevel pin level => cases pin <;> first | rfl | exact h
  | _ => rfl

theorem MotorView.emptyings_did (time : ℕ → ℕ) (v : MotorView) {a : Act β} (h : a.keepsSpans)
    {t : Tid} {x : Input × Mem} :
    emptyings time (v.did t a x).own = emptyings time v.own ∧
      emptyingSince time (v.did t a x).own = emptyingSince time v.own := by
  induction a with
  | gpioSetLevel pin level =>
    cases pin with
    | valve => cases h
    | en =>
      have hoff : level = true := h
      subst hoff
      exact ⟨rfl, rfl⟩
    | dir => exact ⟨rfl, rfl⟩
  | _ => exact ⟨rfl, rfl⟩

theorem nowAt_timed {a : Act β} {t : Tid} {x : Input × Mem}
    (h : (Event.did t a (a.run x.1 (v.mem x)).1 (v.mem x)).timed = false) :
    nowAt time (v.did t a x).own = nowAt time v.own := by
  unfold nowAt
  change time (List.countP _ (_ :: v.own)) = _
  rw [List.countP_cons_of_neg (by simp [h])]

/-- A stroke, which is timed from its beginning to its end if it is an emptying. -/
theorem post_stroke {pos : ValvePosition} {dir : Direction} {state : BuretteState}
    {flag : StopFlag} :
    (do setValve pos; settleValve flag; store .buretteState state
        moveToEndstop dir speedHz flag : Firmware Unit).Post D .motor
      (fun _ w => emptyings time w.own =
        if pos = .output then (nowAt time v.own, nowAt time w.own) :: emptyings time v.own
        else emptyings time v.own) v := by
  let since : Option ℕ := if pos = .output then some (nowAt time v.own) else none
  let I : MotorView → Prop := fun w =>
    emptyings time w.own = emptyings time v.own ∧ emptyingSince time w.own = since
  have hI : ∀ {β : Type} (a : Act β) (x : Input × Mem) (w : MotorView), a.keepsSpans = true →
      I w → I (motorView.exec .motor a x w).2 := by
    intro β a x w ha hw
    obtain ⟨hspans, hsince⟩ := w.emptyings_did time ha
    exact ⟨hspans.trans hw.1, hsince.trans hw.2⟩
  refine Program.post_act.mpr fun _ x₁ _ => ?_
  have h₁ : I (v.did .motor (.gpioSetLevel .valve (pos = .output)) x₁) := by
    refine ⟨rfl, ?_⟩
    cases pos <;> rfl
  refine Program.post_act.mpr fun _ x₂ _ => ?_
  have h₂ := hI (.store .valvePosition pos) x₂ _ rfl h₁
  change Program.Post D .motor _ (settleValve flag >>= _) _
  have hsettle : (settleValve flag).Only Act.keepsSpans := only_settle rfl rfl
  refine Program.post_bind.mpr ((hsettle.post hI h₂).mono fun _ w₃ h₃ => ?_)
  refine Program.post_act.mpr fun _ x₄ _ => ?_
  have h₄ := hI (.store .buretteState state) x₄ _ rfl h₃
  change Program.Post D .motor _ (moveToEndstop dir speedHz flag) _
  rw [moveToEndstop_eq]
  refine Program.post_act.mpr fun _ x₅ _ => ?_
  have h₅ := hI (.gpioSetLevel .dir dir.level) x₅ _ rfl h₄
  have hdrive : (driveToEndstop speedHz flag).Only Act.keepsSpans :=
    only_driveToEndstop Act.keepsSpans_of_ofChunk rfl (.inr rfl)
  change Program.Post D .motor _ (driveToEndstop speedHz flag >>= _) _
  refine Program.post_bind.mpr ((hdrive.post hI h₅).mono fun _ w₆ h₆ => ?_)
  refine Program.post_act.mpr fun _ x₇ _ => Program.post_ret.mpr ?_
  obtain ⟨hspans, hsince⟩ := h₆
  change (match emptyingSince time w₆.own with | some start => _ | none => _) = _
  rw [hsince]
  cases pos with
  | output =>
    change (_, _) :: emptyings time w₆.own = _
    rw [hspans]
    rfl
  | input => exact hspans

theorem post_timedFill (time : ℕ → ℕ) :
    (moveFill speedHz).Post D .motor (fun _ w => emptyings time w.own = emptyings time v.own) v :=
  post_stroke

theorem post_timedEmpty (time : ℕ → ℕ) :
    (moveEmpty speedHz).Post D .motor
      (fun _ w => emptyings time w.own =
        (nowAt time v.own, nowAt time w.own) :: emptyings time v.own) v :=
  post_stroke

end

theorem subU32_mod (a b : ℕ) : subU32 (a % 2 ^ 32) b = subU32 a b := by
  unfold subU32
  omega

theorem subU32_mod_right (a b : ℕ) : subU32 a (b % 2 ^ 32) = subU32 a b := by
  unfold subU32
  rw [Nat.mod_mod]

theorem subU32_zero (a : ℕ) : subU32 a 0 = a % 2 ^ 32 := by
  unfold subU32
  omega

theorem speedOver_eq (volumeMl : ℚ) (ms : ℕ) :
    volumeMl / (((if ms = 0 then 1 else ms : ℕ) : ℚ) / 60000) = speedOver volumeMl ms := by
  have hmax : (if ms = 0 then 1 else ms) = max 1 ms := by
    split <;> omega
  rw [hmax, speedOver, div_div_eq_mul_div]

theorem speedOver_inj {volumeMl : ℚ} (hv : 0 < volumeMl) {ms ms' : ℕ} :
    speedOver volumeMl ms = speedOver volumeMl ms' ↔ max 1 ms = max 1 ms' := by
  have hne : volumeMl * 60000 ≠ 0 := mul_ne_zero hv.ne' (by norm_num)
  unfold speedOver
  rw [div_eq_mul_inv, div_eq_mul_inv, mul_right_inj' hne, inv_inj, Nat.cast_inj]

section
variable {v : MotorView} {time : ℕ → ℕ} {speedMlMin currentVolumeMl nominalVolumeMl : ℚ}
  {testFreqHz : ℕ}

/-- The reading of the clock. -/
theorem clocked_reading {x : Input × Mem} (h : (clocked time).allows .motor .xTaskGetTickCount x v) :
    (Act.xTaskGetTickCount.run x.1 (v.mem x)).1 = nowAt time v.own % 2 ^ 32 := by
  have hread : x.1.nat = nowAt time v.own := h
  rw [← hread]
  rfl

/-- The speed is that over the time since the reading the machine holds. -/
theorem post_calSpeedEmpty (sm : CalSpeedSingleSm) :
    (do let emptied ← calSpeedEmpty testFreqHz nominalVolumeMl (.emptyToLimit, sm)
        if emptied.1 = .complete then
          storeResult .calSpeedComplete 0 emptied.2.measuredSpeedMlMin [] 0
        else storeResult .error 0 0 [] 0 : Firmware Unit).Post (clocked time) .motor
      (fun _ w => ∃ r p stop, lastResult w.own = some (r, p) ∧
        emptyings time w.own = (nowAt time v.own, stop) :: emptyings time v.own ∧
        r.measuredSpeedMlMin = speedOver nominalVolumeMl (subU32 stop sm.elapsedMs)) v := by
  change Program.Post (clocked time) .motor _ ((moveEmpty _).bind _ >>= _) v
  rw [Program.bind_eq, Program.bind_assoc]
  refine Program.post_bind.mpr ((post_timedEmpty time).mono fun _ w₁ h₁ => ?_)
  refine Program.post_act.mpr fun _ x₂ hx₂ => ?_
  have hread := clocked_reading hx₂
  refine Program.post_act.mpr fun _ x₃ _ => ?_
  refine Program.post_act.mpr fun _ x₄ _ => ?_
  refine Program.post_act.mpr fun _ x₅ _ => Program.post_ret.mpr ?_
  refine ⟨_, _, nowAt time w₁.own, rfl, h₁, ?_⟩
  change nominalVolumeMl / (((if subU32 (Act.xTaskGetTickCount.run x₂.1 (w₁.mem x₂)).1 sm.elapsedMs
    = 0 then 1 else subU32 (Act.xTaskGetTickCount.run x₂.1 (w₁.mem x₂)).1 sm.elapsedMs : ℕ) : ℚ) /
      60000) = _
  rw [speedOver_eq, hread, subU32_mod]

/-- After a fill the speed is that of the emptying, and otherwise that over the time since the clock
was at zero. -/
theorem post_runCalSpeedSm :
    (runCalSpeedSm speedMlMin testFreqHz currentVolumeMl nominalVolumeMl).Post (clocked time) .motor
      (fun _ w => ∃ r p span rest, lastResult w.own = some (r, p) ∧
        emptyings time w.own = span :: rest ∧ r.measuredSpeedMlMin = speedOver nominalVolumeMl
          (if currentVolumeMl < nominalVolumeMl - 1 / 10 then elapsed span
            else span.2 % 2 ^ 32)) v := by
  by_cases hfill : currentVolumeMl < nominalVolumeMl - 1 / 10
  · have hstarted : CalSpeedSingleSm.start.onStart currentVolumeMl nominalVolumeMl =
        (.fillToLimit, { CalSpeedSingleSm.start with phase := .filling }) := if_pos hfill
    simp only [runCalSpeedSm, hstarted, if_pos hfill]
    change Program.Post (clocked time) .motor _ ((moveFill (mlMinToHz speedMlMin)).bind _ >>= _) v
    rw [Program.bind_eq, Program.bind_assoc]
    refine Program.post_bind.mpr ((post_timedFill time).mono fun _ v₁ h₁ => ?_)
    refine Program.post_act.mpr fun _ x hx => ?_
    have hread := clocked_reading hx
    have hsame : emptyings time (v₁.did .motor .xTaskGetTickCount x).own = emptyings time v₁.own :=
      rfl
    have hnow : nowAt time (v₁.did .motor .xTaskGetTickCount x).own = nowAt time v₁.own :=
      nowAt_timed rfl
    refine (post_calSpeedEmpty _).mono fun _ w hw => ?_
    obtain ⟨r, p, stop, hresult, hspans, hspeed⟩ := hw
    refine ⟨r, p, _, _, hresult, hspans, hspeed.trans (congrArg _ ?_)⟩
    change subU32 stop (Act.xTaskGetTickCount.run x.1 (v₁.mem x)).1 = subU32 stop (nowAt time _)
    rw [hread, subU32_mod_right, ← hnow]
    rfl
  · have hstarted : CalSpeedSingleSm.start.onStart currentVolumeMl nominalVolumeMl =
        (.emptyToLimit, { CalSpeedSingleSm.start with phase := .emptying }) := if_neg hfill
    simp only [runCalSpeedSm, hstarted, if_neg hfill]
    refine (post_calSpeedEmpty _).mono fun _ w hw => ?_
    obtain ⟨r, p, stop, hresult, hspans, hspeed⟩ := hw
    refine ⟨r, p, _, _, hresult, hspans, ?_⟩
    rw [hspeed]
    exact congrArg _ (subU32_zero stop)

end

/-- The speed the sequence computes for a time. -/
def seqSpeed (ms : ℕ) : ℚ := if 0 < ms then 50 / ((ms : ℚ) / 60000) else 0

/-- The sequence has the results of these points, their times earliest first. -/
structure SeqResults (points : List (ℕ × ℕ)) (sm : CalSpeedSeqSm) : Prop where
  started : sm.started = true
  index : sm.seqIdx = points.length
  results : sm.results =
    points.map (fun span => seqSpeed (elapsed span)) ++ List.replicate (3 - points.length) 0
  unfinished : points.length < 3

/-- The emptyings since a history that had `spans`: the points, and in the phase that measures a
point the emptying that has just come to its end. -/
def SeqSpans (time : ℕ → ℕ) (spans points : List (ℕ × ℕ)) (sm : CalSpeedSeqSm) (v : MotorView) :
    Prop :=
  match sm.phase with
  | .empty => ∃ start, emptyings time v.own =
      (start, nowAt time v.own) :: (points.reverse ++ spans) ∧ sm.elapsedMs = start % 2 ^ 32
  | .fillFirst | .valveSettleAfterFill | .valveSettleAfterEmpty =>
    emptyings time v.own = points.reverse ++ spans
  | _ => False

/-- The sequence is complete and its results are published. -/
def SeqPublished (time : ℕ → ℕ) (spans : List (ℕ × ℕ)) (v : MotorView) : Prop :=
  ∃ (points : List (ℕ × ℕ)) (r : SmResult) (p : ℤ), points.length = 3 ∧
    emptyings time v.own = points.reverse ++ spans ∧ lastResult v.own = some (r, p) ∧
    r.type = .calSpeedSeqComplete ∧ r.results = points.map fun span => seqSpeed (elapsed span)

section
variable {v : MotorView} {time : ℕ → ℕ} {spans points : List (ℕ × ℕ)} {sm : CalSpeedSeqSm}
  {fillHz : ℕ}

theorem post_seqSettle {flag : StopFlag} : (settleValve flag).Post (clocked time) .motor
    (fun _ w => emptyings time w.own = emptyings time v.own) v := by
  have hsettle : (settleValve flag).Only Act.keepsSpans := only_settle rfl rfl
  refine hsettle.post (fun a x w ha hw => ?_) rfl
  exact (w.emptyings_did time ha).1.trans hw

/-- One more point is measured. -/
theorem SeqResults.measure (h : SeqResults points sm) (span : ℕ × ℕ) :
    sm.results.set sm.seqIdx (seqSpeed (elapsed span)) =
      (points ++ [span]).map (fun span => seqSpeed (elapsed span)) ++
        List.replicate (3 - (points ++ [span]).length) 0 := by
  have hless := h.unfinished
  have hlen : 3 - points.length = (3 - (points ++ [span]).length) + 1 := by
    rw [List.length_append, List.length_singleton]
    omega
  rw [h.results, h.index, hlen, List.replicate_succ, List.map_append, List.map_singleton,
    List.append_assoc, List.singleton_append]
  have hmap : points.length = (points.map fun span => seqSpeed (elapsed span)).length :=
    (List.length_map _).symm
  rw [hmap, List.set_append_right _ _ (Nat.le_refl _), Nat.sub_self, List.set_cons_zero]

/-- The rest of a turn of the loop after the clock has been read. -/
def seqTick (fillHz : ℕ) (sm : CalSpeedSeqSm) (now : ℕ) : Firmware (CalSpeedSeqSm ⊕ Unit) := do
  let (action, sm) := sm.onTick now
  if ← dispatchCalSpeedAction sm action fillHz then return .inl sm
  else return .inr ()

/-- The sequence goes on with these or other points, or it is published. -/
def SeqTurned (time : ℕ → ℕ) (spans : List (ℕ × ℕ)) : CalSpeedSeqSm ⊕ Unit → MotorView → Prop :=
  Sum.elim (fun sm w => ∃ points, SeqResults points sm ∧ SeqSpans time spans points sm w)
    fun _ w => SeqPublished time spans w

/-- A tick that waits for the valve. -/
theorem post_tickSettle {now : ℕ} {sm' : CalSpeedSeqSm} (htick : sm.onTick now = (.settleValve, sm'))
    (hsm : SeqResults points sm')
    (hspans : ∀ w, emptyings time w.own = emptyings time v.own → SeqSpans time spans points sm' w) :
    (seqTick fillHz sm now).Post (clocked time) .motor (SeqTurned time spans) v := by
  unfold seqTick
  rw [htick]
  change Program.Post (clocked time) .motor _ ((settleValve .stopFull).bind _ >>= _) v
  rw [Program.bind_eq, Program.bind_assoc]
  refine Program.post_bind.mpr (post_seqSettle.mono fun _ w hw => Program.post_ret.mpr ?_)
  exact ⟨points, hsm, hspans w hw⟩

theorem smResult_three (type : SmResultType) (steps : ℤ) (speed : ℚ) {results : List ℚ}
    (h : results.length = 3) : (smResult type steps speed results 3).results = results := by
  match results, h with
  | [a, b, c], _ => rfl

/-- One tick, by the phase it finds. -/
theorem post_seqTick {now : ℕ} (hnow : now = nowAt time v.own % 2 ^ 32)
    (hsm : SeqResults points sm) (hspans : SeqSpans time spans points sm v) :
    (seqTick fillHz sm now).Post (clocked time) .motor (SeqTurned time spans) v := by
  obtain ⟨hstarted, hindex, hresults, hless⟩ := hsm
  cases hphase : sm.phase with
  | fillFirst =>
    have htick : sm.onTick now = (.settleValve,
        { sm with phase := .valveSettleAfterFill, valveSettleStartMs := now }) := by
      simp [CalSpeedSeqSm.onTick, hstarted, hphase]
    simp only [SeqSpans, hphase] at hspans
    exact post_tickSettle htick ⟨hstarted, hindex, hresults, hless⟩ fun w hw => hw.trans hspans
  | valveSettleAfterFill =>
    have hbefore := hspans
    simp only [SeqSpans, hphase] at hspans
    by_cases hsettled : CalSpeedSeqSm.valveSwitchMs ≤ subU32 now sm.valveSettleStartMs
    · have htick : sm.onTick now = (.emptyToLimit, { sm with phase := .empty, elapsedMs := now }) := by
        simp [CalSpeedSeqSm.onTick, hstarted, hphase, hsettled]
      unfold seqTick
      rw [htick]
      change Program.Post (clocked time) .motor _ ((moveEmpty _).bind _ >>= _) v
      rw [Program.bind_eq, Program.bind_assoc]
      refine Program.post_bind.mpr ((post_timedEmpty time).mono fun _ w hw => ?_)
      refine Program.post_ret.mpr ⟨points, ⟨hstarted, hindex, hresults, hless⟩, nowAt time v.own, ?_⟩
      rw [hspans] at hw
      exact ⟨hw, hnow⟩
    · have htick : sm.onTick now = (.settleValve, sm) := by
        simp [CalSpeedSeqSm.onTick, hstarted, hphase, hsettled]
      refine post_tickSettle htick ⟨hstarted, hindex, hresults, hless⟩ fun w hw => ?_
      simp only [SeqSpans, hphase]
      exact hw.trans hspans
  | empty =>
    simp only [SeqSpans, hphase] at hspans
    obtain ⟨start, hspans, hstart⟩ := hspans
    let span := (start, nowAt time v.own)
    have hdiff : subU32 now sm.elapsedMs = elapsed span := by
      rw [hnow, hstart, subU32_mod, subU32_mod_right]
      rfl
    have hset := SeqResults.measure ⟨hstarted, hindex, hresults, hless⟩ span
    have hlen : (points ++ [span]).length = points.length + 1 := List.length_append
    have hreverse : emptyings time v.own = (points ++ [span]).reverse ++ spans := by
      rw [hspans, List.reverse_append]
      rfl
    by_cases hlast : CalSpeedSeqSm.calSeqPoints ≤ sm.seqIdx + 1
    · have htick : sm.onTick now = (.complete,
          { sm with
            results := sm.results.set sm.seqIdx (seqSpeed (elapsed span)), seqIdx := sm.seqIdx + 1
            phase := .done, started := false }) := by
        simp [CalSpeedSeqSm.onTick, hstarted, hphase, hlast, hdiff, seqSpeed]
      have hpoints : (points ++ [span]).length = 3 := by
        have hthree : CalSpeedSeqSm.calSeqPoints = 3 := rfl
        omega
      have hcount : sm.seqIdx + 1 = 3 := by omega
      rw [hpoints, Nat.sub_self, List.replicate_zero, List.append_nil] at hset
      unfold seqTick
      rw [htick, hset, hcount]
      refine Program.post_act.mpr fun _ x₁ _ => Program.post_act.mpr fun _ x₂ _ => ?_
      refine Program.post_act.mpr fun _ x₃ _ => Program.post_ret.mpr ?_
      refine ⟨points ++ [span], _, _, hpoints, hreverse, rfl, rfl, ?_⟩
      exact smResult_three _ _ _ ((List.length_map _).trans hpoints)
    · have htick : sm.onTick now = (.settleValve,
          { sm with
            results := sm.results.set sm.seqIdx (seqSpeed (elapsed span)), seqIdx := sm.seqIdx + 1
            phase := .valveSettleAfterEmpty, valveSettleStartMs := now }) := by
        simp [CalSpeedSeqSm.onTick, hstarted, hphase, hlast, hdiff, seqSpeed]
      have hmore : (points ++ [span]).length < 3 := by
        have hpoints : CalSpeedSeqSm.calSeqPoints = 3 := rfl
        omega
      refine post_tickSettle htick ⟨hstarted, ?_, hset, hmore⟩ fun w hw => hw.trans hreverse
      rw [hlen, ← hindex]
  | valveSettleAfterEmpty =>
    simp only [SeqSpans, hphase] at hspans
    by_cases hsettled : CalSpeedSeqSm.valveSwitchMs ≤ subU32 now sm.valveSettleStartMs
    · have htick : sm.onTick now = (.fillToLimit, { sm with phase := .fillFirst }) := by
        simp [CalSpeedSeqSm.onTick, hstarted, hphase, hsettled]
      unfold seqTick
      rw [htick]
      change Program.Post (clocked time) .motor _ ((moveFill _).bind _ >>= _) v
      rw [Program.bind_eq, Program.bind_assoc]
      refine Program.post_bind.mpr ((post_timedFill time).mono fun _ w hw => ?_)
      refine Program.post_ret.mpr ⟨points, ⟨hstarted, hindex, hresults, hless⟩, ?_⟩
      exact hw.trans hspans
    · have htick : sm.onTick now = (.settleValve, sm) := by
        simp [CalSpeedSeqSm.onTick, hstarted, hphase, hsettled]
      refine post_tickSettle htick ⟨hstarted, hindex, hresults, hless⟩ fun w hw => ?_
      simp only [SeqSpans, hphase]
      exact hw.trans hspans
  | idle | nextPoint | done =>
    simp only [SeqSpans, hphase] at hspans

theorem post_calSpeedSeqLoop (hsm : SeqResults points sm)
    (hspans : SeqSpans time spans points sm v) :
    (calSpeedSeqLoop fillHz sm).Post (clocked time) .motor
      (fun _ w => SeqPublished time spans w) v := by
  let J : CalSpeedSeqSm → MotorView → Prop := fun sm w =>
    ∃ points, SeqResults points sm ∧ SeqSpans time spans points sm w
  refine .iterate J (fun sm w hw => ?_) ⟨points, hsm, hspans⟩
  obtain ⟨points, hsm, hspans⟩ := hw
  have hgoing : sm.isComplete = false := by
    rw [CalSpeedSeqSm.isComplete, decide_eq_false_iff_not]
    intro hdone
    simp only [SeqSpans, hdone] at hspans
  rw [if_neg (by rw [hgoing]; decide)]
  refine Program.post_act.mpr fun _ x₁ _ => Program.post_act.mpr fun _ x₂ hx₂ => ?_
  have hread := clocked_reading hx₂
  let w₁ := w.did .motor .taskWdtReset x₁
  have hfed : nowAt time w₁.own = nowAt time w.own := nowAt_timed rfl
  have hlooked : nowAt time (w₁.did .motor .xTaskGetTickCount x₂).own = nowAt time w₁.own :=
    nowAt_timed rfl
  have hspans' : SeqSpans time spans points sm (w₁.did .motor .xTaskGetTickCount x₂) := by
    unfold SeqSpans at hspans ⊢
    rw [hlooked, hfed]
    exact hspans
  refine post_seqTick (hread.trans ?_) hsm hspans'
  exact congrArg (· % 2 ^ 32) hlooked.symm

/-- A sequence makes three emptyings and publishes what it computes for their times. -/
theorem post_runCalSpeedSeqSm {freqs : List ℕ}
    {fillSpeedMlMin currentVolumeMl nominalVolumeMl : ℚ} :
    (runCalSpeedSeqSm freqs fillSpeedMlMin currentVolumeMl nominalVolumeMl).Post (clocked time)
      .motor (fun _ w => SeqPublished time (emptyings time v.own) w) v := by
  unfold runCalSpeedSeqSm
  dsimp only
  have hnone : ∀ sm : CalSpeedSeqSm, sm.started = true → sm.seqIdx = 0 → sm.results = [0, 0, 0] →
      SeqResults [] sm :=
    fun sm hstarted hindex hresults => ⟨hstarted, hindex, hresults, by decide⟩
  split <;> exact post_calSpeedSeqLoop (hnone _ rfl rfl rfl) rfl

end

/-- After an initial fill a single speed is right. Without one it is right if the clock stands, at the
end of the emptying, at the time the emptying took. -/
def SpeedTimed (time : ℕ → ℕ) (currentVolumeMl nominalVolumeMl : ℚ) (own : List Event) : Prop :=
  currentVolumeMl < nominalVolumeMl - 1 / 10 ∨ ∃ span rest, emptyings time own = span :: rest ∧
    max 1 (span.2 % 2 ^ 32) = max 1 (elapsed span)

/-- The speeds of a sequence are right if the burette holds 50 ml and every emptying takes time. -/
def SpeedsTimed (time : ℕ → ℕ) (nominalVolumeMl : ℚ) (own : List Event) : Prop :=
  nominalVolumeMl = 50 ∧ ∀ span ∈ (emptyings time own).take 3, elapsed span ≠ 0

theorem seqSpeed_eq_iff {volumeMl : ℚ} (hv : 0 < volumeMl) (ms : ℕ) :
    seqSpeed ms = speedOver volumeMl ms ↔ ms ≠ 0 ∧ volumeMl = 50 := by
  unfold seqSpeed
  by_cases hzero : ms = 0
  · subst hzero
    simpa [speedOver] using hv.ne'
  · have hpos : 0 < ms := by omega
    have hmax : max 1 ms = ms := by omega
    have hcast : (ms : ℚ) ≠ 0 := Nat.cast_ne_zero.mpr hzero
    rw [if_pos hpos, speedOver, hmax, div_div_eq_mul_div, div_left_inj' hcast]
    constructor
    · intro h
      exact ⟨hzero, (mul_right_cancel₀ (by norm_num) h).symm⟩
    · rintro ⟨-, rfl⟩
      rfl

section
variable {time : ℕ → ℕ} {v : MotorView} {nominalVolumeMl : ℚ}

/-- The speeds that speed calibrations publish are the volume over the time of the emptying exactly
under these conditions, whatever the time is. -/
theorem calSpeed_measures_iff (hnominal : 0 < nominalVolumeMl) (time : ℕ → ℕ) (v : MotorView)
    (speedMlMin currentVolumeMl : ℚ) (testFreqHz : ℕ) (freqs : List ℕ) :
    (runCalSpeedSm speedMlMin testFreqHz currentVolumeMl nominalVolumeMl).Post (clocked time) .motor
      (fun _ w => SpeedMeasured time nominalVolumeMl w.own ↔
        SpeedTimed time currentVolumeMl nominalVolumeMl w.own) v ∧
      (runCalSpeedSeqSm freqs speedMlMin currentVolumeMl nominalVolumeMl).Post (clocked time) .motor
        (fun _ w => SpeedsMeasured time nominalVolumeMl w.own ↔
          SpeedsTimed time nominalVolumeMl w.own) v := by
  constructor
  · refine post_runCalSpeedSm.mono fun _ w hw => ?_
    obtain ⟨r, p, span, rest, hresult, hspans, hspeed⟩ := hw
    have hmeasured : SpeedMeasured time nominalVolumeMl w.own ↔
        r.measuredSpeedMlMin = speedOver nominalVolumeMl (elapsed span) := by
      simp [SpeedMeasured, hresult, hspans]
    have htimed : SpeedTimed time currentVolumeMl nominalVolumeMl w.own ↔
        currentVolumeMl < nominalVolumeMl - 1 / 10 ∨
          max 1 (span.2 % 2 ^ 32) = max 1 (elapsed span) := by
      simp [SpeedTimed, hspans]
    rw [hmeasured, htimed, hspeed]
    by_cases hfill : currentVolumeMl < nominalVolumeMl - 1 / 10
    · rw [if_pos hfill]
      exact ⟨fun _ => .inl hfill, fun _ => rfl⟩
    · rw [if_neg hfill, speedOver_inj hnominal]
      exact ⟨.inr, fun h => h.resolve_left hfill⟩
  · refine post_runCalSpeedSeqSm.mono fun _ w hw => ?_
    obtain ⟨points, r, p, hlen, hspans, hresult, -, hresults⟩ := hw
    have htake : (emptyings time w.own).take 3 = points.reverse := by
      rw [hspans, ← hlen, ← List.length_reverse, List.take_left]
    have hmeasured : SpeedsMeasured time nominalVolumeMl w.own ↔
        points.map (fun span => seqSpeed (elapsed span)) =
          points.map fun span => speedOver nominalVolumeMl (elapsed span) := by
      simp [SpeedsMeasured, hresult, hresults, htake]
    rw [hmeasured, SpeedsTimed, htake, List.map_inj_left]
    simp only [seqSpeed_eq_iff hnominal, List.mem_reverse]
    obtain ⟨span, hspan⟩ : ∃ span, span ∈ points := by
      cases points with
      | nil => cases hlen
      | cons span rest => exact ⟨span, List.mem_cons_self⟩
    constructor
    · intro h
      exact ⟨(h span hspan).2, fun span hspan => (h span hspan).1⟩
    · rintro ⟨hfifty, htimes⟩ span hspan
      exact ⟨htimes span hspan, hfifty⟩

end
/-- A burette of 50 ml, timed by a clock that advances by a millisecond with every action. -/
theorem calSpeed_measures_fifty :
    (runCalSpeedSm 10 1000 10 50).Post (clocked id) .motor
      (fun _ w => SpeedMeasured id 50 w.own ↔ SpeedTimed id 10 50 w.own) ⟨0, []⟩ ∧
      (runCalSpeedSeqSm [500, 1000, 1500] 10 10 50).Post (clocked id) .motor
        (fun _ w => SpeedsMeasured id 50 w.own ↔ SpeedsTimed id 50 w.own) ⟨0, []⟩ :=
  calSpeed_measures_iff (by norm_num) id ⟨0, []⟩ 10 10 1000 [500, 1000, 1500]

/-- A full burette of 10 ml that is emptied five seconds after the clock was at zero. -/
theorem calSpeed_fullBurette :
    ¬ (runCalSpeedSm 10 1000 10 10).Post (clocked fun n => 5000 + n) .motor
      (fun _ w => SpeedMeasured (fun n => 5000 + n) 10 w.own) ⟨0, []⟩ := by
  let time : ℕ → ℕ := fun n => 5000 + n
  let surroundings : MotorView → Input × Mem := fun v => (.value (nowAt time v.own), bothFlagsSet)
  let observed : Unit × MotorView → Option ℚ × List (ℕ × ℕ) := fun p =>
    ((lastResult p.2.own).map fun q => q.1.measuredSpeedMlMin, emptyings time p.2.own)
  have hrun : ((runCalSpeedSm 10 1000 10 10).outcome motorView .motor surroundings 40
      ⟨0, []⟩).map observed = some (some (600000 / 5011), [(5000, 5011)]) := by
    decide +kernel
  intro h
  have hallowed : ∀ {β : Type} (a : Act β) v, (clocked time).allows .motor a (surroundings v) v := by
    intro β a v
    induction a with
    | xTaskGetTickCount => rfl
    | _ => trivial
  obtain ⟨⟨u, w⟩, hends, hobserved⟩ := Option.map_eq_some_iff.mp hrun
  obtain ⟨r, p, span, rest, hresult, hspans, hspeed⟩ :=
    h u w (Program.ends_of_outcome hallowed hends)
  have hread : observed (u, w) = (some r.measuredSpeedMlMin, span :: rest) := by
    simp [observed, hresult, time, hspans]
  rw [hobserved, hspeed] at hread
  simp only [Prod.mk.injEq, Option.some.injEq, List.cons.injEq] at hread
  obtain ⟨hsame, rfl, -⟩ := hread
  exact absurd hsame (by decide +kernel)

end Ecotiter
