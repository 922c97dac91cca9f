import Ecotiter.DivisionSafety
import Ecotiter.StepCount

/-!
# The steps a dose calibration publishes

The runner of the dose calibration empties the burette and publishes the steps of the emptying as
the difference of two readings of the position counter. The first is taken after the initial fill;
where the burette counts as full there is no fill, and the difference is that to zero.
-/

namespace Ecotiter
open Interleaving Firmware

/-- The position at the start of the latest emptying motion, which sets the direction pin. -/
def emptyingStart : List Event → Option ℤ
  | .did _ (.gpioSetLevel .dir level) _ m :: past =>
    if level = Direction.liqOut.level then some m.position else emptyingStart past
  | _ :: past => emptyingStart past
  | [] => none

/-- The latest result, with the position at which it was published. -/
def lastResult : List Event → Option (SmResult × ℤ)
  | .did _ (.xQueueOverwrite r) _ m :: _ => some (r, m.position)
  | _ :: past => lastResult past
  | [] => none

/-- The published steps are those between the positions before and after the emptying. -/
def CountsEmptied (own : List Event) : Prop :=
  ∃ before r after, emptyingStart own = some before ∧ lastResult own = some (r, after) ∧
    r.stepsTaken = (after - before).natAbs

/-- The actions of a stroke after its direction has been set. -/
def Act.keepsStart : {β : Type} → Act β → Bool
  | _, .gpioSetLevel .dir _ | _, .xQueueOverwrite _ | _, .positionStore _ => false
  | _, _ => true

/-- The actions that leave the position in the range of an `int32_t`. -/
def Act.keepsRange : {β : Type} → Act β → Bool
  | _, .positionStore _ => false
  | _, _ => true

section
variable {α β : Type} {v : MotorView} {D : Assumption motorView} {Q : α → MotorView → Prop}
  {speedHz : ℕ}

theorem Act.keepsStart_of_ofChunk (a : Act β) (h : a.ofChunk) : a.keepsStart := by
  induction a with
  | gpioSetLevel pin level => cases pin <;> first | rfl | cases h
  | _ => first | rfl | cases h

theorem Act.keepsRange_of_keepsStart (a : Act β) (h : a.keepsStart) : a.keepsRange := by
  induction a with
  | positionStore n => cases h
  | _ => rfl

theorem MotorView.range_did {a : Act β} (h : a.keepsRange) {t : Tid} {x : Input × Mem}
    (hv : toI32 v.position = v.position) :
    toI32 (v.did t a x).position = (v.did t a x).position := by
  by_cases hmoves : a.movesPosition = false
  · have hsame : (v.did t a x).position = v.position := a.position_of_keeps hmoves _ _
    rw [hsame]
    exact hv
  · induction a with
    | positionFetchAdd n => exact Int.bmod_bmod
    | positionStore n => cases h
    | _ => exact absurd rfl hmoves

theorem MotorView.emptyingStart_did {a : Act β} (h : a.keepsStart) {t : Tid} {x : Input × Mem} :
    emptyingStart (v.did t a x).own = emptyingStart v.own := by
  induction a with
  | gpioSetLevel pin level => cases pin <;> first | rfl | cases h
  | _ => rfl

theorem keepsRange_strokeRule (speedHz : ℕ) : StrokeRule Act.keepsRange speedHz where
  drive a h := by
    induction a with
    | positionStore n => cases h
    | _ => rfl
  valve _ := rfl
  position _ := rfl
  settle _ := rfl
  abort := .inr rfl

theorem post_moveFill (hv : toI32 v.position = v.position) :
    (moveFill speedHz).Post D .motor (fun _ w => toI32 w.position = w.position) v :=
  (keepsRange_strokeRule speedHz).only_moveFill.post (fun _ _ _ ha => MotorView.range_did ha) hv

/-- The emptying starts at the position the stroke finds. -/
theorem post_moveEmpty (hv : toI32 v.position = v.position) :
    (moveEmpty speedHz).Post D .motor
      (fun _ w => emptyingStart w.own = some v.position ∧ toI32 w.position = w.position) v := by
  let S : {β : Type} → Act β → Bool := fun a => !a.movesPosition
  have hS : ∀ {β : Type} (a : Act β) (x : Input × Mem) (w : MotorView), S a = true →
      w.position = v.position → (motorView.exec .motor a x w).2.position = v.position := by
    intro β a x w ha hw
    exact (a.position_of_keeps (Bool.not_eq_true' _ ▸ ha) _ _).trans hw
  have hvalve : (setValve .output).Only S := .andThen rfl fun _ => ⟨rfl, fun _ => trivial⟩
  have hsettle : (settleValve .stopEmpty).Only S := only_settle rfl rfl
  refine Program.post_bind.mpr ((hvalve.post hS rfl).mono fun _ v₁ hv₁ => ?_)
  refine Program.post_bind.mpr ((hsettle.post hS hv₁).mono fun _ v₂ hv₂ => ?_)
  refine Program.post_act.mpr fun _ x₃ _ => ?_
  have hv₃ := hS (.store .buretteState .emptying) x₃ v₂ rfl hv₂
  generalize (motorView.exec .motor (Act.store .buretteState .emptying) x₃ v₂).2 = v₃ at hv₃
  change Program.Post D .motor _ (moveToEndstop .liqOut speedHz .stopEmpty) v₃
  rw [moveToEndstop_eq]
  refine Program.post_act.mpr fun _ x₄ _ => ?_
  let v₄ := v₃.did .motor (.gpioSetLevel .dir Direction.liqOut.level) x₄
  let I : MotorView → Prop := fun w =>
    emptyingStart w.own = some v.position ∧ toI32 w.position = w.position
  have hv₄ : I v₄ := by
    have hrange : toI32 v₃.position = v₃.position := by rw [hv₃]; exact hv
    exact ⟨congrArg some hv₃, MotorView.range_did rfl hrange⟩
  have hI : ∀ {β : Type} (a : Act β) (x : Input × Mem) (w : MotorView), a.keepsStart = true →
      I w → I (motorView.exec .motor a x w).2 := by
    intro β a x w ha hw
    exact ⟨(MotorView.emptyingStart_did ha).trans hw.1,
      MotorView.range_did (a.keepsRange_of_keepsStart ha) hw.2⟩
  have hdrive : (do driveToEndstop speedHz .stopEmpty; StepperMotor.enable : Firmware Unit).Only
      Act.keepsStart :=
    (only_driveToEndstop Act.keepsStart_of_ofChunk rfl (.inr rfl)).bind
      fun _ => ⟨rfl, fun _ => trivial⟩
  exact hdrive.post hI hv₄

end

/-- What the runner makes of two readings of the position counter. -/
def stepsCounted (before after : ℤ) : ℤ :=
  if 0 < toI32 (after - before) then toI32 (after - before) else toI32 (-toI32 (after - before))

theorem toI32_range (x : ℤ) : -2 ^ 31 ≤ toI32 x ∧ toI32 x < 2 ^ 31 := by
  have hlow : -(((2 ^ 32 : ℕ) : ℤ) / 2) ≤ toI32 x := Int.le_bmod (by decide)
  have hhigh : toI32 x < (((2 ^ 32 : ℕ) : ℤ) + 1) / 2 := Int.bmod_lt (by decide)
  omega

/-- The readings count the steps between them unless the counter wrapped there. -/
theorem stepsCounted_eq_iff {before after : ℤ} :
    stepsCounted before after = (after - before).natAbs ↔ (after - before).natAbs < 2 ^ 31 := by
  have hr := toI32_range (after - before)
  have hn := toI32_range (-toI32 (after - before))
  unfold stepsCounted
  constructor
  · intro h
    split at h <;> omega
  · intro h
    have hsame : toI32 (after - before) = after - before := toI32_eq (by omega) (by omega)
    rw [hsame]
    split
    · omega
    · rw [toI32_eq (by omega) (by omega)]
      omega

/-- The reading after the emptying counts its steps only from zero. -/
theorem stepsCounted_zero_iff {before after : ℤ} (hafter : toI32 after = after) :
    stepsCounted 0 after = (after - before).natAbs ↔
      after ≠ -2 ^ 31 ∧ (before = 0 ∨ before = 2 * after) := by
  have ha := toI32_range after
  rw [hafter] at ha
  unfold stepsCounted
  rw [Int.sub_zero, hafter]
  by_cases hpos : 0 < after
  · rw [if_pos hpos]
    omega
  · rw [if_neg hpos]
    by_cases hlow : after = -2 ^ 31
    · subst hlow
      have hwrap : toI32 (-(-2 ^ 31)) = -2 ^ 31 := by decide
      rw [hwrap]
      omega
    · rw [toI32_eq (by omega) (by omega)]
      omega

section
variable {v : MotorView} {D : Assumption motorView} {speedMlMin currentVolumeMl nominalVolumeMl : ℚ}

/-- The steps of a dose calibration are counted from the position before the emptying after an
initial fill, and from zero otherwise. -/
theorem post_runCalDoseSm (hv : toI32 v.position = v.position) :
    (runCalDoseSm speedMlMin currentVolumeMl nominalVolumeMl).Post D .motor
      (fun _ w => ∃ before r after, emptyingStart w.own = some before ∧
        lastResult w.own = some (r, after) ∧ toI32 before = before ∧ toI32 after = after ∧
        r.type = .calDoseComplete ∧ r.stepsTaken =
          stepsCounted (if currentVolumeMl < nominalVolumeMl - 1 / 10 then before else 0) after)
      v := by
  have hempty : ∀ (sm : CalDoseSm) w, toI32 w.position = w.position →
      (do let emptied ← calDoseEmpty (mlMinToHz speedMlMin) (.emptyToLimit, sm)
          if emptied.1 = .complete then storeResult .calDoseComplete emptied.2.stepsTaken 0 [] 0
          else storeResult .error 0 0 [] 0 : Firmware Unit).Post D .motor
        (fun _ w' => ∃ r after, emptyingStart w'.own = some w.position ∧
          lastResult w'.own = some (r, after) ∧ toI32 after = after ∧
          r.type = .calDoseComplete ∧ r.stepsTaken = stepsCounted sm.stepsBefore after) w := by
    intro sm w hw
    change Program.Post D .motor _ ((moveEmpty (mlMinToHz speedMlMin)).bind _ >>= _) w
    rw [Program.bind_eq, Program.bind_assoc]
    refine Program.post_bind.mpr ((post_moveEmpty hw).mono fun _ w₁ h₁ => ?_)
    obtain ⟨hstart, hrange⟩ := h₁
    refine Program.post_act.mpr fun _ x₂ _ => ?_
    refine Program.post_act.mpr fun _ x₃ _ => ?_
    refine Program.post_act.mpr fun _ x₄ _ => ?_
    refine Program.post_act.mpr fun _ x₅ _ => Program.post_ret.mpr ?_
    exact ⟨_, _, hstart, rfl, hrange, rfl, rfl⟩
  by_cases hfill : currentVolumeMl < nominalVolumeMl - 1 / 10
  · have hstarted : CalDoseSm.start.onStart currentVolumeMl nominalVolumeMl =
        (.fillToLimit, { CalDoseSm.start with phase := .filling }) := if_pos hfill
    simp only [runCalDoseSm, hstarted, if_pos hfill]
    change Program.Post D .motor _ ((moveFill (mlMinToHz speedMlMin)).bind _ >>= _) v
    rw [Program.bind_eq, Program.bind_assoc]
    refine Program.post_bind.mpr ((post_moveFill hv).mono fun _ v₁ hv₁ => ?_)
    refine Program.post_act.mpr fun _ x _ =>
      (hempty _ (v₁.did .motor .positionLoad x) hv₁).mono fun _ w hw => ?_
    obtain ⟨r, after, hstart, hresult, hrange, htype, hsteps⟩ := hw
    exact ⟨v₁.position, r, after, hstart, hresult, hv₁, hrange, htype, hsteps⟩
  · have hstarted : CalDoseSm.start.onStart currentVolumeMl nominalVolumeMl =
        (.emptyToLimit, { CalDoseSm.start with phase := .emptying }) := if_neg hfill
    simp only [runCalDoseSm, hstarted, if_neg hfill]
    refine (hempty _ _ hv).mono fun _ w hw => ?_
    obtain ⟨r, after, hstart, hresult, hrange, htype, hsteps⟩ := hw
    exact ⟨v.position, r, after, hstart, hresult, hv, hrange, htype, hsteps⟩

end

/-- After an initial fill the counter has not wrapped during the emptying; without one the emptying
has started at zero, or at twice the position it ended at. -/
def DoseCounted (currentVolumeMl nominalVolumeMl : ℚ) (own : List Event) : Prop :=
  ∃ before r after, emptyingStart own = some before ∧ lastResult own = some (r, after) ∧
    if currentVolumeMl < nominalVolumeMl - 1 / 10 then (after - before).natAbs < 2 ^ 31
    else after ≠ -2 ^ 31 ∧ (before = 0 ∨ before = 2 * after)

/-- Every dose calibration publishes a result, and it counts the emptied steps exactly if the
position was recorded before the emptying and has not wrapped, or if it was zero there. -/
theorem calDose_counts_iff {v : MotorView} (hv : toI32 v.position = v.position)
    (speedMlMin currentVolumeMl nominalVolumeMl : ℚ) :
    (runCalDoseSm speedMlMin currentVolumeMl nominalVolumeMl).Post (.any motorView) .motor
      (fun _ w => (∃ r after, lastResult w.own = some (r, after) ∧ r.type = .calDoseComplete) ∧
        (CountsEmptied w.own ↔ DoseCounted currentVolumeMl nominalVolumeMl w.own)) v := by
  refine (post_runCalDoseSm hv).mono fun _ w hw => ?_
  obtain ⟨before, r, after, hstart, hresult, hbefore, hafter, htype, hsteps⟩ := hw
  refine ⟨⟨r, after, hresult, htype⟩, ?_⟩
  have hcounts : CountsEmptied w.own ↔ r.stepsTaken = (after - before).natAbs := by
    simp [CountsEmptied, hstart, hresult]
  have hcounted : DoseCounted currentVolumeMl nominalVolumeMl w.own ↔
      if currentVolumeMl < nominalVolumeMl - 1 / 10 then (after - before).natAbs < 2 ^ 31
      else after ≠ -2 ^ 31 ∧ (before = 0 ∨ before = 2 * after) := by
    simp [DoseCounted, hstart, hresult]
  rw [hcounts, hcounted, hsteps]
  by_cases hfill : currentVolumeMl < nominalVolumeMl - 1 / 10
  · rw [if_pos hfill, if_pos hfill]
    exact stepsCounted_eq_iff
  · rw [if_neg hfill, if_neg hfill]
    exact stepsCounted_zero_iff hafter

/-- A calibration from the home position. -/
theorem calDose_counts_home :
    (runCalDoseSm 10 10 10).Post (.any motorView) .motor
      (fun _ w => (∃ r after, lastResult w.own = some (r, after) ∧ r.type = .calDoseComplete) ∧
        (CountsEmptied w.own ↔ DoseCounted 10 10 w.own)) ⟨0, []⟩ :=
  calDose_counts_iff (by decide) 10 10 10

/-- The memory while both stop flags are set. -/
def bothFlagsSet : Mem :=
  { full := { level := true }, empty := { level := true }, stopFull := true, stopEmpty := true }

/-- A full burette at position 100 that is already at the switch: no step is made, and a hundred are
published. -/
theorem calDose_fullBurette :
    ¬ (runCalDoseSm 10 10 10).Post (.any motorView) .motor (fun _ w => CountsEmptied w.own)
      ⟨100, []⟩ := by
  let observed : Unit × MotorView → Option ℤ × Option (ℤ × ℤ) := fun p =>
    (emptyingStart p.2.own, (lastResult p.2.own).map fun q => (q.1.stepsTaken, q.2))
  have hrun : ((runCalDoseSm 10 10 10).outcome motorView .motor (fun _ => (.nothing, bothFlagsSet))
      40 ⟨100, []⟩).map observed = some (some 100, some (100, 100)) := by
    decide +kernel
  intro h
  obtain ⟨⟨u, w⟩, hends, hobserved⟩ := Option.map_eq_some_iff.mp hrun
  obtain ⟨before, r, after, hstart, hresult, hsteps⟩ :=
    h u w (Program.ends_of_outcome (fun _ _ => trivial) hends)
  have hread : observed (u, w) = (some before, some (r.stepsTaken, after)) := by
    simp [observed, hstart, hresult]
  rw [hobserved, hsteps] at hread
  simp only [Prod.mk.injEq, Option.some.injEq] at hread
  omega

end Ecotiter
