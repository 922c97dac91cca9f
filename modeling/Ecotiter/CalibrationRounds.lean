import Mathlib.Logic.Relation
import Ecotiter.CalibrationSessions

/-!
# Rounds of the volume calibration

A round is an accepted `cal.calcVolume` and the `cal.save` after it, of which any write may fail.
It replaces the steps per millilitre and the nominal volume; their product is the steps of a full
stroke.
-/

namespace Ecotiter
open Interleaving Firmware

/-- What the client sends in a round, and the position at which the save fails, which is beyond the
writes if none does. -/
structure VolumeRound where
  massG : ℚ
  temperature : Option ℚ
  pressure : Option ℚ
  failsAt : ℕ

/-- The steps of a full stroke, as stored. -/
def NvsStore.fullStroke (s : NvsStore) : ℚ :=
  s.calibration.stepsPerMl * s.calibration.nominalVolumeMl

def Act.readsFlash : {β : Type} → Act β → Bool
  | _, .nvsOpen false => true
  | _, .nvsGet _ => true
  | _, _ => false

/-- The flash answers every read. -/
def flashReads : Assumption memory where
  allows _ _ a e _ := a.readsFlash → e.espErr = .ok
  allowsEnv _ _ := True

namespace VolumeRound

def actualVolume (r : VolumeRound) : ℚ :=
  r.massG * getZFactor (r.temperature.getD 25) (r.pressure.getD (1013 / 10))

/-- Each way in which the two commands of the round can end. -/
def Leads (r : VolumeRound) (t : Tid) (m m' : Mem) : Prop :=
  ∃ rsp m₁ rsp', (BuretteCal.handleCalcVolume (some r.massG) r.temperature r.pressure).Ends
      flashReads t m rsp m₁ ∧ rsp.kind ≠ .error ∧
    (BuretteCal.handleSaveCalibration none none).Ends (failingAt r.failsAt) t m₁ rsp' m'

/-- The record that is computed and then saved. -/
def pending (r : VolumeRound) (m : Mem) : CalibrationData :=
  { m.pendingCal with
    stepsPerMl := calculateNewStepsPerMl m.nvs.calibration.stepsPerMl
      m.nvs.calibration.nominalVolumeMl r.actualVolume
    nominalVolumeMl := r.actualVolume }

def after (r : VolumeRound) (m : Mem) : Mem :=
  if r.failsAt ≤ 6 then
    { m with
      nvs := m.nvs.written (r.pending m) (r.failsAt - 1)
      calCache := some m.nvs.calibration
      pendingCal := r.pending m }
  else
    { m with
      nvs := m.nvs.written (r.pending m) 6
      calCache := some (r.pending m)
      pendingCal := r.pending m }

/-- The save completes at least the two keys and the volume is large enough to rescale with, or it
fails between the two and the volume is too small, or nothing changes. -/
def KeepsStroke (r : VolumeRound) (cal : CalibrationData) : Prop :=
  r.failsAt ≤ 1 ∨ r.actualVolume = cal.nominalVolumeMl ∨
    (r.failsAt = 2 ∧ r.actualVolume < 1 / 10000) ∨ 3 ≤ r.failsAt ∧ 1 / 10000 ≤ r.actualVolume

end VolumeRound

section
variable {t : Tid} {m : Mem} {α β : Type} {n : ℕ}

/-- An action of which the answer is determined. -/
theorem post_answered {C : Assumption memory} {Q : α → Mem → Prop} {a : Act β}
    {next : β → Firmware α} {b : β} {m₁ : Mem} (hrun : m.aborted = false)
    (hcan : ∃ e, C.allows t a e m) (h : ∀ e, C.allows t a e m → a.run e m = (b, m₁)) :
    (Program.act a next).Post C t Q m ↔ (next b).Post C t Q m₁ := by
  have hexec : ∀ e, C.allows t a e m → memory.exec t a e m = (b, m₁) := h
  have hrunning : memory.running m = true := by simp [memory, hrun]
  rw [Program.post_act]
  constructor
  · intro hpost
    obtain ⟨e, he⟩ := hcan
    have hnext := hpost hrunning e he
    rwa [hexec e he] at hnext
  · intro hpost _ e he
    rw [hexec e he]
    exact hpost

/-- A read of a key that is answered. -/
theorem post_readKey {Q : α → Mem → Prop} {key : NvsKey β} {next : Option β → Firmware α}
    (hrun : m.aborted = false) :
    (Program.act (.nvsGet key) next).Post flashReads t Q m ↔
      (next (m.nvs.get key)).Post flashReads t Q m := by
  refine post_answered hrun ⟨.nothing, fun _ => rfl⟩ fun e he => ?_
  have hok : e.espErr = .ok := he rfl
  simp [Act.run, hok]

theorem post_calibrationRead {Q : Option CalibrationData → Mem → Prop} (hrun : m.aborted = false) :
    calibrationRead.Post flashReads t Q m ↔
      Q (some m.nvs.calibration) { m with calCache := some m.nvs.calibration } := by
  have hopen : ∀ e : Input, flashReads.allows t (.nvsOpen false) e m →
      (Act.nvsOpen false).run e m = (true, m) := fun e he => run_nvsOpen_ok (he rfl)
  refine (post_answered hrun ⟨.nothing, fun _ => rfl⟩ hopen).trans ?_
  refine (post_readKey hrun).trans ((post_readKey hrun).trans ((post_readKey hrun).trans
    ((post_readKey hrun).trans ((post_readKey hrun).trans ?_))))
  have hcache : ∀ e : Input, flashReads.allows t (.store .calCache (some m.nvs.calibration)) e m →
      (Act.store .calCache (some m.nvs.calibration)).run e m =
        ((), { m with calCache := some m.nvs.calibration }) := fun _ _ => rfl
  refine (post_answered hrun ⟨.nothing, fun h => absurd h Bool.false_ne_true⟩ hcache).trans ?_
  exact Program.post_ret

theorem post_handleSaveCalibration {Q : Mem → Prop} (hrun : m.aborted = false) :
    (BuretteCal.handleSaveCalibration none none).Post (failingAt n) t (fun _ => Q) m ↔
      if n ≤ 6 then Q { m with nvs := m.nvs.written m.pendingCal (n - 1) }
      else Q { m with nvs := m.nvs.written m.pendingCal 6, calCache := some m.pendingCal } := by
  refine (post_otherStep hrun rfl).trans ?_
  simp only [Act.run, Mem.get, forall_const]
  change (calibrationWrite m.pendingCal >>= _ : Firmware CommandResponse).Post _ _ _ m ↔ _
  rw [Program.post_bind, post_calibrationWrite hrun]
  by_cases hn : n ≤ 6
  · simp only [hn, if_true, Bool.false_eq_true, if_false, Program.post_pure]
  · simp only [hn, if_false, if_true]
    refine (post_otherStep (by exact hrun) rfl).trans ?_
    simp only [Act.run, Mem.set, forall_const]
    exact Program.post_ret

end

namespace VolumeRound
variable {r : VolumeRound} {t : Tid} {m m' : Mem}

/-- A round has one outcome. -/
theorem forall_leads_iff {Q : Mem → Prop} (hrun : m.aborted = false) (hmass : 0 < r.massG) :
    (∀ m', r.Leads t m m' → Q m') ↔ Q (r.after m) := by
  have hpost : (∀ m', r.Leads t m m' → Q m') ↔
      (BuretteCal.handleCalcVolume (some r.massG) r.temperature r.pressure).Post flashReads t
        (fun rsp m₁ => rsp.kind ≠ .error → (BuretteCal.handleSaveCalibration none none).Post
          (failingAt r.failsAt) t (fun _ => Q) m₁) m := by
    constructor
    · intro h rsp m₁ hcalc hkind rsp' m' hsave
      exact h m' ⟨rsp, m₁, rsp', hcalc, hkind, hsave⟩
    · rintro h m' ⟨rsp, m₁, rsp', hcalc, hkind, hsave⟩
      exact h rsp m₁ hcalc hkind rsp' m' hsave
  rw [hpost]
  unfold BuretteCal.handleCalcVolume
  dsimp only
  rw [if_neg (not_le.mpr hmass), Program.post_bind, post_calibrationRead hrun]
  change Program.Post flashReads t _ (Program.act (Act.assignPendingCal _) _) _ ↔ _
  refine (post_answered (by exact hrun) ⟨.nothing, fun h => absurd h Bool.false_ne_true⟩
    fun _ _ => rfl).trans ?_
  refine Program.post_ret.trans ?_
  refine (imp_iff_right ResponseKind.single_ne_error).trans ?_
  refine (post_handleSaveCalibration (by exact hrun)).trans ?_
  unfold after
  split <;> exact Iff.rfl

theorem Leads.eq (h : r.Leads t m m') (hrun : m.aborted = false) (hmass : 0 < r.massG) :
    m' = r.after m :=
  (forall_leads_iff (Q := (· = r.after m)) hrun hmass).mpr rfl m' h

theorem running_after (hrun : m.aborted = false) : (r.after m).aborted = false := by
  unfold after
  split <;> exact hrun

/-- The stored calibration after a round. -/
theorem calibration_after : (r.after m).nvs.calibration.stepsPerMl =
      (if r.failsAt ≤ 1 then m.nvs.calibration.stepsPerMl else (r.pending m).stepsPerMl) ∧
    (r.after m).nvs.calibration.nominalVolumeMl =
      (if r.failsAt ≤ 2 then m.nvs.calibration.nominalVolumeMl else r.actualVolume) := by
  obtain ⟨k, hk, hnvs⟩ : ∃ k, (1 < r.failsAt ↔ 0 < k) ∧ (2 < r.failsAt ↔ 1 < k) ∧
      (r.after m).nvs = m.nvs.written (r.pending m) k := by
    unfold after
    by_cases hn : r.failsAt ≤ 6
    · rw [if_pos hn]
      exact ⟨r.failsAt - 1, by omega, by omega, rfl⟩
    · rw [if_neg hn]
      exact ⟨6, by omega, by omega, rfl⟩
  rw [hnvs.2]
  constructor
  · have hsame := m.nvs.same_written (r.pending m) k .stepsPerMl
    by_cases h : r.failsAt ≤ 1
    · rw [if_pos h]
      exact hsame.2 (by omega)
    · rw [if_neg h]
      exact hsame.1 (hk.mp (not_le.mp h))
  · have hsame := m.nvs.same_written (r.pending m) k .nominalVol
    by_cases h : r.failsAt ≤ 2
    · rw [if_pos h]
      exact hsame.2 (not_lt.mp (mt hnvs.1.mpr (not_lt.mpr h)))
    · rw [if_neg h]
      exact hsame.1 (hnvs.1.mp (not_le.mp h))

theorem actualVolume_pos (hmass : 0 < r.massG) : 0 < r.actualVolume :=
  mul_pos hmass (getZFactor_pos _ _)

/-- The helper rescales the steps to the volume unless it takes it for too small. -/
theorem calculateNewStepsPerMl_eq_iff {spm target actual : ℚ} (hspm : 0 < spm)
    (hactual : 0 < actual) :
    calculateNewStepsPerMl spm target actual = spm ↔ actual = target ∨ actual < 1 / 10000 := by
  unfold calculateNewStepsPerMl
  by_cases h : actual < 1 / 10000
  · rw [if_pos h]
    exact iff_of_true rfl (.inr h)
  · rw [if_neg h, or_iff_left h, div_eq_iff hactual.ne', mul_right_inj' hspm.ne']
    exact eq_comm

theorem calculateNewStepsPerMl_mul_eq_iff {spm target actual : ℚ} (hspm : 0 < spm)
    (hactual : 0 < actual) :
    calculateNewStepsPerMl spm target actual * actual = spm * target ↔
      actual = target ∨ 1 / 10000 ≤ actual := by
  unfold calculateNewStepsPerMl
  by_cases h : actual < 1 / 10000
  · rw [if_pos h, or_iff_left (not_le.mpr h), mul_right_inj' hspm.ne']
  · rw [if_neg h, div_mul_cancel₀ _ hactual.ne']
    exact iff_of_true rfl (.inr (not_lt.mp h))

/-- One round keeps the stroke exactly under its condition. -/
theorem fullStroke_after_iff (hmass : 0 < r.massG) (hspm : 0 < m.nvs.calibration.stepsPerMl)
    (hnom : 0 < m.nvs.calibration.nominalVolumeMl) :
    (r.after m).nvs.fullStroke = m.nvs.fullStroke ↔ r.KeepsStroke m.nvs.calibration := by
  have hactual := actualVolume_pos hmass
  unfold NvsStore.fullStroke
  rw [calibration_after.1, calibration_after.2]
  change (if _ then _ else calculateNewStepsPerMl _ _ r.actualVolume) * _ = _ ↔ _
  unfold KeepsStroke
  obtain hn | hn | hn : r.failsAt ≤ 1 ∨ r.failsAt = 2 ∨ 3 ≤ r.failsAt := by omega
  · rw [if_pos hn, if_pos (by omega)]
    exact iff_of_true rfl (.inl hn)
  · rw [if_neg (by omega), if_pos (by omega), mul_left_inj' hnom.ne',
      calculateNewStepsPerMl_eq_iff hspm hactual]
    simp [hn]
  · have hone : ¬ r.failsAt ≤ 1 := by omega
    have htwo : r.failsAt ≠ 2 := by omega
    rw [if_neg hone, if_neg (by omega), calculateNewStepsPerMl_mul_eq_iff hspm hactual]
    simp [hn, hone, htwo]

theorem positive_after (hmass : 0 < r.massG) (hspm : 0 < m.nvs.calibration.stepsPerMl)
    (hnom : 0 < m.nvs.calibration.nominalVolumeMl) :
    0 < (r.after m).nvs.calibration.stepsPerMl ∧
      0 < (r.after m).nvs.calibration.nominalVolumeMl := by
  have hactual := actualVolume_pos hmass
  rw [calibration_after.1, calibration_after.2]
  constructor
  · split
    · exact hspm
    · exact calculateNewStepsPerMl_pos hspm hnom hactual
  · split
    · exact hnom
    · exact hactual

instance (cal : CalibrationData) : Decidable (r.KeepsStroke cal) :=
  inferInstanceAs (Decidable (_ ∨ _))

/-- A round that meets its condition. -/
def Conserves (t : Tid) (m m' : Mem) : Prop :=
  ∃ r : VolumeRound, 0 < r.massG ∧ r.KeepsStroke m.nvs.calibration ∧ r.Leads t m m'

theorem conserves_rounds (hrun : m.aborted = false) (hspm : 0 < m.nvs.calibration.stepsPerMl)
    (hnom : 0 < m.nvs.calibration.nominalVolumeMl)
    (h : Relation.ReflTransGen (Conserves t) m m') :
    m'.nvs.fullStroke = m.nvs.fullStroke ∧ m'.aborted = false ∧
      0 < m'.nvs.calibration.stepsPerMl ∧ 0 < m'.nvs.calibration.nominalVolumeMl := by
  induction h with
  | refl => exact ⟨rfl, hrun, hspm, hnom⟩
  | tail _ hround ih =>
    obtain ⟨hstroke, hrun, hspm, hnom⟩ := ih
    obtain ⟨r, hmass, hkeeps, hleads⟩ := hround
    obtain rfl := hleads.eq hrun hmass
    exact ⟨((fullStroke_after_iff hmass hspm hnom).mpr hkeeps).trans hstroke,
      running_after hrun, positive_after hmass hspm hnom⟩

end VolumeRound
open VolumeRound

/-- A round keeps the steps of a full stroke exactly if the actual volume is at least 0.0001 ml or
the stored one and the save is not cut short between the two keys, or the other way round; any
number of such rounds keeps them. -/
theorem volumeRounds_keepStroke {m : Mem} (t : Tid) (hrun : m.aborted = false)
    (hspm : 0 < m.nvs.calibration.stepsPerMl) (hnom : 0 < m.nvs.calibration.nominalVolumeMl) :
    (∀ r : VolumeRound, 0 < r.massG →
      ((∀ m', r.Leads t m m' → m'.nvs.fullStroke = m.nvs.fullStroke) ↔
        r.KeepsStroke m.nvs.calibration)) ∧
      ∀ m', Relation.ReflTransGen (Conserves t) m m' → m'.nvs.fullStroke = m.nvs.fullStroke := by
  refine ⟨fun r hmass => ?_, fun m' h => (conserves_rounds hrun hspm hnom h).1⟩
  exact (forall_leads_iff hrun hmass).trans (fullStroke_after_iff hmass hspm hnom)

/-- From the defaults, a round with 8 g that completes its save and any number of such rounds. -/
theorem volumeRounds_keepStroke_default :
    (∀ m', VolumeRound.Leads ⟨8, none, none, 7⟩ .main (Boot.world {}).mem m' →
      m'.nvs.fullStroke = (Boot.world {}).mem.nvs.fullStroke) ∧
      ∀ m', Relation.ReflTransGen (Conserves .main) (Boot.world {}).mem m' →
        m'.nvs.fullStroke = (Boot.world {}).mem.nvs.fullStroke := by
  obtain ⟨hround, hrounds⟩ := volumeRounds_keepStroke (m := (Boot.world {}).mem) .main rfl
    CalibrationData.default_pos.1 CalibrationData.default_pos.2.1
  exact ⟨(hround ⟨8, none, none, 7⟩ (by norm_num)).mpr (by decide +kernel), hrounds⟩

/-- A mass of 0.00005 g: the steps per millilitre stay, the nominal volume does not. -/
theorem volumeRound_tiny :
    ¬ ∀ (r : VolumeRound) (m m' : Mem), m.aborted = false → 0 < m.nvs.calibration.stepsPerMl →
      0 < m.nvs.calibration.nominalVolumeMl → 0 < r.massG → r.Leads .main m m' →
      m'.nvs.fullStroke = m.nvs.fullStroke := by
  intro h
  let r : VolumeRound := ⟨1 / 20000, none, none, 7⟩
  have hmass : 0 < r.massG := one_div_pos.mpr (by norm_num)
  have hspm : 0 < (Boot.world {}).mem.nvs.calibration.stepsPerMl := CalibrationData.default_pos.1
  have hnom : 0 < (Boot.world {}).mem.nvs.calibration.nominalVolumeMl :=
    CalibrationData.default_pos.2.1
  have hkept := (forall_leads_iff rfl hmass).mp fun m' => h r _ m' rfl hspm hnom hmass
  have hkeeps := (fullStroke_after_iff hmass hspm hnom).mp hkept
  revert hkeeps
  decide +kernel

end Ecotiter
