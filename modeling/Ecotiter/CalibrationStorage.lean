import Mathlib.Tactic.NormNum
import Ecotiter.SequentialRuns

/-!
# The calibration in the flash

`calibrationWrite` writes six keys one after the other, each of which takes full effect or none, and
gives up at the first that fails. What `calibrationRead` returns later depends on the keys, with the
defaults for those that are missing.
-/

namespace Ecotiter
open Interleaving Firmware

theorem CalibrationData.default_pos : 0 < CalibrationData.default.stepsPerMl ∧
    0 < CalibrationData.default.nominalVolumeMl ∧ 0 < CalibrationData.default.speedCoeff := by
  norm_num [CalibrationData.default_stepsPerMl, CalibrationData.default_nominalVolumeMl,
    CalibrationData.default_speedCoeff]

theorem CalibrationData.default_speedCoeff_le :
    1 / 1000000 ≤ CalibrationData.default.speedCoeff := by
  norm_num [CalibrationData.default_speedCoeff]

theorem CalibrationData.default_nominalVolumeMl_le :
    1 / 1000 ≤ CalibrationData.default.nominalVolumeMl := by
  norm_num [CalibrationData.default_nominalVolumeMl]

/-- What `calibrationRead` makes of the flash. -/
def NvsStore.calibration (s : NvsStore) : CalibrationData where
  stepsPerMl := s.stepsPerMl.getD CalibrationData.kDefaultStepsPerMl
  nominalVolumeMl := s.nominalVol.getD CalibrationData.kDefaultNominalVolumeMl
  speedCoeff := s.speedCoeff.getD CalibrationData.kDefaultSpeedCoeff
  minFreqHz := (s.minFreq.map (· % 2 ^ 16)).getD CalibrationData.kDefaultMinFreqHz
  maxFreqHz := (s.maxFreq.map (· % 2 ^ 16)).getD CalibrationData.kDefaultMaxFreqHz

/-- The fields of a calibration, in the order in which they are written. -/
inductive CalField
  | stepsPerMl | nominalVol | speedCoeff | minFreq | maxFreq
  deriving DecidableEq, Repr

namespace CalField

/-- The place of the field among the key writes. -/
def index : CalField → ℕ
  | .stepsPerMl => 0
  | .nominalVol => 1
  | .speedCoeff => 2
  | .minFreq => 3
  | .maxFreq => 4

/-- Two calibrations agree in the field. The limits are `uint16_t`. -/
def Same : CalField → CalibrationData → CalibrationData → Prop
  | .stepsPerMl, a, b => b.stepsPerMl = a.stepsPerMl
  | .nominalVol, a, b => b.nominalVolumeMl = a.nominalVolumeMl
  | .speedCoeff, a, b => b.speedCoeff = a.speedCoeff
  | .minFreq, a, b => b.minFreqHz % 2 ^ 16 = a.minFreqHz % 2 ^ 16
  | .maxFreq, a, b => b.maxFreqHz % 2 ^ 16 = a.maxFreqHz % 2 ^ 16

theorem Same.trans {f : CalField} {a b c : CalibrationData} (h : f.Same a b) (h' : f.Same b c) :
    f.Same a c := by
  cases f <;> exact Eq.trans h' h

theorem Same.of_same {f : CalField} {a b c : CalibrationData} (h : f.Same b c) (h' : f.Same a c) :
    f.Same a b := by
  cases f <;> exact (Eq.symm h).trans h'

instance (f : CalField) (a b : CalibrationData) : Decidable (f.Same a b) := by
  cases f <;> exact inferInstanceAs (Decidable (_ = _))

end CalField

/-- The writes of the keys of a calibration, in order. -/
def CalibrationData.keyWrites (cal : CalibrationData) : List (NvsStore → NvsStore) :=
  [(·.set .stepsPerMl cal.stepsPerMl), (·.set .nominalVol cal.nominalVolumeMl),
    (·.set .speedCoeff cal.speedCoeff), (·.set .minFreq cal.minFreqHz),
    (·.set .maxFreq cal.maxFreqHz), (·.set .calDate 0)]

/-- The flash after the first `n` keys have been written. -/
def NvsStore.written (s : NvsStore) (cal : CalibrationData) (n : ℕ) : NvsStore :=
  (cal.keyWrites.take n).foldl (fun s write => write s) s

/-- The keys written so far read as the new calibration, the others as before. -/
theorem NvsStore.same_written (s : NvsStore) (cal : CalibrationData) (n : ℕ) (f : CalField) :
    (f.index < n → f.Same cal (s.written cal n).calibration) ∧
      (n ≤ f.index → f.Same s.calibration (s.written cal n).calibration) := by
  rcases n with _ | _ | _ | _ | _ | _ | n <;> cases f <;>
    simp [written, CalibrationData.keyWrites, calibration, set, CalField.Same, CalField.index]

/-- The position of an action among those that can fail in a write: opening the flash is the first,
the keys follow in their order. -/
def Act.writePosition : {β : Type} → Act β → Option ℕ
  | _, .nvsOpen true => some 0
  | _, .nvsSet .stepsPerMl _ => some 1
  | _, .nvsSet .nominalVol _ => some 2
  | _, .nvsSet .speedCoeff _ => some 3
  | _, .nvsSet .minFreq _ => some 4
  | _, .nvsSet .maxFreq _ => some 5
  | _, .nvsSet .calDate _ => some 6
  | _, _ => none

/-- The flash fails at one position of a write and nowhere before it. -/
def failingAt (n : ℕ) : Assumption memory where
  allows _ _ a e _ := ∀ k ∈ a.writePosition, e.espErr = .ok ↔ k ≠ n
  allowsEnv _ _ := True

section
variable {t : Tid} {m : Mem} {n : ℕ} {cal : CalibrationData}

/-- A step of a write that fails without effect or succeeds. -/
theorem post_unlessFailed {C : Assumption memory} {Q : Bool → Mem → Prop} {a : Act Bool}
    {rest : Firmware Bool} {m' : Mem} (hrun : m.aborted = false)
    (hok : ∀ e : Input, e.espErr = .ok → a.run e m = (true, m'))
    (hfails : ∀ e : Input, e.espErr ≠ .ok → a.run e m = (false, m)) :
    (do if !(← Program.perform a) then return false else rest : Firmware Bool).Post C t Q m ↔
      ((∃ e : Input, C.allows t a e m ∧ e.espErr ≠ .ok) → Q false m) ∧
        ((∃ e : Input, C.allows t a e m ∧ e.espErr = .ok) → rest.Post C t Q m') := by
  have hact : (do if !(← Program.perform a) then return false else rest : Firmware Bool).Post
      C t Q m ↔ ∀ e : Input, C.allows t a e m →
        (if !(a.run e m).1 then pure false else rest : Firmware Bool).Post C t Q
          (a.run e m).2 := by
    refine Program.post_act.trans ?_
    simp only [memory, hrun, Bool.not_false, Bool.not_eq_true', forall_const]
    exact Iff.rfl
  rw [hact]
  constructor
  · intro h
    constructor
    · rintro ⟨e, he, hfail⟩
      have hpost := h e he
      rw [hfails e hfail] at hpost
      exact Program.post_ret.mp hpost
    · rintro ⟨e, he, hfine⟩
      have hpost := h e he
      rwa [hok e hfine] at hpost
  · intro h e he
    by_cases hfine : e.espErr = .ok
    · rw [hok e hfine]
      exact h.2 ⟨e, he, hfine⟩
    · rw [hfails e hfine]
      exact Program.post_ret.mpr (h.1 ⟨e, he, hfine⟩)

/-- In a write that fails at one position. -/
theorem post_failingAt {Q : Bool → Mem → Prop} {a : Act Bool} {rest : Firmware Bool} {m' : Mem}
    {k : ℕ} (hrun : m.aborted = false) (hk : a.writePosition = some k)
    (hok : ∀ e : Input, e.espErr = .ok → a.run e m = (true, m'))
    (hfails : ∀ e : Input, e.espErr ≠ .ok → a.run e m = (false, m)) :
    (do if !(← Program.perform a) then return false else rest : Firmware Bool).Post
        (failingAt n) t Q m ↔
      if k = n then Q false m else rest.Post (failingAt n) t Q m' := by
  have hallows : ∀ e, (failingAt n).allows t a e m ↔ (e.espErr = .ok ↔ k ≠ n) := by
    simp [failingAt, hk]
  rw [post_unlessFailed hrun hok hfails]
  simp only [hallows]
  by_cases hkn : k = n
  · have hfail : ∃ e : Input, (e.espErr = .ok ↔ k ≠ n) ∧ e.espErr ≠ .ok :=
      ⟨.err .fail, iff_of_false nofun fun hne => hne hkn, nofun⟩
    rw [if_pos hkn]
    exact ⟨fun h => h.1 hfail, fun h => ⟨fun _ => h, fun ⟨_, he, hok⟩ => absurd hkn (he.mp hok)⟩⟩
  · have hfine : ∃ e : Input, (e.espErr = .ok ↔ k ≠ n) ∧ e.espErr = .ok :=
      ⟨.nothing, iff_of_true rfl hkn, rfl⟩
    rw [if_neg hkn]
    exact ⟨fun h => h.2 hfine, fun h => ⟨fun ⟨_, he, hne⟩ => absurd (he.mpr hkn) hne, fun _ => h⟩⟩

/-- In a write of which every step can fail. -/
theorem leaves_unlessFailed {Q : Bool → Mem → Prop} {a : Act Bool} {rest : Firmware Bool}
    {m' : Mem} (hrun : m.aborted = false)
    (hok : ∀ e : Input, e.espErr = .ok → a.run e m = (true, m'))
    (hfails : ∀ e : Input, e.espErr ≠ .ok → a.run e m = (false, m)) :
    Leaves t Q (do if !(← Program.perform a) then return false else rest) m ↔
      Q false m ∧ Leaves t Q rest m' := by
  refine (post_unlessFailed hrun hok hfails).trans (and_congr ?_ ?_)
  · exact imp_iff_right ⟨.err .fail, trivial, nofun⟩
  · exact imp_iff_right ⟨.nothing, trivial, rfl⟩

/-- An action that is no part of a write. -/
theorem post_otherStep {α β : Type} {Q : α → Mem → Prop} {a : Act β} {next : β → Firmware α}
    (hrun : m.aborted = false) (ha : a.writePosition = none) :
    (Program.act a next).Post (failingAt n) t Q m ↔
      ∀ e : Input, (next (a.run e m).1).Post (failingAt n) t Q (a.run e m).2 := by
  simp [memory, failingAt, hrun, ha]

section Keys
variable {β : Type} {key : NvsKey β} {x : β} {e : Input}

theorem run_nvsSet_ok (h : e.espErr = .ok) :
    (Act.nvsSet key x).run e m = (true, { m with nvs := m.nvs.set key x }) := by
  simp [Act.run, h]

theorem run_nvsSet_fails (h : e.espErr ≠ .ok) : (Act.nvsSet key x).run e m = (false, m) := by
  simp [Act.run, h]

theorem run_nvsOpen_ok {write : Bool} (h : e.espErr = .ok) :
    (Act.nvsOpen write).run e m = (true, m) := by
  simp [Act.run, h]

theorem run_nvsOpen_fails {write : Bool} (h : e.espErr ≠ .ok) :
    (Act.nvsOpen write).run e m = (false, m) := by
  simp [Act.run, h]

end Keys

/-- A key write in a write that fails at one position. -/
theorem post_writeKey {Q : Bool → Mem → Prop} {β : Type} {key : NvsKey β} {x : β}
    {rest : Firmware Bool} {s : NvsStore} {k : ℕ} (hrun : m.aborted = false)
    (hk : (Act.nvsSet key x).writePosition = some k) :
    (do if !(← Program.perform (.nvsSet key x)) then return false else rest : Firmware Bool).Post
        (failingAt n) t Q { m with nvs := s } ↔
      if k = n then Q false { m with nvs := s }
      else rest.Post (failingAt n) t Q { m with nvs := s.set key x } :=
  post_failingAt hrun hk (fun _ => run_nvsSet_ok) fun _ => run_nvsSet_fails

/-- A key write of which the outcome is open. -/
theorem leaves_writeKey {Q : Bool → Mem → Prop} {β : Type} {key : NvsKey β} {x : β}
    {rest : Firmware Bool} {s : NvsStore} (hrun : m.aborted = false) :
    Leaves t Q (do if !(← Program.perform (.nvsSet key x)) then return false else rest)
        { m with nvs := s } ↔
      Q false { m with nvs := s } ∧ Leaves t Q rest { m with nvs := s.set key x } :=
  leaves_unlessFailed hrun (fun _ => run_nvsSet_ok) fun _ => run_nvsSet_fails

/-- A write that fails at position `n` has written the keys before it. -/
theorem post_calibrationWrite {Q : Bool → Mem → Prop} (hrun : m.aborted = false) :
    (calibrationWrite cal).Post (failingAt n) t Q m ↔
      if n ≤ 6 then Q false { m with nvs := m.nvs.written cal (n - 1) }
      else Q true { m with nvs := m.nvs.written cal 6, calCache := some cal } := by
  have hopen : ∀ e : Input, e.espErr = .ok →
      (Act.nvsOpen true).run e m = (true, { m with nvs := m.nvs }) := fun e => run_nvsOpen_ok
  unfold calibrationWrite
  rw [post_failingAt hrun rfl hopen (fun _ => run_nvsOpen_fails), post_writeKey hrun rfl,
    post_writeKey hrun rfl, post_writeKey hrun rfl, post_writeKey hrun rfl, post_writeKey hrun rfl,
    post_writeKey hrun rfl]
  have hcache : ∀ s : NvsStore, (do store .calCache (some cal); return true : Firmware Bool).Post
      (failingAt n) t Q { m with nvs := s } ↔ Q true { m with nvs := s, calCache := some cal } := by
    intro s
    have hrun' : ({ m with nvs := s } : Mem).aborted = false := hrun
    refine (post_otherStep hrun' rfl).trans ?_
    simp only [Act.run, Mem.set, forall_const]
    exact Program.post_ret
  rw [hcache]
  rcases n with _ | _ | _ | _ | _ | _ | _ | n
  · exact Iff.rfl
  all_goals simp [NvsStore.written, CalibrationData.keyWrites]

/-- A write fails after some of the keys or writes all of them. -/
theorem leaves_calibrationWrite_iff {Q : Bool → Mem → Prop} (hrun : m.aborted = false) :
    Leaves t Q (calibrationWrite cal) m ↔
      (∀ n ≤ 5, Q false { m with nvs := m.nvs.written cal n }) ∧
        Q true { m with nvs := m.nvs.written cal 6, calCache := some cal } := by
  have hopen : ∀ e : Input, e.espErr = .ok →
      (Act.nvsOpen true).run e m = (true, { m with nvs := m.nvs }) := fun e => run_nvsOpen_ok
  unfold calibrationWrite
  rw [leaves_unlessFailed hrun hopen (fun _ => run_nvsOpen_fails), leaves_writeKey hrun,
    leaves_writeKey hrun, leaves_writeKey hrun, leaves_writeKey hrun, leaves_writeKey hrun,
    leaves_writeKey hrun]
  have hcache : ∀ s : NvsStore, Leaves t Q (do store .calCache (some cal); return true)
      { m with nvs := s } ↔ Q true { m with nvs := s, calCache := some cal } := by
    intro s
    refine leaves_act.trans ?_
    simp only [hrun, Act.run, Mem.set, forall_const]
    exact leaves_ret
  rw [hcache]
  constructor
  · rintro ⟨h0, -, h1, h2, h3, h4, h5, h6⟩
    refine ⟨fun n hn => ?_, h6⟩
    rcases n with _ | _ | _ | _ | _ | _ | n
    · exact h0
    · exact h1
    · exact h2
    · exact h3
    · exact h4
    · exact h5
    · omega
  · rintro ⟨hfails, h6⟩
    exact ⟨hfails 0 (by omega), hfails 0 (by omega), hfails 1 (by omega), hfails 2 (by omega),
      hfails 3 (by omega), hfails 4 (by omega), hfails 5 (by omega), h6⟩

/-- The record a `cal.save` writes. -/
def CalibrationData.supplied (pending : CalibrationData) (stepsPerMl nomVolume : Option ℚ) :
    CalibrationData :=
  { pending with
    stepsPerMl := stepsPerMl.getD pending.stepsPerMl
    nominalVolumeMl := nomVolume.getD pending.nominalVolumeMl }

/-- The calibration that can be read later, the cache and the pending record are the same. -/
def SameCalibration (m m' : Mem) : Prop :=
  m'.nvs.calibration = m.nvs.calibration ∧ m'.calCache = m.calCache ∧ m'.pendingCal = m.pendingCal

/-- An error leaves the three copies of the calibration as they were in `m`. -/
def KeepsCalibration (m : Mem) (rsp : CommandResponse) (m' : Mem) : Prop :=
  rsp.kind = .error → SameCalibration m m'

/-- The limits read from the flash are `uint16_t`. -/
theorem NvsStore.limits_lt (s : NvsStore) :
    s.calibration.minFreqHz < 2 ^ 16 ∧ s.calibration.maxFreqHz < 2 ^ 16 := by
  have hmod : ∀ (o : Option ℕ) (d : ℕ), d < 2 ^ 16 → (o.map (· % 2 ^ 16)).getD d < 2 ^ 16 := by
    intro o d hd
    cases o with
    | none => exact hd
    | some x => exact Nat.mod_lt x (by decide)
  exact ⟨hmod _ _ (by decide), hmod _ _ (by decide)⟩

/-- What is read from the flash is determined by its fields. -/
theorem NvsStore.calibration_eq_iff {s s' : NvsStore} :
    s'.calibration = s.calibration ↔ ∀ f : CalField, f.Same s.calibration s'.calibration := by
  constructor
  · intro h f
    rw [h]
    cases f <;> rfl
  · intro h
    have hlt := s.limits_lt
    have hlt' := s'.limits_lt
    have hmin := h .minFreq
    have hmax := h .maxFreq
    simp only [CalField.Same, Nat.mod_eq_of_lt hlt.1, Nat.mod_eq_of_lt hlt.2,
      Nat.mod_eq_of_lt hlt'.1, Nat.mod_eq_of_lt hlt'.2] at hmin hmax
    have hspm : s'.calibration.stepsPerMl = s.calibration.stepsPerMl := h .stepsPerMl
    have hnom : s'.calibration.nominalVolumeMl = s.calibration.nominalVolumeMl := h .nominalVol
    have hcoeff : s'.calibration.speedCoeff = s.calibration.speedCoeff := h .speedCoeff
    generalize s'.calibration = c' at *
    generalize s.calibration = c at *
    obtain ⟨_, _, _, _, _⟩ := c
    obtain ⟨_, _, _, _, _⟩ := c'
    simp_all

/-- The keys that were written leave what is read unchanged exactly if they hold the same values. -/
theorem NvsStore.written_eq_iff (s : NvsStore) :
    (s.written cal n).calibration = s.calibration ↔
      ∀ f : CalField, f.index < n → f.Same s.calibration cal := by
  rw [NvsStore.calibration_eq_iff]
  refine forall_congr' fun f => ?_
  obtain ⟨hnew, hold⟩ := s.same_written cal n f
  by_cases hf : f.index < n
  · have hread := hnew hf
    cases f <;> grind [CalField.Same]
  · exact iff_of_true (hold (by omega)) fun hlt => absurd hlt hf

theorem sameCalibration_written :
    SameCalibration m { m with nvs := m.nvs.written cal (n - 1) } ↔
      ∀ f : CalField, f.index + 1 < n → f.Same m.nvs.calibration cal := by
  simp [SameCalibration, NvsStore.written_eq_iff, Nat.lt_sub_iff_add_lt]

theorem keeps_handleSaveCalibration (hrun : m.aborted = false) {stepsPerMl nomVolume : Option ℚ} :
    (BuretteCal.handleSaveCalibration stepsPerMl nomVolume).Post (failingAt n) t
        (KeepsCalibration m) m ↔
      (n ≤ 6 → ∀ f : CalField, f.index + 1 < n →
        f.Same m.nvs.calibration (m.pendingCal.supplied stepsPerMl nomVolume)) := by
  refine (post_otherStep hrun rfl).trans ?_
  simp only [Act.run, Mem.get, forall_const]
  change (calibrationWrite (m.pendingCal.supplied stepsPerMl nomVolume) >>=
    _ : Firmware CommandResponse).Post _ _ _ m ↔ _
  rw [Program.post_bind, post_calibrationWrite hrun]
  by_cases hn : n ≤ 6
  · simp only [hn, if_true, Bool.false_eq_true, if_false, Program.post_pure, forall_const]
    exact (imp_iff_right rfl).trans sameCalibration_written
  · simp only [hn, if_false, if_true, false_imp_iff, iff_true]
    exact Program.post_act.mpr fun _ _ _ =>
      Program.post_ret.mpr fun h => absurd h ResponseKind.single_ne_error

theorem keeps_handleResetCalibration (hrun : m.aborted = false) :
    BuretteCal.handleResetCalibration.Post (failingAt n) t (KeepsCalibration m) m ↔
      (n ≤ 6 → ∀ f : CalField, f.index + 1 < n → f.Same m.nvs.calibration .default) := by
  rw [BuretteCal.handleResetCalibration, Program.post_bind, post_calibrationWrite hrun]
  by_cases hn : n ≤ 6
  · simp only [hn, if_true, Bool.false_eq_true, if_false, Program.post_pure, forall_const]
    exact (imp_iff_right rfl).trans sameCalibration_written
  · simp only [hn, if_false, if_true, false_imp_iff, iff_true]
    exact Program.post_ret.mpr fun h => absurd h ResponseKind.single_ne_error

end

end Ecotiter
