import Mathlib.Algebra.Order.Field.Basic
import Mathlib.Tactic.Linarith
import Mathlib.Tactic.NormNum
import Ecotiter.CalibrationStorage

/-!
# The calibration the motor task works with

The four operations that depend on the calibration take two things from it: the nominal volume with
which their state machine starts and the conversion of speeds into step frequencies. The motor task
does not take them from the saved calibration: the volume is that of a value-initialised record, the
conversion that of the defaults.
-/

namespace Ecotiter
open Interleaving Firmware

/-- What an operation takes from a calibration. -/
structure Conversion where
  nominalVolumeMl : ℚ
  hz : ℚ → ℕ

/-- What a calibration provides. -/
def CalibrationData.conversion (cal : CalibrationData) : Conversion :=
  ⟨cal.nominalVolumeMl, fun speedMlMin => speedMlMinToHz speedMlMin cal⟩

/-- What the motor task uses. -/
def MotorTask.conversion : Conversion := ⟨CalibrationData.zero.nominalVolumeMl, mlMinToHz⟩

/-- The commands whose operation depends on the calibration. -/
def MotorCommandType.calibrated : MotorCommandType → Bool
  | .startRinse | .startCalDose | .startCalSpeed | .startCalSpeedSeq => true
  | _ => false

/-- The speeds an operation converts. -/
def MotorCommand.speedsMlMin (cmd : MotorCommand) : List ℚ :=
  match cmd.type with
  | .startRinse => [cmd.startRinse.speedMlMin]
  | .startCalDose => [cmd.startCalDose.speedMlMin]
  | .startCalSpeed => [cmd.startCalSpeed.speedMlMin, Config.minCalSpeedMlMin]
  | .startCalSpeedSeq => [cmd.startCalSpeedSeq.fillSpeedMlMin]
  | _ => []

namespace Conversion

/-- The empty of a speed calibration. -/
def calSpeedEmpty (k : Conversion) (testFreqHz : ℕ) (s : CalSpeedAction × CalSpeedSingleSm) :
    Firmware (CalSpeedAction × CalSpeedSingleSm) := do
  if s.1 = .emptyToLimit then
    let least := k.hz Config.minCalSpeedMlMin
    moveEmpty (if testFreqHz < least then least else testFreqHz)
    let now ← nowMs
    return s.2.onEmptyComplete now k.nominalVolumeMl
  else return s

/-- The operation of a command, run with a given conversion. -/
def operation (k : Conversion) (cmd : MotorCommand) : Firmware Unit :=
  match cmd.type with
  | .startRinse => do
    store .buretteState .rinsing
    let curVol ← load .volumeMl
    let sm := RinseSm.start cmd.startRinse.cycles curVol k.nominalVolumeMl
    let speedHz := k.hz cmd.startRinse.speedMlMin
    if sm.phase = .preFill then moveFill speedHz
    rinseLoop speedHz sm
  | .startCalDose => do
    store .buretteState .dosing
    let curVol ← load .volumeMl
    let speedHz := k.hz cmd.startCalDose.speedMlMin
    let filled ← calDoseFill speedHz (CalDoseSm.start.onStart curVol k.nominalVolumeMl)
    let emptied ← calDoseEmpty speedHz filled
    if emptied.1 = .complete then storeResult .calDoseComplete emptied.2.stepsTaken 0 [] 0
    else storeResult .error 0 0 [] 0
  | .startCalSpeed => do
    store .buretteState .dosing
    let curVol ← load .volumeMl
    let speedHz := k.hz cmd.startCalSpeed.speedMlMin
    let filled ← calSpeedFill speedHz (CalSpeedSingleSm.start.onStart curVol k.nominalVolumeMl)
    let emptied ← k.calSpeedEmpty cmd.startCalSpeed.testFreqHz filled
    if emptied.1 = .complete then
      storeResult .calSpeedComplete 0 emptied.2.measuredSpeedMlMin [] 0
    else storeResult .error 0 0 [] 0
  | .startCalSpeedSeq => do
    store .buretteState .dosing
    let curVol ← load .volumeMl
    let sm := CalSpeedSeqSm.start cmd.startCalSpeedSeq.freqs
    let sm := if k.nominalVolumeMl - 1 / 10 ≤ curVol then { sm with firstEver := false } else sm
    calSpeedSeqLoop (k.hz cmd.startCalSpeedSeq.fillSpeedMlMin) sm
  | _ => return ()

/-- Two conversions are the same for a command. -/
def Agrees (k k' : Conversion) (cmd : MotorCommand) : Prop :=
  k.nominalVolumeMl = k'.nominalVolumeMl ∧ ∀ s ∈ cmd.speedsMlMin, k.hz s = k'.hz s

/-- An operation depends on nothing else. -/
theorem operation_congr {k k' : Conversion} {cmd : MotorCommand} (h : k.Agrees k' cmd) :
    k.operation cmd = k'.operation cmd := by
  obtain ⟨hnominal, hspeeds⟩ := h
  unfold operation
  unfold MotorCommand.speedsMlMin at hspeeds
  cases ht : cmd.type <;>
    simp only [ht, List.mem_cons, List.not_mem_nil, or_false, forall_eq,
      forall_eq_or_imp] at hspeeds ⊢ <;>
    simp [hnominal, hspeeds, calSpeedEmpty]

end Conversion

/-- The motor task runs the operations with its own conversion. -/
theorem handle_eq_operation {cmd : MotorCommand} (h : cmd.type.calibrated) :
    MotorTask.handle cmd = MotorTask.conversion.operation cmd := by
  unfold MotorTask.handle Conversion.operation
  cases ht : cmd.type with
  | startRinse => rfl
  | startCalDose => rfl
  | startCalSpeed => rfl
  | startCalSpeedSeq => rfl
  | _ => rw [ht] at h; cases h

/-! ## When two calibrations convert alike -/

/-- Within its range the conversion to `uint32_t` rounds down. -/
theorem toU32_eq_iff {x : ℚ} {n : ℕ} (hx : 0 ≤ x) (hrange : x < 2 ^ 32) :
    toU32 x = n ↔ (n : ℚ) ≤ x ∧ x < n + 1 := by
  have hfloor : 0 ≤ x.floor := Rat.le_floor_iff.mpr hx
  have hsmall : x.floor < 2 ^ 32 := Rat.floor_lt_iff.mpr (by exact_mod_cast hrange)
  have hmod : x.floor % 2 ^ 32 = x.floor := Int.emod_eq_of_lt hfloor hsmall
  have hle : (n : ℤ) ≤ x.floor ↔ (n : ℚ) ≤ x := by exact_mod_cast Rat.le_floor_iff (x := n) (a := x)
  have hlt : x.floor < (n : ℤ) + 1 ↔ x < n + 1 := by
    exact_mod_cast Rat.floor_lt_iff (a := x) (x := (n : ℤ) + 1)
  rw [toU32, trunc, if_pos hx, hmod, ← hle, ← hlt]
  omega

section Conversions
variable {cal : CalibrationData} {s : ℚ} {f : ℕ}

/-- The quotient, rounded and brought between the limits. -/
theorem speedMlMinToHz_eq (hk : 1 / 1000000 ≤ cal.speedCoeff) :
    speedMlMinToHz s cal =
      min cal.maxFreqHz (max cal.minFreqHz (toU32 (s / cal.speedCoeff + 1 / 2))) := by
  rw [speedMlMinToHz, if_neg (not_lt.mpr hk)]
  grind

/-- Between the limits, a conversion gives the frequency the quotient rounds to. -/
theorem speedMlMinToHz_eq_iff (hk : 1 / 1000000 ≤ cal.speedCoeff) (hs : 0 ≤ s)
    (hrange : s / cal.speedCoeff + 1 / 2 < 2 ^ 32) (hmin : cal.minFreqHz < f)
    (hmax : f < cal.maxFreqHz) :
    speedMlMinToHz s cal = f ↔
      (f : ℚ) ≤ s / cal.speedCoeff + 1 / 2 ∧ s / cal.speedCoeff + 1 / 2 < f + 1 := by
  have hpos : 0 < cal.speedCoeff := by linarith
  have hdiv := div_nonneg hs hpos.le
  rw [← toU32_eq_iff (by linarith) hrange, speedMlMinToHz_eq hk]
  omega

/-- The lowest speed that is converted to 100 Hz is 99.5 coefficients. -/
theorem speedMlMinToHz_threshold (hk : 1 / 1000000 ≤ cal.speedCoeff) (hmin : cal.minFreqHz < 100)
    (hmax : 100 < cal.maxFreqHz) : speedMlMinToHz (199 / 2 * cal.speedCoeff) cal = 100 := by
  have hpos : 0 < cal.speedCoeff := by linarith
  have hquot : 199 / 2 * cal.speedCoeff / cal.speedCoeff = 199 / 2 := mul_div_cancel_right₀ _ hpos.ne'
  rw [speedMlMinToHz_eq_iff hk (by positivity) (by rw [hquot]; norm_num) hmin hmax, hquot]
  norm_num

theorem threshold_le (hk : 1 / 1000000 ≤ cal.speedCoeff) (hmin : cal.minFreqHz < 100)
    (hmax : 100 < cal.maxFreqHz) (hs : 0 ≤ s) (hrange : s ≤ 1000)
    (h : speedMlMinToHz s cal = 100) : 199 / 2 * cal.speedCoeff ≤ s := by
  have hpos : 0 < cal.speedCoeff := by linarith
  have hquot : s / cal.speedCoeff ≤ 1000000000 := by
    rw [div_le_iff₀ hpos]
    linarith
  rw [speedMlMinToHz_eq_iff hk hs (by linarith) hmin hmax] at h
  have hlow : 199 / 2 ≤ s / cal.speedCoeff := by
    have hle := h.1
    push_cast at hle
    linarith
  exact (le_div_iff₀ hpos).mp hlow

theorem mlMinToHz_values : mlMinToHz 0 = 30 ∧ mlMinToHz 100 = 3000 ∧ mlMinToHz 1000 = 3000 := by
  decide +kernel

/-- A calibration that converts every speed as the defaults do has a positive coefficient. -/
theorem coeff_of_converts (h : ∀ s, mlMinToHz s = speedMlMinToHz s cal) :
    1 / 1000000 ≤ cal.speedCoeff := by
  by_contra hk
  have hconst : ∀ s, speedMlMinToHz s cal = cal.minFreqHz := fun s => if_pos (not_le.mp hk)
  obtain ⟨hlow, hhigh, -⟩ := mlMinToHz_values
  have heq := (h 0).trans ((hconst 0).trans ((h 100).trans (hconst 100)).symm)
  omega

theorem eq_of_clamped {lo hi f n : ℕ} (h : n = min hi (max lo f)) (hlo : lo < n) (hhi : n < hi) :
    f = n := by omega

theorem low_of_clamped {lo hi n : ℕ} (h : n = min hi (max lo 0)) (hhi : n < hi) : lo = n := by
  omega

theorem limits_of_converts (h : ∀ s, mlMinToHz s = speedMlMinToHz s cal) :
    cal.minFreqHz = 30 ∧ cal.maxFreqHz = 3000 := by
  have hk := coeff_of_converts h
  have hpos : 0 < cal.speedCoeff := by linarith
  have h0 := h 0
  have h1 := h 100
  have h2 := h 1000
  obtain ⟨hlowest, hfirst, hsecond⟩ := mlMinToHz_values
  rw [speedMlMinToHz_eq hk, hlowest] at h0
  rw [speedMlMinToHz_eq hk, hfirst] at h1
  rw [speedMlMinToHz_eq hk, hsecond] at h2
  have hzero : toU32 (0 / cal.speedCoeff + 1 / 2) = 0 := by
    rw [zero_div, toU32_eq_iff (by norm_num) (by norm_num)]
    norm_num
  have hdiv : 0 < 1 / cal.speedCoeff ∧ 1 / cal.speedCoeff ≤ 1000000 :=
    ⟨one_div_pos.mpr hpos, (one_div_le hpos (by norm_num)).mpr hk⟩
  have hgrow : toU32 (100 / cal.speedCoeff + 1 / 2) = 3000 →
      toU32 (1000 / cal.speedCoeff + 1 / 2) ≠ 3000 := by
    rw [div_eq_mul_one_div 100, div_eq_mul_one_div 1000, ne_eq,
      toU32_eq_iff (by linarith) (by linarith), toU32_eq_iff (by linarith) (by linarith)]
    push_cast
    rintro ⟨hlow, -⟩ ⟨-, hhigh⟩
    linarith
  have hmax : 3000 ≤ cal.maxFreqHz := h1.le.trans (min_le_left _ _)
  have hmin : cal.minFreqHz = 30 := low_of_clamped (hzero ▸ h0) (by omega)
  -- Between the limits the two speeds would give the same frequency.
  refine ⟨hmin, hmax.antisymm' (not_lt.mp fun hlt => ?_)⟩
  exact hgrow (eq_of_clamped h1 (by omega) hlt) (eq_of_clamped h2 (by omega) hlt)

/-- The thresholds at which the frequency changes determine the coefficient. -/
theorem coeff_eq_of_converts (h : ∀ s, mlMinToHz s = speedMlMinToHz s cal) :
    cal.speedCoeff = CalibrationData.kDefaultSpeedCoeff := by
  have hk := coeff_of_converts h
  have hpos : 0 < cal.speedCoeff := by linarith
  obtain ⟨hmin, hmax⟩ := limits_of_converts h
  let own : CalibrationData :=
    ⟨CalibrationData.kDefaultStepsPerMl, 50, CalibrationData.kDefaultSpeedCoeff,
      CalibrationData.kDefaultMinFreqHz, CalibrationData.kDefaultMaxFreqHz⟩
  have hcoeff : own.speedCoeff = 3052 / 100000 := rfl
  have hown : 1 / 1000000 ≤ own.speedCoeff := by
    rw [hcoeff]
    norm_num
  have hreach : speedMlMinToHz (199 / 2 * own.speedCoeff) cal = 100 :=
    (h _).symm.trans (speedMlMinToHz_threshold hown (by decide) (by decide))
  have hle : 199 / 2 * cal.speedCoeff ≤ 199 / 2 * own.speedCoeff :=
    threshold_le hk (by omega) (by omega) (by rw [hcoeff]; norm_num) (by rw [hcoeff]; norm_num) hreach
  have hreached : speedMlMinToHz (199 / 2 * cal.speedCoeff) own = 100 :=
    (h _).trans (speedMlMinToHz_threshold hk (by omega) (by omega))
  have hge : 199 / 2 * own.speedCoeff ≤ 199 / 2 * cal.speedCoeff :=
    threshold_le hown (by decide) (by decide) (by linarith) (by linarith) hreached
  change cal.speedCoeff = own.speedCoeff
  linarith

/-- A calibration converts every speed as the motor task does exactly if its coefficient and its
limits are the defaults. -/
theorem converts_iff : (∀ s, mlMinToHz s = speedMlMinToHz s cal) ↔
    cal.speedCoeff = CalibrationData.kDefaultSpeedCoeff ∧
      cal.minFreqHz = CalibrationData.kDefaultMinFreqHz ∧
      cal.maxFreqHz = CalibrationData.kDefaultMaxFreqHz := by
  constructor
  · intro h
    exact ⟨coeff_eq_of_converts h, limits_of_converts h⟩
  · rintro ⟨hcoeff, hmin, hmax⟩ s
    simp only [mlMinToHz, speedMlMinToHz, hcoeff, hmin, hmax]

end Conversions

/-! ## The saved calibration -/

section Saved
variable {t : Tid} {m : Mem} {cal : CalibrationData}

/-- A calibration that has been written is in the cache. -/
theorem leaves_calibrationWrite :
    Leaves t (fun ok m' => ok = true → m'.calCache = some cal) (calibrationWrite cal) m := by
  cases hrun : m.aborted with
  | false => exact (leaves_calibrationWrite_iff hrun).mpr ⟨fun _ _ => nofun, fun _ => rfl⟩
  | true => exact leaves_act.mpr fun hrunning => by rw [hrun] at hrunning; cases hrunning

end Saved

/-- The motor task runs the command with the calibration in the cache. -/
def UsesSaved (m : Mem) (cmd : MotorCommand) : Prop :=
  ∀ saved ∈ m.calCache, MotorTask.conversion.Agrees saved.conversion cmd

/-- After a calibration has been saved, the motor task runs a command with it exactly if its nominal
volume is zero and it converts the speeds of the command as the defaults do; and it runs all
commands of a type with it exactly if besides its coefficient and its limits are the defaults. -/
theorem usesSaved_iff {t : Tid} {w w' : World} {cal : CalibrationData}
    (hsaved : (calibrationWrite cal).Ends (.any device) t w true w') :
    (∀ cmd : MotorCommand, cmd.type.calibrated →
      MotorTask.handle cmd = MotorTask.conversion.operation cmd ∧
      (UsesSaved w'.mem cmd ↔ cal.nominalVolumeMl = 0 ∧ ∀ s ∈ cmd.speedsMlMin,
        speedMlMinToHz s .default = speedMlMinToHz s cal)) ∧
    ∀ ty : MotorCommandType, ty.calibrated →
      ((∀ cmd : MotorCommand, cmd.type = ty → UsesSaved w'.mem cmd) ↔
        cal.nominalVolumeMl = 0 ∧ cal.speedCoeff = CalibrationData.kDefaultSpeedCoeff ∧
          cal.minFreqHz = CalibrationData.kDefaultMinFreqHz ∧
          cal.maxFreqHz = CalibrationData.kDefaultMaxFreqHz) := by
  have hcache : w'.mem.calCache = some cal :=
    leaves_iff.mpr leaves_calibrationWrite true w' hsaved rfl
  have hcmd : ∀ cmd : MotorCommand, UsesSaved w'.mem cmd ↔
      cal.nominalVolumeMl = 0 ∧ ∀ s ∈ cmd.speedsMlMin, mlMinToHz s = speedMlMinToHz s cal := by
    intro cmd
    simp only [UsesSaved, hcache, Option.mem_def, Option.some.injEq, forall_eq']
    exact and_congr_left fun _ => eq_comm
  refine ⟨fun cmd h => ⟨handle_eq_operation h, hcmd cmd⟩, fun ty hty => ?_⟩
  rw [← converts_iff]
  constructor
  · intro h
    have hone : ∀ s, ∃ cmd : MotorCommand, cmd.type = ty ∧ s ∈ cmd.speedsMlMin := by
      intro s
      cases ty with
      | startRinse => exact ⟨{ type := .startRinse, startRinse := ⟨0, s⟩ }, rfl, .head _⟩
      | startCalDose => exact ⟨{ type := .startCalDose, startCalDose := ⟨s⟩ }, rfl, .head _⟩
      | startCalSpeed => exact ⟨{ type := .startCalSpeed, startCalSpeed := ⟨s, 0⟩ }, rfl, .head _⟩
      | startCalSpeedSeq =>
        exact ⟨{ type := .startCalSpeedSeq, startCalSpeedSeq := ⟨[], s⟩ }, rfl, .head _⟩
      | _ => cases hty
    obtain ⟨cmd, ht, -⟩ := hone 0
    refine ⟨((hcmd cmd).mp (h cmd ht)).1, fun s => ?_⟩
    obtain ⟨cmd, ht, hs⟩ := hone s
    exact ((hcmd cmd).mp (h cmd ht)).2 s hs
  · rintro ⟨hnominal, hspeeds⟩ cmd -
    exact (hcmd cmd).mpr ⟨hnominal, fun s _ => hspeeds s⟩

theorem default_saved : ∃ w', (calibrationWrite .default).Ends (.any device) .main
    (Boot.world {}) true w' := by
  have hrun : ((calibrationWrite .default).alone device .main .nothing (Boot.world {})).any
      (fun r => r.1) = true := rfl
  obtain ⟨⟨ok, w'⟩, hends, rfl⟩ := (Option.any_eq_true _ _).mp hrun
  exact ⟨w', Program.ends_of_alone hends⟩

theorem usesSaved_default : ∃ w', (calibrationWrite .default).Ends (.any device) .main
      (Boot.world {}) true w' ∧
    ((∀ cmd : MotorCommand, cmd.type.calibrated →
      MotorTask.handle cmd = MotorTask.conversion.operation cmd ∧
      (UsesSaved w'.mem cmd ↔ CalibrationData.default.nominalVolumeMl = 0 ∧
        ∀ s ∈ cmd.speedsMlMin, speedMlMinToHz s .default = speedMlMinToHz s .default)) ∧
    ∀ ty : MotorCommandType, ty.calibrated →
      ((∀ cmd : MotorCommand, cmd.type = ty → UsesSaved w'.mem cmd) ↔
        CalibrationData.default.nominalVolumeMl = 0 ∧
          CalibrationData.default.speedCoeff = CalibrationData.kDefaultSpeedCoeff ∧
          CalibrationData.default.minFreqHz = CalibrationData.kDefaultMinFreqHz ∧
          CalibrationData.default.maxFreqHz = CalibrationData.kDefaultMaxFreqHz)) := by
  obtain ⟨w', hsaved⟩ := default_saved
  exact ⟨w', hsaved, usesSaved_iff hsaved⟩

/-- With the default calibration saved, a rinse is run with the nominal volume zero. -/
theorem rinse_ignores_saved : ∃ w', (calibrationWrite .default).Ends (.any device) .main
      (Boot.world {}) true w' ∧
    ¬ UsesSaved w'.mem { type := .startRinse, startRinse := ⟨1, 50⟩ } := by
  obtain ⟨w', hsaved⟩ := default_saved
  refine ⟨w', hsaved, fun huses => ?_⟩
  have hcache : w'.mem.calCache = some .default :=
    leaves_iff.mpr leaves_calibrationWrite true w' hsaved rfl
  have hnominal : 0 = CalibrationData.default.nominalVolumeMl := (huses .default hcache).1
  rw [CalibrationData.default_nominalVolumeMl] at hnominal
  norm_num at hnominal

end Ecotiter
