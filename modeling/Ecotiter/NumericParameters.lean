import Mathlib.Tactic.NormNum
import Ecotiter.CommandLine
import Ecotiter.RequestCommands

/-!
# What becomes of the numbers of a command line

The number a client writes passes a conversion in the parser, one in `dispatch` and one in the
handler before it stands in a motor command. `numbersKept_iff` says for which lines the motor
command carries the number that was written.
-/

namespace Ecotiter
open Interleaving Firmware

/-- The number that gives the frequency: `freq_hz`, or `freq` where that is missing or zero. -/
def Json.freqNumber (j : Json) : Option JsonNumber :=
  match j.numberAt "freq_hz" with
  | some n => if n.toFloat = 0 then (j.numberAt "freq").or (some n) else some n
  | none => j.numberAt "freq"

/-- The numbers of the array `freqs`. -/
def Json.freqNumbers (j : Json) : List JsonNumber :=
  match (j.find "freqs").bind Json.asArray with
  | some elems => elems.filterMap Json.asNumber
  | none => []

/-- The motor command has the numbers that the line has; frequencies are rounded. -/
def Json.carried (j : Json) : CommandType → MotorCommand → Bool
  | .moveSteps, mc => (j.numberAt "steps").map JsonNumber.value = some (mc.steps : ℚ)
  | .setSpeed, mc => (j.numberAt "speed").map JsonNumber.value = some (mc.speedHz : ℚ)
  | .setAccel, mc => (j.numberAt "accel").map JsonNumber.value = some (mc.accelHzPerS : ℚ)
  | .stallGuardSetThreshold, mc =>
    (j.numberAt "threshold").map JsonNumber.value = some (mc.stallThreshold : ℚ)
  | .rinse, mc => (j.numberAt "volume").map JsonNumber.value = some (mc.startRinse.cycles : ℚ)
  | .moveToStop, mc => j.freqNumber.map (fun n => lround n.value) = some (mc.speedHz : ℤ)
  | .calRun, mc =>
    mc.type = .startCalSpeed →
      j.freqNumber.map (fun n => lround n.value) = some (mc.startCalSpeed.testFreqHz : ℤ)
  | .calRunSpeedSeq, mc =>
    j.freqNumbers.map (fun n => lround n.value) <+: mc.startCalSpeedSeq.freqs.map fun n : ℕ => (n : ℤ)
  | _, _ => true

/-- Every motor command that the dispatch of the line may enqueue carries the numbers of the
line. -/
def NumbersKept (parse : String → Option Json) (line : String) : Prop :=
  ∀ j cmd, parse line = some j → parseCommand parse line = .ok cmd →
    (dispatch cmd).Only (Act.sending (j.carried cmd.type))

/-- A number of the array `freqs` that the handler takes over. -/
def JsonNumber.fitsSequence (n : JsonNumber) : Prop :=
  if 0 < n.toFloat then lround n.toFloat < 2 ^ 16 ∧ lround n.toFloat = lround n.value
  else lround n.value = 0

/-- The numbers of the line are in the range of the motor command, or refused. -/
def Json.numbersFit (j : Json) : CommandType → Prop
  | .moveSteps => ∀ n, j.numberAt "steps" = some n → n.toInt32.isSome →
      -2 ^ 31 ≤ n.value ∧ n.value < 2 ^ 31
  | .setSpeed => ∀ n, j.numberAt "speed" = some n → n.toUInt32.isSome → n.value < 2 ^ 32
  | .setAccel => ∀ n, j.numberAt "accel" = some n → n.toUInt32.isSome → n.value < 2 ^ 32
  | .stallGuardSetThreshold =>
      ∀ n, j.numberAt "threshold" = some n → n.toUInt32.isSome → n.value < 2 ^ 8
  | .rinse => ∀ n, j.numberAt "volume" = some n → toU32 n.toFloat = 0 ∨
      ∃ k : ℕ, 0 < k ∧ k < 2 ^ 8 ∧ n.value = k
  | .moveToStop => (parseDirection j "direction").isSome → ∀ n, j.freqNumber = some n →
      toU32 n.toFloat = 0 ∨
        0 ≤ trunc n.toFloat ∧ trunc n.toFloat < 2 ^ 32 ∧ trunc n.toFloat = lround n.value
  | .calRun => (j.stringAt "mode").map BuretteOps.modeBuf = some "speed" →
      ∀ n, j.freqNumber = some n → BuretteOps.calRunFreqHz (some n.toFloat) = 0 ∨
        lround n.toFloat < 2 ^ 16 ∧ lround n.toFloat = lround n.value
  | .calRunSpeedSeq => j.freqNumbers.length < 2 ∨
      j.freqNumbers.length ≤ 3 ∧ ∀ n ∈ j.freqNumbers, n.fitsSequence
  | _ => True

/-! ## The conversions -/

theorem lround_error (x : ℚ) : |(lround x : ℚ) - x| ≤ 1 / 2 := by
  have hfloor (y : ℚ) : ((y + 1 / 2).floor : ℚ) ≤ y + 1 / 2 ∧ y + 1 / 2 < (y + 1 / 2).floor + 1 :=
    ⟨Int.floor_le (y + 1 / 2), Int.lt_floor_add_one (y + 1 / 2)⟩
  unfold lround
  rw [abs_le]
  split
  · have hx := hfloor x
    constructor <;> linarith
  · have hx := hfloor (-x)
    push_cast
    constructor <;> linarith

theorem trunc_error (x : ℚ) : |(trunc x : ℚ) - x| ≤ 1 := by
  have hfloor (y : ℚ) : (y.floor : ℚ) ≤ y ∧ y < y.floor + 1 :=
    ⟨Int.floor_le y, Int.lt_floor_add_one y⟩
  unfold trunc
  rw [abs_le]
  split
  · have hx := hfloor x
    constructor <;> linarith
  · have hx := hfloor (-x)
    push_cast
    constructor <;> linarith

/-- A rounding to a format with at least 23 bits is small against the number. -/
theorem round_close {f : BinaryFormat} (hp : 24 ≤ f.precision) (hmin : f.minExponent ≤ -23) (x : ℚ) :
    |f.round x - x| ≤ (|x| + 1) / 2 ^ 24 := by
  have herror := f.round_error x
  have hspacing := f.spacing_le x
  have hexp : max (1 - (f.precision : ℤ)) f.minExponent ≤ -23 := by omega
  have hsmall : (2 : ℚ) ^ max (1 - (f.precision : ℤ)) f.minExponent ≤ 2 ^ (-23 : ℤ) :=
    zpow_le_zpow_right₀ (by norm_num) hexp
  have hfactor : (2 : ℚ) ^ (1 - (f.precision : ℤ)) ≤ 2 ^ (-23 : ℤ) :=
    zpow_le_zpow_right₀ (by norm_num) (by omega)
  have hmul := mul_le_mul_of_nonneg_left hfactor (abs_nonneg x)
  have hval : (2 : ℚ) ^ (-23 : ℤ) = 1 / 8388608 := by norm_num
  rw [hval] at hsmall hmul
  norm_num
  linarith

theorem JsonNumber.toFloat_close (n : JsonNumber) : |n.toFloat - n.value| ≤ (|n.value| + 1) / 2 ^ 22 := by
  have hdouble : |n.toDouble - n.value| ≤ (|n.value| + 1) / 2 ^ 24 := by
    cases n with
    | unsigned k => exact round_close (by decide) (by decide) _
    | integer k => exact round_close (by decide) (by decide) _
    | float x =>
      have hzero : |x - x| = 0 := by rw [sub_self, abs_zero]
      change |x - x| ≤ (|x| + 1) / 2 ^ 24
      rw [hzero]
      positivity
  have hfloat : |n.toFloat - n.toDouble| ≤ (|n.toDouble| + 1) / 2 ^ 24 :=
    round_close (by decide) (by decide) _
  have htri := abs_sub_le n.toFloat n.toDouble n.value
  have hsize : |n.toDouble| ≤ |n.value| + |n.toDouble - n.value| := by
    have h := abs_add_le n.value (n.toDouble - n.value)
    rwa [add_sub_cancel] at h
  have hpos := abs_nonneg n.value
  norm_num at hdouble hfloat ⊢
  linarith

theorem JsonNumber.toFloat_natCast {n : JsonNumber} {k : ℕ} (hk : k < 2 ^ 24)
    (hn : n.value = k) : n.toFloat = k := by
  have hdouble : n.toDouble = k := by
    have h53 : k < 2 ^ float64.precision := lt_trans hk (by decide)
    cases n with
    | unsigned m =>
      have hm : (m.toNat : ℚ) = k := hn
      rw [JsonNumber.toDouble, hm, BinaryFormat.round_natCast h53 (by decide)]
    | integer m =>
      have hm : (m.toInt : ℚ) = k := hn
      rw [JsonNumber.toDouble, hm, BinaryFormat.round_natCast h53 (by decide)]
    | float x => exact hn
  rw [JsonNumber.toFloat, hdouble]
  exact BinaryFormat.round_natCast hk (by decide)

/-- A reduced value is the number itself only where nothing was reduced. -/
theorem eq_of_emod_eq {z w m : ℤ} (hz : z % m = w) (hclose : |z - w| < m) : z = w := by
  have hm : 0 < m := lt_of_le_of_lt (abs_nonneg _) hclose
  obtain ⟨q, hq⟩ : m ∣ z - w := by
    rw [← hz]
    exact Int.dvd_self_sub_emod
  have hq0 : q = 0 := by
    by_contra hne
    have hone : 1 ≤ |q| := Int.one_le_abs hne
    have hbig : m ≤ |z - w| := by
      rw [hq, abs_mul, abs_of_pos hm]
      exact le_mul_of_one_le_right hm.le hone
    omega
  rw [hq0, mul_zero] at hq
  omega

/-! ## What the handlers send -/

section Sends
variable {P : MotorCommand → Bool}
attribute [local simp] Act.sending

theorem sends_claimBurette {state : BuretteState} {next : Firmware CommandResponse} :
    (claimBurette state next).Only (Act.sending P) ↔ next.Only (Act.sending P) := by
  simp [claimBurette, load]

theorem sends_motorCommand {mc : MotorCommand} :
    (sendMotorCommand mc).Only (Act.sending P) ↔ P mc = true := by
  simp [sendMotorCommand]

theorem sends_enqueueClaimed {mc : MotorCommand} {accepted : CommandResponse} {message : String} :
    (enqueueClaimed mc accepted message).Only (Act.sending P) ↔ P mc = true := by
  simp [enqueueClaimed, sendMotorCommand, store]

theorem sends_applySetting {α : Type} {v : Var α} {x : α} {mc : MotorCommand} :
    (BuretteOps.applySetting v x mc).Only (Act.sending P) ↔ P mc = true := by
  simp only [BuretteOps.applySetting, load, store, Act.sending, Program.act_bind, Program.ret_bind,
    Program.only_act, true_and, Bool.forall_bool, Bool.false_eq_true, if_false, if_true,
    Program.only_pure, and_true]
  constructor
  · intro h
    have hidle := h .idle
    simpa [sendMotorCommand] using hidle
  · intro h state
    by_cases hstate : state ≠ .idle
    · simp [hstate]
    · simp [hstate, sendMotorCommand, h]

theorem sends_handleMoveSteps {steps : Option ℤ} :
    (BuretteOps.handleMoveSteps steps).Only (Act.sending P) ↔
      ∀ n, steps = some n → P { type := .moveSteps, steps := n } = true := by
  cases steps with
  | none => simp [BuretteOps.handleMoveSteps]
  | some n => simp [BuretteOps.handleMoveSteps, sends_claimBurette, sends_enqueueClaimed]

theorem sends_handleSetSpeed {speedHz : Option ℕ} :
    (BuretteOps.handleSetSpeed speedHz).Only (Act.sending P) ↔
      ∀ n, speedHz = some n → P { type := .setSpeed, speedHz := n } = true := by
  cases speedHz with
  | none => simp [BuretteOps.handleSetSpeed]
  | some n => simp [BuretteOps.handleSetSpeed, sends_applySetting]

theorem sends_handleSetAccel {accelSteps : Option ℕ} :
    (BuretteOps.handleSetAccel accelSteps).Only (Act.sending P) ↔
      ∀ n, accelSteps = some n → P { type := .setAccel, accelHzPerS := n } = true := by
  cases accelSteps with
  | none => simp [BuretteOps.handleSetAccel]
  | some n => simp [BuretteOps.handleSetAccel, sends_applySetting]

theorem sends_handleStallGuardSetThreshold {threshold : Option ℕ} :
    (StallGuard.handleStallGuardSetThreshold threshold).Only (Act.sending P) ↔
      ∀ n, threshold = some n → P { type := .setStallThreshold, stallThreshold := n } = true := by
  cases threshold with
  | none => simp [StallGuard.handleStallGuardSetThreshold]
  | some n => simp [StallGuard.handleStallGuardSetThreshold, store]

theorem sends_handleRinse {cycles : Option ℕ} :
    (BuretteOps.handleRinse cycles).Only (Act.sending P) ↔
      ∀ n, cycles = some n → n ≠ 0 →
        P { type := .startRinse, startRinse := ⟨toU8 n, Config.rinseDefaultSpeedMlMin⟩ } = true := by
  match cycles with
  | none => simp [BuretteOps.handleRinse]
  | some 0 => simp [BuretteOps.handleRinse]
  | some (n + 1) =>
    simp only [BuretteOps.handleRinse, sends_claimBurette, load, Program.act_bind, Program.ret_bind,
      Program.only_act, Act.sending, true_and, Option.some.injEq, forall_eq', ne_eq,
      Nat.add_one_ne_zero, not_false_eq_true, forall_const]
    constructor
    · intro h
      have hcal := h (some .default)
      exact sends_enqueueClaimed.mp hcal
    · intro h cal
      cases cal with
      | none => trivial
      | some cal => exact sends_enqueueClaimed.mpr h

theorem sends_handleMoveContinuous {dir : Option Direction} {freqHz : Option ℕ} :
    (BuretteOps.handleMoveContinuous dir freqHz).Only (Act.sending P) ↔
      ∀ d n, dir = some d → freqHz = some n → n ≠ 0 →
        P { type := .moveContinuous, direction := d, speedHz := n } = true := by
  cases dir with
  | none => simp [BuretteOps.handleMoveContinuous]
  | some d =>
    cases freqHz with
    | none => simp [BuretteOps.handleMoveContinuous]
    | some n =>
      by_cases hn : n = 0
      · simp [BuretteOps.handleMoveContinuous, hn]
      · simp [BuretteOps.handleMoveContinuous, hn, sends_claimBurette, sends_enqueueClaimed]

theorem sends_handleRunCalibration {freqs : List ℚ} {speedMlMin : ℚ} :
    (BuretteCal.handleRunCalibration freqs speedMlMin).Only (Act.sending P) ↔
      (2 ≤ freqs.length → P { type := .startCalSpeedSeq
                              startCalSpeedSeq := ⟨BuretteCal.seqFreqs freqs,
                                if 0 < speedMlMin then speedMlMin
                                else Config.fillDefaultSpeedMlMin⟩ } = true) := by
  by_cases hlen : freqs.length < 2
  · have hshort : ¬ 2 ≤ freqs.length := by omega
    simp [BuretteCal.handleRunCalibration, hlen, hshort]
  · have hlong : 2 ≤ freqs.length := by omega
    simp [BuretteCal.handleRunCalibration, hlen, hlong, sends_claimBurette, sends_enqueueClaimed]

/-- In the mode `speed` a plan is made for every frequency that is not zero. -/
theorem planCalRun_speed (speedMlMin : ℚ) (freqHz : ℕ) (maxFreqHz speedCoeff : ℚ) (busy : Bool) :
    let plan := planCalRun "speed" speedMlMin freqHz maxFreqHz speedCoeff busy
    if busy = false ∧ freqHz ≠ 0 then plan.action = .calSpeed ∧ plan.freqHz = freqHz
    else plan.action = .reject := by
  cases busy with
  | true => simp [planCalRun]
  | false =>
    by_cases hfreq : freqHz = 0
    · simp [planCalRun, hfreq]
    · simp [planCalRun, hfreq]

theorem planCalRun_other {mode : String} (speedMlMin : ℚ) (freqHz : ℕ) (maxFreqHz speedCoeff : ℚ)
    (busy : Bool) (hmode : mode ≠ "speed") :
    (planCalRun mode speedMlMin freqHz maxFreqHz speedCoeff busy).action ≠ .calSpeed := by
  unfold planCalRun
  split
  · nofun
  · rename_i hvalid
    have hdose : mode = "dose" := by
      by_contra hne
      exact hvalid ⟨hne, hmode⟩
    split
    · nofun
    · nofun

/-- Only the mode `speed` puts a frequency into the motor command. -/
theorem sends_handleCalRun {mode : Option String} {freqHz speedMlMin : Option ℚ}
    (hdose : ∀ mc : MotorCommand, mc.type = .startCalDose → P mc)
    (hspeed : ∀ mc mc' : MotorCommand, mc.type = .startCalSpeed → mc'.type = .startCalSpeed →
      mc.startCalSpeed.testFreqHz = mc'.startCalSpeed.testFreqHz → P mc → P mc') :
    (BuretteOps.handleCalRun mode freqHz speedMlMin).Only (Act.sending P) ↔
      (mode.map BuretteOps.modeBuf = some "speed" → BuretteOps.calRunFreqHz freqHz ≠ 0 →
        P { type := .startCalSpeed
            startCalSpeed := ⟨0, BuretteOps.calRunFreqHz freqHz⟩ } = true) := by
  cases mode with
  | none => simp [BuretteOps.handleCalRun]
  | some mode =>
    simp only [BuretteOps.handleCalRun, load, Program.act_bind, Program.ret_bind, Program.only_act,
      Act.sending, true_and, Bool.forall_bool, Bool.false_eq_true, if_false, if_true,
      Program.only_pure, and_true, Option.map_some, Option.some.injEq]
    constructor
    · intro h hmode hfreq
      have hrun := h (some .default)
      simp only [Program.only_act, Act.sending, true_and] at hrun
      have hrun := hrun .idle
      have hplan := planCalRun_speed (speedMlMin.getD 0) (BuretteOps.calRunFreqHz freqHz)
        CalibrationData.default.maxFreqHz CalibrationData.default.speedCoeff
        (decide (BuretteState.idle ≠ .idle))
      rw [← hmode] at hplan
      revert hrun hplan
      generalize planCalRun (BuretteOps.modeBuf mode) (speedMlMin.getD 0)
        (BuretteOps.calRunFreqHz freqHz) CalibrationData.default.maxFreqHz
        CalibrationData.default.speedCoeff (decide (BuretteState.idle ≠ .idle)) = plan
      intro hrun hplan
      rw [if_pos ⟨rfl, hfreq⟩] at hplan
      obtain ⟨haction, hfreqHz⟩ := hplan
      rw [haction] at hrun
      simp only [reduceCtorEq, if_false, Program.only_act, Act.sending, true_and, Bool.forall_bool,
        if_true, Bool.false_eq_true, Program.only_pure] at hrun
      refine hspeed _ _ ?_ rfl ?_ (sends_enqueueClaimed.mp hrun)
      · simp [BuretteOps.calRunCommand, haction]
      · simp [BuretteOps.calRunCommand, haction, hfreqHz]
    · intro h cache
      cases cache with
      | none => trivial
      | some cal =>
        simp only [Program.only_act, Act.sending, true_and]
        intro state
        generalize hplan : planCalRun (BuretteOps.modeBuf mode) (speedMlMin.getD 0)
          (BuretteOps.calRunFreqHz freqHz) cal.maxFreqHz cal.speedCoeff (decide (state ≠ .idle)) = plan
        by_cases hreject : plan.action = .reject
        · rw [if_pos hreject]
          trivial
        rw [if_neg hreject]
        simp only [Program.only_act, Act.sending, true_and]
        intro ok
        cases ok with
        | false => trivial
        | true =>
          refine sends_enqueueClaimed.mpr ?_
          by_cases hmode : BuretteOps.modeBuf mode = "speed"
          · have hspec := planCalRun_speed (speedMlMin.getD 0) (BuretteOps.calRunFreqHz freqHz)
              cal.maxFreqHz cal.speedCoeff (decide (state ≠ .idle))
            rw [← hmode, hplan] at hspec
            split at hspec
            · rename_i hgood
              refine hspeed _ _ rfl ?_ ?_ (h hmode hgood.2)
              · simp [BuretteOps.calRunCommand, hspec.1]
              · simp [BuretteOps.calRunCommand, hspec.1, hspec.2]
            · exact absurd hspec hreject
          · have hother := planCalRun_other (speedMlMin.getD 0) (BuretteOps.calRunFreqHz freqHz)
              cal.maxFreqHz cal.speedCoeff (decide (state ≠ .idle)) hmode
            rw [hplan] at hother
            have hdoses : plan.action = .calDose := by
              cases haction : plan.action with
              | reject => exact absurd haction hreject
              | calDose => rfl
              | calSpeed => exact absurd haction hother
            exact hdose _ (by simp [BuretteOps.calRunCommand, hdoses])

end Sends

/-! ## Every line -/

section Lines
variable {j : Json}

theorem parseFreq_eq : parseFreq j = j.freqNumber.map JsonNumber.toFloat := by
  unfold parseFreq Json.freqNumber Json.readFloat
  cases j.numberAt "freq_hz" with
  | none => cases j.numberAt "freq" <;> simp
  | some n =>
    by_cases h0 : n.toFloat = 0
    · cases j.numberAt "freq" <;> simp [h0]
    · simp [h0]

theorem parseFreqs_eq :
    parseFreqs j = (j.freqNumbers.map JsonNumber.toFloat).take maxMeasurements := by
  unfold parseFreqs Json.freqNumbers
  cases (j.find "freqs").bind Json.asArray <;> simp

/-- Reduced modulo `2 ^ 32` into the signed range. -/
theorem bmod_eq_self {z : ℤ} : Int.bmod z (2 ^ 32) = z ↔ -2 ^ 31 ≤ z ∧ z < 2 ^ 31 := by
  rw [Int.bmod_def]
  split <;> omega

theorem toInt32_value {n : JsonNumber} {z : ℤ} (hz : n.toInt32 = some z) :
    n.value = z ↔ -2 ^ 31 ≤ n.value ∧ n.value < 2 ^ 31 := by
  have hint (k : ℤ) : (k : ℚ) = ((Int.bmod k (2 ^ 32) : ℤ) : ℚ) ↔
      -2 ^ 31 ≤ (k : ℚ) ∧ (k : ℚ) < 2 ^ 31 := by
    have hlow : (-2 ^ 31 ≤ (k : ℚ)) ↔ -2 ^ 31 ≤ k := by exact_mod_cast Iff.rfl
    have hhigh : ((k : ℚ) < 2 ^ 31) ↔ k < 2 ^ 31 := by exact_mod_cast Iff.rfl
    rw [Int.cast_inj, eq_comm, bmod_eq_self, hlow, hhigh]
  cases n with
  | unsigned k =>
    rw [JsonNumber.toInt32, Option.some.injEq] at hz
    have hk := hint k.toNat
    rw [hz, Int.cast_natCast] at hk
    exact hk
  | integer k =>
    rw [JsonNumber.toInt32, Option.some.injEq] at hz
    have hk := hint k.toInt
    rw [hz] at hk
    exact hk
  | float x => cases hz

theorem toUInt32_value {n : JsonNumber} {k : ℕ} (hk : n.toUInt32 = some k) :
    n.value = k ↔ n.value < 2 ^ 32 := by
  cases n with
  | unsigned m =>
    cases hk
    have hcast : ((m.toNat : ℚ) < 2 ^ 32) ↔ m.toNat < 2 ^ 32 := by exact_mod_cast Iff.rfl
    change (m.toNat : ℚ) = (m.toNat % 2 ^ 32 : ℕ) ↔ (m.toNat : ℚ) < 2 ^ 32
    rw [hcast, Nat.cast_inj]
    omega
  | integer m => cases hk
  | float x => cases hk

/-- The threshold passes through 32 bits to 8 bits. -/
theorem threshold_value {n : JsonNumber} {k : ℕ} (hk : n.toUInt32 = some k) :
    n.value = toU8 k ↔ n.value < 2 ^ 8 := by
  cases n with
  | unsigned m =>
    cases hk
    have hcast : ((m.toNat : ℚ) < 2 ^ 8) ↔ m.toNat < 2 ^ 8 := by exact_mod_cast Iff.rfl
    change (m.toNat : ℚ) = (m.toNat % 2 ^ 32 % 2 ^ 8 : ℕ) ↔ (m.toNat : ℚ) < 2 ^ 8
    rw [hcast, Nat.cast_inj]
    omega
  | integer m => cases hk
  | float x => cases hk

/-- The count passes through a `float`, 32 bits and 8 bits. -/
theorem cycles_value {n : JsonNumber} (h0 : toU32 n.toFloat ≠ 0) :
    n.value = toU8 (toU32 n.toFloat) ↔ ∃ k : ℕ, 0 < k ∧ k < 2 ^ 8 ∧ n.value = k := by
  have hnat {k : ℕ} (hk : k < 2 ^ 8) (hn : n.value = k) : toU32 n.toFloat = k := by
    have hk24 : k < 2 ^ 24 := by omega
    have hfloat := JsonNumber.toFloat_natCast hk24 hn
    have hfloor : trunc (k : ℚ) = k := by
      have hpos : (0 : ℚ) ≤ k := Nat.cast_nonneg k
      have hfloor : ⌊(k : ℚ)⌋ = k := Int.floor_natCast k
      rw [trunc, if_pos hpos]
      exact hfloor
    rw [hfloat, toU32, hfloor]
    omega
  constructor
  · intro hn
    have hsmall : toU8 (toU32 n.toFloat) < 2 ^ 8 := Nat.mod_lt _ (by decide)
    refine ⟨_, ?_, hsmall, hn⟩
    by_contra hzero
    have hzero : toU8 (toU32 n.toFloat) = 0 := by omega
    rw [hzero] at hn hsmall
    exact h0 (hnat hsmall hn)
  · rintro ⟨k, -, hk, hn⟩
    rw [hnat hk hn, hn, toU8, Nat.mod_eq_of_lt hk]

/-- The distance of two integers next to two numbers that are close to each other. -/
theorem int_close {x y : ℚ} {z w : ℤ} {a b c : ℚ} (hz : |(z : ℚ) - x| ≤ a) (hw : |(w : ℚ) - y| ≤ b)
    (hxy : |x - y| ≤ c) {m : ℤ} (hm : a + b + c < m) : |z - w| < m := by
  have htri₁ := abs_sub_le (z : ℚ) x w
  have htri₂ := abs_sub_le x y (w : ℚ)
  rw [abs_sub_comm y (w : ℚ)] at htri₂
  have hcast : ((|z - w| : ℤ) : ℚ) < m := by
    push_cast
    linarith
  exact_mod_cast hcast

theorem abs_le_of_lround {x : ℚ} {w : ℤ} (hw : lround x = w) (h0 : 0 ≤ w) : |x| ≤ w + 1 / 2 := by
  have herror := lround_error x
  rw [hw] at herror
  have hpos : (0 : ℚ) ≤ w := by exact_mod_cast h0
  rw [abs_le] at herror ⊢
  constructor <;> linarith

theorem toU16_value {n : JsonNumber} :
    (toU16 (lround n.toFloat) : ℤ) = lround n.value ∧ 0 ≤ lround n.toFloat ↔
      0 ≤ lround n.toFloat ∧ lround n.toFloat < 2 ^ 16 ∧ lround n.toFloat = lround n.value := by
  have hmod : (toU16 (lround n.toFloat) : ℤ) = lround n.toFloat % 2 ^ 16 := by
    unfold toU16
    omega
  rw [hmod]
  constructor
  · rintro ⟨hn, hpos⟩
    have hrange : 0 ≤ lround n.value ∧ lround n.value < 2 ^ 16 := by omega
    have hsize := abs_le_of_lround rfl hrange.1
    have hbound : ((lround n.value : ℤ) : ℚ) < 2 ^ 16 := by exact_mod_cast hrange.2
    have hclose := n.toFloat_close
    have hnear : |n.toFloat - n.value| ≤ 1 := by
      norm_num at hbound hclose
      linarith
    have hints := int_close (m := 2 ^ 16) (lround_error n.toFloat) (lround_error n.value) hnear
      (by norm_num)
    have heq := eq_of_emod_eq hn hints
    omega
  · rintro ⟨hpos, hlt, heq⟩
    omega

theorem toU32_value {n : JsonNumber} :
    (toU32 n.toFloat : ℤ) = lround n.value ↔
      0 ≤ trunc n.toFloat ∧ trunc n.toFloat < 2 ^ 32 ∧ trunc n.toFloat = lround n.value := by
  have hmod : (toU32 n.toFloat : ℤ) = trunc n.toFloat % 2 ^ 32 := by
    unfold toU32
    omega
  rw [hmod]
  constructor
  · intro hn
    have hrange : 0 ≤ lround n.value ∧ lround n.value < 2 ^ 32 := by omega
    have hsize := abs_le_of_lround rfl hrange.1
    have hbound : ((lround n.value : ℤ) : ℚ) < 2 ^ 32 := by exact_mod_cast hrange.2
    have hclose := n.toFloat_close
    have hnear : |n.toFloat - n.value| ≤ 2000 := by
      norm_num at hbound hclose
      linarith
    have hints := int_close (m := 2 ^ 32) (trunc_error n.toFloat) (lround_error n.value) hnear
      (by norm_num)
    have heq := eq_of_emod_eq hn hints
    omega
  · rintro ⟨hpos, hlt, heq⟩
    omega

theorem lround_nonneg {x : ℚ} (hx : 0 ≤ x) : 0 ≤ lround x := by
  have hfloor : (0 : ℤ) ≤ ⌊x + 1 / 2⌋ := Int.floor_nonneg.mpr (by linarith)
  rw [lround, if_pos hx]
  exact hfloor

theorem fitsSequence_iff {n : JsonNumber} :
    lround n.value = (((if 0 < n.toFloat then toU16 (lround n.toFloat) else 0) : ℕ) : ℤ) ↔
      n.fitsSequence := by
  unfold JsonNumber.fitsSequence
  by_cases hpos : 0 < n.toFloat
  · have hvalue := toU16_value (n := n)
    have hnonneg := lround_nonneg hpos.le
    rw [if_pos hpos, if_pos hpos]
    rw [eq_comm]
    simpa [hnonneg] using hvalue
  · rw [if_neg hpos, if_neg hpos, Nat.cast_zero]

/-- The three frequencies of the motor command are those of the line if these are at most three and
each of them fits. -/
theorem seqFreqs_carried {nums : List JsonNumber} :
    nums.map (fun n => lround n.value) <+:
        (BuretteCal.seqFreqs ((nums.map JsonNumber.toFloat).take maxMeasurements)).map
          (fun n : ℕ => (n : ℤ)) ↔
      nums.length ≤ 3 ∧ ∀ n ∈ nums, n.fitsSequence := by
  have hlength (freqs : List ℚ) : (BuretteCal.seqFreqs freqs).length = 3 := by
    simp [BuretteCal.seqFreqs]
  match nums with
  | [] => simp
  | [a] => simp [BuretteCal.seqFreqs, maxMeasurements, Config.maxCalSeqPoints, List.range_succ,
      ← fitsSequence_iff]
  | [a, b] => simp [BuretteCal.seqFreqs, maxMeasurements, Config.maxCalSeqPoints, List.range_succ,
      ← fitsSequence_iff]
  | [a, b, c] => simp [BuretteCal.seqFreqs, maxMeasurements, Config.maxCalSeqPoints,
      List.range_succ, ← fitsSequence_iff]
  | a :: b :: c :: d :: rest =>
    constructor
    · intro hinit
      have hle := hinit.length_le
      rw [List.length_map, List.length_map, hlength, List.length_cons, List.length_cons,
        List.length_cons, List.length_cons] at hle
      omega
    · intro hfits
      have hle := hfits.1
      simp only [List.length_cons] at hle
      omega

theorem sending_mono {P Q : MotorCommand → Bool} (h : ∀ mc, P mc = true → Q mc = true) {β : Type}
    (a : Act β) (ha : Act.sending P a = true) : Act.sending Q a = true := by
  induction a with
  | xQueueSend mc => exact h mc ha
  | _ => exact ha

/-- The commands without a number in their motor command. -/
theorem kept_unnumbered (cmd : Command) (hall : j.carried cmd.type = fun _ => true) :
    (handlerOf cmd).Only (Act.sending (j.carried cmd.type)) := by
  refine (only_handlerOf cmd).mono fun a ha => sending_mono (fun mc _ => ?_) a ha
  rw [hall]

theorem kept_moveSteps :
    (handlerOf (j.command .moveSteps)).Only (Act.sending (j.carried .moveSteps)) ↔
      j.numbersFit .moveSteps := by
  change (BuretteOps.handleMoveSteps (j.readInt "steps")).Only _ ↔ _
  rw [sends_handleMoveSteps]
  unfold Json.readInt Json.numbersFit Json.carried
  cases j.numberAt "steps" with
  | none => simp
  | some n =>
    cases hz : n.toInt32 with
    | none => simp [hz]
    | some z => simpa [hz] using toInt32_value hz

/-- The shape shared by the parameters that are unsigned integers. -/
theorem kept_unsigned (num : Option JsonNumber) (conv : ℕ → ℕ) (range : ℚ → Prop)
    (h : ∀ (n : JsonNumber) k, n.toUInt32 = some k → (n.value = conv k ↔ range n.value)) :
    (∀ k, (num.bind JsonNumber.toUInt32).map conv = some k →
        num.map JsonNumber.value = some (k : ℚ)) ↔
      ∀ n, num = some n → n.toUInt32.isSome → range n.value := by
  cases num with
  | none => simp
  | some n =>
    cases hk : n.toUInt32 with
    | none => simp [hk]
    | some k => simpa [hk] using h n k hk

theorem kept_setSpeed :
    (handlerOf (j.command .setSpeed)).Only (Act.sending (j.carried .setSpeed)) ↔
      j.numbersFit .setSpeed := by
  change (BuretteOps.handleSetSpeed (j.readU32 "speed")).Only _ ↔ _
  rw [sends_handleSetSpeed]
  unfold Json.readU32 Json.numbersFit Json.carried
  have hkept := kept_unsigned (j.numberAt "speed") id (· < 2 ^ 32)
    fun n k hk => toUInt32_value hk
  simpa using hkept

theorem kept_setAccel :
    (handlerOf (j.command .setAccel)).Only (Act.sending (j.carried .setAccel)) ↔
      j.numbersFit .setAccel := by
  change (BuretteOps.handleSetAccel (j.readU32 "accel")).Only _ ↔ _
  rw [sends_handleSetAccel]
  unfold Json.readU32 Json.numbersFit Json.carried
  have hkept := kept_unsigned (j.numberAt "accel") id (· < 2 ^ 32)
    fun n k hk => toUInt32_value hk
  simpa using hkept

theorem kept_setThreshold :
    (handlerOf (j.command .stallGuardSetThreshold)).Only
        (Act.sending (j.carried .stallGuardSetThreshold)) ↔
      j.numbersFit .stallGuardSetThreshold := by
  change (StallGuard.handleStallGuardSetThreshold ((j.readU32 "threshold").map toU8)).Only _ ↔ _
  rw [sends_handleStallGuardSetThreshold]
  unfold Json.readU32 Json.numbersFit Json.carried
  have hkept := kept_unsigned (j.numberAt "threshold") toU8 (· < 2 ^ 8)
    fun n k hk => threshold_value hk
  simpa using hkept

theorem kept_rinse :
    (handlerOf (j.command .rinse)).Only (Act.sending (j.carried .rinse)) ↔ j.numbersFit .rinse := by
  change (BuretteOps.handleRinse ((j.readFloat "volume").map toU32)).Only _ ↔ _
  rw [sends_handleRinse]
  unfold Json.readFloat Json.numbersFit Json.carried
  cases j.numberAt "volume" with
  | none => simp
  | some n =>
    by_cases h0 : toU32 n.toFloat = 0
    · simp [h0]
    · simpa [h0] using cycles_value h0

theorem kept_moveToStop :
    (handlerOf (j.command .moveToStop)).Only (Act.sending (j.carried .moveToStop)) ↔
      j.numbersFit .moveToStop := by
  change (BuretteOps.handleMoveContinuous (parseDirection j "direction")
    ((parseFreq j).map toU32)).Only _ ↔ _
  rw [sends_handleMoveContinuous, parseFreq_eq]
  unfold Json.numbersFit Json.carried
  cases parseDirection j "direction" with
  | none => simp
  | some d =>
    cases j.freqNumber with
    | none => simp
    | some n =>
      by_cases h0 : toU32 n.toFloat = 0
      · simp [h0]
      · have hvalue := toU32_value (n := n)
        rw [eq_comm] at hvalue
        simpa [h0] using hvalue

theorem kept_calRun :
    (handlerOf (j.command .calRun)).Only (Act.sending (j.carried .calRun)) ↔
      j.numbersFit .calRun := by
  change (BuretteOps.handleCalRun (j.stringAt "mode") (parseFreq j)
    (j.readFloat "speed_ml_min")).Only _ ↔ _
  rw [parseFreq_eq, sends_handleCalRun]
  · unfold Json.numbersFit Json.carried
    by_cases hmode : (j.stringAt "mode").map BuretteOps.modeBuf = some "speed"
    · cases j.freqNumber with
      | none => simp [hmode, BuretteOps.calRunFreqHz]
      | some n =>
        by_cases h0 : BuretteOps.calRunFreqHz (some n.toFloat) = 0
        · simp [hmode, h0]
        · have hpos : 0 < n.toFloat := by
            by_contra hneg
            exact h0 (by rw [BuretteOps.calRunFreqHz, if_neg hneg])
          have hfreq : BuretteOps.calRunFreqHz (some n.toFloat) = toU16 (lround n.toFloat) := by
            rw [BuretteOps.calRunFreqHz, if_pos hpos]
          have hvalue := toU16_value (n := n)
          have hnonneg := lround_nonneg hpos.le
          simp only [hnonneg, and_true, true_and] at hvalue
          rw [hfreq] at h0
          rw [eq_comm] at hvalue
          simpa [hmode, hfreq, h0] using hvalue
    · simp [hmode]
  · intro mc htype
    simp [Json.carried, htype]
  · intro mc mc' htype htype' hfreq hmc
    simpa [Json.carried, htype, htype', hfreq] using hmc

theorem kept_calRunSpeedSeq :
    (handlerOf (j.command .calRunSpeedSeq)).Only (Act.sending (j.carried .calRunSpeedSeq)) ↔
      j.numbersFit .calRunSpeedSeq := by
  change (BuretteCal.handleRunCalibration (parseFreqs j)
    ((j.readFloat "speed_ml_min").getD 20)).Only _ ↔ _
  rw [sends_handleRunCalibration, parseFreqs_eq]
  unfold Json.numbersFit Json.carried
  have hlength : 2 ≤ ((j.freqNumbers.map JsonNumber.toFloat).take maxMeasurements).length ↔
      ¬ j.freqNumbers.length < 2 := by
    rw [List.length_take, List.length_map, maxMeasurements]
    omega
  rw [hlength, decide_eq_true_eq, seqFreqs_carried]
  tauto

/-- The handler of a line keeps its numbers if and only if they fit. -/
theorem kept_iff (type : CommandType) :
    (handlerOf (j.command type)).Only (Act.sending (j.carried type)) ↔ j.numbersFit type := by
  cases type with
  | moveSteps => exact kept_moveSteps
  | setSpeed => exact kept_setSpeed
  | setAccel => exact kept_setAccel
  | stallGuardSetThreshold => exact kept_setThreshold
  | rinse => exact kept_rinse
  | moveToStop => exact kept_moveToStop
  | calRun => exact kept_calRun
  | calRunSpeedSeq => exact kept_calRunSpeedSeq
  | _ => exact ⟨fun _ => trivial, fun _ => kept_unnumbered (j.command _) rfl⟩

theorem dispatch_only {P : MotorCommand → Bool} {cmd : Command} :
    (dispatch cmd).Only (Act.sending P) ↔ (handlerOf cmd).Only (Act.sending P) := by
  constructor
  · intro h
    exact h.of_bind
  · intro h
    exact h.bind fun rsp => trivial

end Lines

end Ecotiter
