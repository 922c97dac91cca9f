import Mathlib.Algebra.BigOperators.Group.List.Basic
import Mathlib.Tactic.Ring
import Ecotiter.MotorCalibration

/-!
# The volumes of a dose plan

A dose that does not fit into one stroke is planned as strokes of the nominal volume and a last
one of what remains. The number of strokes is computed twice, by different roundings.
-/

namespace Ecotiter

namespace DosePlan

/-- The volumes of the cycles of a plan. -/
def cycleVolumes (plan : DosePlan) (volumeMl nominalVolumeMl : ℚ) : List ℚ :=
  if plan.singleCycle then [volumeMl]
  else List.replicate (plan.totalCycles - 1) nominalVolumeMl ++ [plan.remainingVolMl]

/-- The cycles of a plan fit into the burette and deliver the volume. -/
structure Accounts (plan : DosePlan) (volumeMl nominalVolumeMl : ℚ) : Prop where
  valid : plan.valid
  sum : |(plan.cycleVolumes volumeMl nominalVolumeMl).sum - volumeMl| ≤ 1 / 100
  fits : ∀ c ∈ plan.cycleVolumes volumeMl nominalVolumeMl, 0 < c ∧ c ≤ nominalVolumeMl + 1 / 1000

end DosePlan

/-- What is left of a volume after the whole strokes in it. -/
def lastStroke (volumeMl nominalVolumeMl : ℚ) : ℚ :=
  volumeMl - nominalVolumeMl * (volumeMl / nominalVolumeMl).floor

/-- The volumes that are one stroke, or whole strokes up to a trace. -/
def WholeStrokes (volumeMl nominalVolumeMl : ℚ) : Prop :=
  volumeMl ≤ nominalVolumeMl + 1 / 1000 ∨
    lastStroke volumeMl nominalVolumeMl < 1 / 100 ∧
      (lastStroke volumeMl nominalVolumeMl < nominalVolumeMl / 1000000 ∨
        nominalVolumeMl - lastStroke volumeMl nominalVolumeMl ≤ 1 / 100)

section
variable {v nominal : ℚ}

/-- The whole strokes in a volume of more than one. -/
theorem exists_strokes (hhigh : v ≤ 50) (hnominal : 1 / 1000 ≤ nominal) (hmore : nominal < v) :
    ∃ t : ℕ, 1 ≤ t ∧ toU32 (v / nominal) = t ∧ trunc (v / nominal) = t ∧
      lastStroke v nominal = v - nominal * t ∧ v / nominal = t + lastStroke v nominal / nominal ∧
      0 ≤ lastStroke v nominal ∧ lastStroke v nominal < nominal ∧ v / nominal ≤ 50000 := by
  have hpos : 0 < nominal := by linarith
  have hone : 1 < v / nominal := (one_lt_div hpos).mpr hmore
  have hrange : v / nominal ≤ 50000 := by
    rw [div_le_iff₀ hpos]
    linarith
  have hfloor : 1 ≤ (v / nominal).floor := Rat.le_floor_iff.mpr (by exact_mod_cast hone.le)
  obtain ⟨t, ht⟩ := Int.eq_ofNat_of_zero_le (by omega : 0 ≤ (v / nominal).floor)
  have hle : (t : ℚ) ≤ v / nominal := by
    have hfl := Rat.floor_le (v / nominal)
    rw [ht] at hfl
    exact_mod_cast hfl
  have hlt : v / nominal < t + 1 := by
    have hfl := Rat.lt_floor_add_one (v / nominal)
    rw [ht] at hfl
    exact_mod_cast hfl
  have hlast : lastStroke v nominal = v - nominal * t := by
    rw [lastStroke, ht]
    rfl
  have hquot : v / nominal = t + lastStroke v nominal / nominal := by
    rw [hlast, sub_div, mul_div_cancel_left₀ _ hpos.ne']
    ring
  refine ⟨t, by omega, (toU32_eq_iff (by linarith) (by linarith)).mpr ⟨hle, hlt⟩, ?_, hlast, hquot,
    ?_, ?_, hrange⟩
  · rw [trunc, if_pos (by linarith), ht]
  · have hmul := (le_div_iff₀ hpos).mp hle
    rw [hlast]
    linarith
  · have hmul := (div_lt_iff₀ hpos).mp hlt
    rw [hlast]
    linarith

/-- The number of cycles rounded up, but for a trace. -/
theorem toU32_cycles {t : ℕ} {r : ℚ} (hpos : 0 < nominal) (hquot : v / nominal = t + r / nominal)
    (hr : 0 ≤ r) (hless : r < nominal) (hrange : v / nominal ≤ 50000) :
    toU32 (v / nominal + 999999 / 1000000) = if r < nominal / 1000000 then t else t + 1 := by
  have hnonneg : 0 ≤ r / nominal := div_nonneg hr hpos.le
  have hone : r / nominal < 1 := (div_lt_one hpos).mpr hless
  have htrace : r < nominal / 1000000 ↔ r / nominal < 1 / 1000000 := by
    rw [div_lt_iff₀ hpos]
    constructor <;> intro h <;> linarith
  have ht : (0 : ℚ) ≤ t := t.cast_nonneg
  -- The quotients are variables from here on, so that only linear facts are left.
  generalize v / nominal = q at hquot hrange ⊢
  generalize r / nominal = f at hquot hnonneg hone htrace
  subst hquot
  by_cases h : r < nominal / 1000000
  · have hsmall := htrace.mp h
    rw [if_pos h, toU32_eq_iff (by linarith) (by linarith)]
    constructor <;> linarith
  · have hlarge := not_lt.mp (mt htrace.mpr h)
    rw [if_neg h, toU32_eq_iff (by linarith) (by linarith)]
    push_cast
    constructor <;> linarith

theorem sum_cycles {n : ℕ} (hn : 1 ≤ n) (r : ℚ) :
    (List.replicate (n - 1) nominal ++ [r]).sum = (n - 1) * nominal + r := by
  rw [List.sum_append, List.sum_replicate, List.sum_singleton, nsmul_eq_mul, Nat.cast_sub hn,
    Nat.cast_one]

theorem fits_cycles {n : ℕ} {r : ℚ} (hpos : 0 < nominal) (hr : 0 < r) (hle : r ≤ nominal) :
    ∀ c ∈ List.replicate n nominal ++ [r], 0 < c ∧ c ≤ nominal + 1 / 1000 := by
  intro c hc
  rcases List.mem_append.mp hc with hwhole | hlast
  · rw [List.eq_of_mem_replicate hwhole]
    constructor <;> linarith
  · rw [List.mem_singleton.mp hlast]
    constructor <;> linarith

end

section
variable {v x : ℚ} {cal : CalibrationData}

theorem dose_accepted (hlow : 1 / 100 ≤ v) (hhigh : v ≤ 50)
    (hnominal : 1 / 1000 ≤ cal.nominalVolumeMl) :
    ¬ (v < 1 / 100 ∨ 50 < v ∨ cal.nominalVolumeMl < 1 / 1000) := by
  rintro (h | h | h) <;> linarith

/-- The plan of a volume that leaves less than 0.01 ml after its whole strokes. -/
theorem planDose_trace (hlow : 1 / 100 ≤ v) (hhigh : v ≤ 50)
    (hnominal : 1 / 1000 ≤ cal.nominalVolumeMl) (hmore : cal.nominalVolumeMl + 1 / 1000 < v)
    (htrace : lastStroke v cal.nominalVolumeMl < 1 / 100) :
    ∃ n : ℕ, 1 ≤ n ∧
      n * cal.nominalVolumeMl = v - lastStroke v cal.nominalVolumeMl +
        (if lastStroke v cal.nominalVolumeMl < cal.nominalVolumeMl / 1000000 then 0
          else cal.nominalVolumeMl) ∧
      (planDose v x cal).valid ∧
      (planDose v x cal).cycleVolumes v cal.nominalVolumeMl =
        List.replicate (n - 1) cal.nominalVolumeMl ++ [cal.nominalVolumeMl] := by
  have hpos : 0 < cal.nominalVolumeMl := by linarith
  obtain ⟨t, hone, -, htrunc, hlast, hquot, hnonneg, hless, hrange⟩ :=
    exists_strokes hhigh hnominal (by linarith : cal.nominalVolumeMl < v)
  have hcycles := toU32_cycles hpos hquot hnonneg hless hrange
  have hremaining : v - cal.nominalVolumeMl * trunc (v / cal.nominalVolumeMl) < 1 / 100 := by
    rw [htrunc, Int.cast_natCast, ← hlast]
    exact htrace
  refine ⟨toU32 (v / cal.nominalVolumeMl + 999999 / 1000000), ?_, ?_, ?_⟩
  · rw [hcycles]
    split <;> omega
  · rw [hcycles, hlast]
    split
    · ring
    · push_cast
      ring
  · unfold planDose DosePlan.cycleVolumes
    rw [if_neg (dose_accepted hlow hhigh hnominal), if_pos hmore, if_pos hremaining]
    exact ⟨rfl, rfl⟩

/-- The plan of a volume that leaves more: the strokes are counted as if nothing were left. -/
theorem planDose_remainder (hlow : 1 / 100 ≤ v) (hhigh : v ≤ 50)
    (hnominal : 1 / 1000 ≤ cal.nominalVolumeMl) (hmore : cal.nominalVolumeMl + 1 / 1000 < v)
    (htrace : 1 / 100 ≤ lastStroke v cal.nominalVolumeMl) :
    ∃ n : ℕ, 1 ≤ n ∧ n * cal.nominalVolumeMl = v - lastStroke v cal.nominalVolumeMl ∧
      (planDose v x cal).cycleVolumes v cal.nominalVolumeMl =
        List.replicate (n - 1) cal.nominalVolumeMl ++ [lastStroke v cal.nominalVolumeMl] := by
  obtain ⟨t, hone, hcast, htrunc, hlast, -⟩ :=
    exists_strokes hhigh hnominal (by linarith : cal.nominalVolumeMl < v)
  have hremaining : v - cal.nominalVolumeMl * trunc (v / cal.nominalVolumeMl) =
      lastStroke v cal.nominalVolumeMl := by
    rw [htrunc, Int.cast_natCast, hlast]
  have hcount : (if 1 < t + 1 then t + 1 - 1 else t + 1) = t := if_pos (by omega)
  refine ⟨t, hone, by rw [hlast]; ring, ?_⟩
  unfold planDose DosePlan.cycleVolumes
  rw [if_neg (dose_accepted hlow hhigh hnominal), if_pos hmore, hremaining,
    if_neg (not_lt.mpr htrace), hcast]
  dsimp only
  rw [hcount]
  rfl

/-- A plan accounts for the volume exactly if the volume is at most one stroke, or whole strokes up
to a trace. In every other plan a whole stroke is missing, or one too many. -/
theorem planDose_accounts_iff (x : ℚ) (hlow : 1 / 100 ≤ v) (hhigh : v ≤ 50)
    (hnominal : 1 / 1000 ≤ cal.nominalVolumeMl) :
    (planDose v x cal).Accounts v cal.nominalVolumeMl ↔ WholeStrokes v cal.nominalVolumeMl := by
  have hpos : 0 < cal.nominalVolumeMl := by linarith
  by_cases hmore : cal.nominalVolumeMl + 1 / 1000 < v
  · have hseveral : ¬ v ≤ cal.nominalVolumeMl + 1 / 1000 := not_le.mpr hmore
    obtain ⟨-, -, -, -, -, -, hnonneg, hless, -⟩ :=
      exists_strokes hhigh hnominal (by linarith : cal.nominalVolumeMl < v)
    by_cases htrace : lastStroke v cal.nominalVolumeMl < 1 / 100
    · obtain ⟨n, hn, hstrokes, hvalid, hcycles⟩ :=
        planDose_trace (x := x) hlow hhigh hnominal hmore htrace
      have hsum : ((planDose v x cal).cycleVolumes v cal.nominalVolumeMl).sum =
          n * cal.nominalVolumeMl := by
        rw [hcycles, sum_cycles hn]
        ring
      have hexact : |n * cal.nominalVolumeMl - v| ≤ 1 / 100 ↔
          lastStroke v cal.nominalVolumeMl < cal.nominalVolumeMl / 1000000 ∨
            cal.nominalVolumeMl - lastStroke v cal.nominalVolumeMl ≤ 1 / 100 := by
        rw [hstrokes, abs_le]
        by_cases h : lastStroke v cal.nominalVolumeMl < cal.nominalVolumeMl / 1000000
        · rw [if_pos h]
          refine iff_of_true ?_ (.inl h)
          constructor <;> linarith
        · rw [if_neg h]
          constructor
          · rintro ⟨-, hle⟩
            exact .inr (by linarith)
          · rintro (hlt | hle)
            · exact absurd hlt h
            · constructor <;> linarith
      constructor
      · intro h
        exact .inr ⟨htrace, hexact.mp (hsum ▸ h.sum)⟩
      · rintro (h | ⟨-, h⟩)
        · exact absurd h hseveral
        · refine ⟨hvalid, ?_, ?_⟩
          · rw [hsum]
            exact hexact.mpr h
          · rw [hcycles]
            exact fits_cycles hpos hpos le_rfl
    · obtain ⟨n, hn, hstrokes, hcycles⟩ :=
        planDose_remainder (x := x) hlow hhigh hnominal hmore (not_lt.mp htrace)
      refine iff_of_false (fun h => ?_) ?_
      · have hsum := h.sum
        rw [hcycles, sum_cycles hn, abs_le] at hsum
        linarith
      · rintro (h | ⟨h, -⟩)
        · exact hseveral h
        · exact htrace h
  · refine iff_of_true ?_ (.inl (not_lt.mp hmore))
    have hcycles : (planDose v x cal).cycleVolumes v cal.nominalVolumeMl = [v] := by
      unfold planDose DosePlan.cycleVolumes
      rw [if_neg (dose_accepted hlow hhigh hnominal), if_neg hmore]
      rfl
    refine ⟨?_, ?_, ?_⟩
    · rw [planDose_valid, doseVolumeValid, decide_eq_false (dose_accepted hlow hhigh hnominal)]
      rfl
    · rw [hcycles, List.sum_singleton, sub_self, abs_zero]
      norm_num
    · intro c hc
      rw [hcycles] at hc
      rw [List.mem_singleton.mp hc]
      exact ⟨by linarith, not_lt.mp hmore⟩

/-- A dose of 16.28 ml is two strokes of the default burette, planned as such. -/
theorem planDose_accounts_twoStrokes :
    (planDose (1628 / 100) 0 .default).Accounts (1628 / 100) (814 / 100) ↔
      WholeStrokes (1628 / 100) (814 / 100) :=
  planDose_accounts_iff 0 (by norm_num) (by norm_num)
    CalibrationData.default_nominalVolumeMl_le

/-- A dose of 12 ml is planned as one cycle of 3.86 ml. -/
theorem planDose_twelve :
    ¬ ∀ (v x : ℚ) (cal : CalibrationData), 1 / 100 ≤ v → v ≤ 50 → 1 / 1000 ≤ cal.nominalVolumeMl →
      (planDose v x cal).Accounts v cal.nominalVolumeMl := by
  intro h
  have haccounts := (h 12 0 .default (by norm_num) (by norm_num)
    CalibrationData.default_nominalVolumeMl_le).sum
  have hcycles : (planDose 12 0 .default).cycleVolumes 12 CalibrationData.default.nominalVolumeMl =
      [386 / 100] := by decide +kernel
  rw [hcycles, List.sum_singleton, abs_le] at haccounts
  norm_num at haccounts

end
end Ecotiter
