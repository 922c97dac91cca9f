import Ecotiter.OneWire

/-!
# The temperatures that are stored

A reading resets the sensor, whatever it was doing, has it measure, and fetches the scratchpad. The
temperature thread stores hundredths of a degree, or the value that stands for no temperature.
-/

namespace Ecotiter
namespace OneWire
namespace Bus
open ByteBits

/-! ## A reading -/

theorem reset_detached (bus : Bus) (hlevel : bus.level = true) (h : bus.sensor.attached = false) :
    ∃ bus', reset.run bus = (false, bus') ∧ Later bus bus' := by
  have hsensor : (bus.slot 480 75).sensor = { bus.sensor with mode := .present, selected := false } :=
    bus.sensor.slot_reset bus.timing (bus.now + 480)
  have hpulled : (bus.slot 480 75).pulled = false := by rw [pulled, hsensor, h, Bool.false_and]
  refine ⟨bus.slot 480 480, ?_, later_slot _ _ _⟩
  rw [reset_run hlevel, hpulled]

/-- A reset and the byte that selects the only sensor. -/
theorem select_run (bus : Bus) (hfits : bus.timing.Fits) (hlevel : bus.level = true)
    (hattached : bus.sensor.attached = true) :
    ∃ bus₁ bus₂, reset.run bus = (true, bus₁) ∧ skipRom.run bus₁ = ((), bus₂) ∧ Later bus bus₂ ∧
      bus₂.sensor = { bus.sensor with mode := .receiving [], selected := true } := by
  obtain ⟨bus₁, hreset, hlater₁, hsensor₁⟩ := reset_attached bus hfits hlevel
  have hhears : bus₁.sensor.Hears [] := Or.inr ⟨by rw [hsensor₁], rfl⟩
  obtain ⟨t, bus₂, hskip, hlater₂, -, -, hsensor₂⟩ :=
    writeByte_run 0xCC bus₁ (hlater₁.timing ▸ hfits) hlater₁.level hhears
  refine ⟨bus₁, bus₂, hattached ▸ hreset, hskip, hlater₁.trans hlater₂, ?_⟩
  rw [hsensor₂, hsensor₁]
  rfl

theorem convertT_run (bus : Bus) (hfits : bus.timing.Fits) (hlevel : bus.level = true)
    (hmode : bus.sensor.mode = .receiving []) (hselected : bus.sensor.selected = true) :
    ∃ t bus', convertT.run bus = ((), bus') ∧ Later bus bus' ∧ t ≤ bus'.now ∧
      bus'.sensor = { bus.sensor with
        converted := some (t + bus.timing.conversion), scratchpad := bus.sensor.content t,
        mode := .asleep } := by
  obtain ⟨t, bus', hrun, hlater, -, ht, hsensor⟩ :=
    writeByte_run 0x44 bus hfits hlevel (Or.inl hmode)
  refine ⟨t, bus', hrun, hlater, ht, ?_⟩
  rw [hsensor, Sensor.command, if_neg (Bool.eq_false_iff.not.mpr (not_not.mpr hselected)), if_pos rfl]

theorem readScratchpad_run (bus : Bus) (hfits : bus.timing.Fits) (hlevel : bus.level = true)
    (hattached : bus.sensor.attached = true) (hmode : bus.sensor.mode = .receiving [])
    (hselected : bus.sensor.selected = true) {t : ℕ} (hconverted : bus.sensor.converted = some t)
    (ht : t ≤ bus.now) :
    ∃ bus', readScratchpad.run bus = (bus.sensor.measured.toList, bus') ∧ Later bus bus' := by
  obtain ⟨t', bus₁, hwrite, hlater₁, hfrom, -, hsensor⟩ :=
    writeByte_run 0xBE bus hfits hlevel (Or.inl hmode)
  have hcontent : bus.sensor.content t' = bus.sensor.measured := by
    rw [Sensor.content, hconverted]
    exact if_pos (ht.trans hfrom)
  have hother : (0xBE : UInt8) ≠ 0x44 := by decide
  rw [Sensor.command, if_neg (Bool.eq_false_iff.not.mpr (not_not.mpr hselected)), if_neg hother,
    if_pos rfl, hcontent] at hsensor
  have hsends : Sends bus₁.sensor (bus.sensor.measured.toList.flatMap bits) bus₁.sensor :=
    ⟨none, by rw [hsensor]⟩
  have hlength : (List.range 9).length = bus.sensor.measured.toList.length := by
    rw [List.length_range, Vector.length_toList]
  have hattached₁ : bus₁.sensor.attached = true := by rw [hsensor, hattached]
  obtain ⟨bus', hread, hlater, -⟩ := readBytes_run bus.sensor.measured.toList (List.range 9) bus₁
    (hlater₁.timing ▸ hfits) hlength hlater₁.level hattached₁ hsends
  refine ⟨bus', ?_, hlater₁.trans hlater⟩
  rw [readScratchpad, run_bind, hwrite, hread]

theorem vTaskDelay_run (ms : ℕ) (bus : Bus) (hlevel : bus.level = true) :
    ∃ bus', (vTaskDelay ms).run bus = ((), bus') ∧ Later bus bus' ∧
      bus'.now = bus.now + (1000 * ms - bus.timing.elapsed) ∧ bus'.sensor = bus.sensor :=
  ⟨_, rfl, ⟨hlevel, rfl, Nat.le_add_right _ _⟩, rfl, rfl⟩

/-- A reading, whatever the sensor was doing before. -/
theorem readSensor_run (bus : Bus) (hfits : bus.timing.Fits) (hlevel : bus.level = true) :
    ∃ bus', Later bus bus' ∧ readSensor.run bus =
      (if bus.sensor.attached ∧ ¬ (temperature bus.sensor.measured.toList < -55 ∨
          125 < temperature bus.sensor.measured.toList) then
        some (temperature bus.sensor.measured.toList) else none, bus') := by
  cases hattached : bus.sensor.attached with
  | false =>
    obtain ⟨bus', hreset, hlater⟩ := reset_detached bus hlevel hattached
    refine ⟨bus', hlater, ?_⟩
    have hnone : ¬ (false = true ∧ ¬ (temperature bus.sensor.measured.toList < -55 ∨
        125 < temperature bus.sensor.measured.toList)) := fun h => Bool.false_ne_true h.1
    rw [readSensor, run_bind, hreset, if_neg hnone]
    rfl
  | true =>
    obtain ⟨bus₁, bus₂, hreset, hskip, hlater, hsensor₂⟩ := select_run bus hfits hlevel hattached
    have hfits₂ : bus₂.timing.Fits := hlater.timing ▸ hfits
    obtain ⟨t, bus₃, hconvert, hlater₃, ht, hsensor₃⟩ :=
      convertT_run bus₂ hfits₂ hlater.level (by rw [hsensor₂]) (by rw [hsensor₂])
    obtain ⟨bus₄, hdelay, hlater₄, hnow, hsensor₄⟩ := vTaskDelay_run 800 bus₃ hlater₃.level
    have hlater₂₄ := hlater₃.trans hlater₄
    have hfits₄ : bus₄.timing.Fits := hlater₂₄.timing ▸ hfits₂
    have hattached₄ : bus₄.sensor.attached = true := by rw [hsensor₄, hsensor₃, hsensor₂, hattached]
    obtain ⟨bus₅, bus₆, hreset', hskip', hlater₆, hsensor₆⟩ :=
      select_run bus₄ hfits₄ hlater₄.level hattached₄
    have hover : t + bus₂.timing.conversion ≤ bus₆.now := by
      have hconversion := hfits₂.conversion
      have hnow₆ := hlater₆.now
      have htiming := congrArg Timing.elapsed hlater₃.timing
      omega
    have hmeasured : bus₆.sensor.measured = bus.sensor.measured := by
      rw [hsensor₆, hsensor₄, hsensor₃, hsensor₂]
    obtain ⟨bus', hread, hlater'⟩ := readScratchpad_run bus₆ (hlater₆.timing ▸ hfits₄) hlater₆.level
      (by rw [hsensor₆, hattached₄]) (by rw [hsensor₆]) (by rw [hsensor₆])
      (by rw [hsensor₆, hsensor₄, hsensor₃]) hover
    refine ⟨bus', hlater.trans (hlater₂₄.trans (hlater₆.trans hlater')), ?_⟩
    rw [readSensor, run_bind, hreset]
    show (skipRom >>= _).run bus₁ = _
    rw [run_bind, hskip, run_bind, hconvert, run_bind, hdelay, run_bind, hreset']
    show (skipRom >>= _).run bus₅ = _
    rw [run_bind, hskip', run_bind, hread, hmeasured]
    by_cases hrange : temperature bus.sensor.measured.toList < -55 ∨
        125 < temperature bus.sensor.measured.toList
    · simp [hrange]
      rfl
    · simp [hrange]
      rfl

/-! ## Temperatures -/

/-- The temperature that a scratchpad holds, in sixteenths of a degree. -/
def sixteenths (s : Scratchpad) : ℤ :=
  let raw : ℤ := 256 * (s.toList.getD 1 0).toNat + (s.toList.getD 0 0).toNat
  if raw < 32768 then raw else raw - 65536

theorem abs_sixteenths_le (s : Scratchpad) : |sixteenths s| ≤ 32768 := by
  have hlow := (s.toList.getD 0 0).toNat_lt
  have hhigh := (s.toList.getD 1 0).toNat_lt
  unfold sixteenths
  rw [abs_le]
  dsimp only
  split <;> omega

theorem raw_toInt (lo hi : UInt8) :
    (hi.toUInt16 <<< 8 ||| lo.toUInt16 : UInt16).toInt16.toInt =
      if 256 * (hi.toNat : ℤ) + lo.toNat < 32768 then 256 * (hi.toNat : ℤ) + lo.toNat
      else 256 * (hi.toNat : ℤ) + lo.toNat - 65536 := by
  have hlo := lo.toNat_lt
  have hhi := hi.toNat_lt
  have hor := Nat.two_pow_add_eq_or_of_lt hlo hi.toNat
  have hraw : (hi.toUInt16 <<< 8 ||| lo.toUInt16 : UInt16).toNat = 256 * hi.toNat + lo.toNat := by
    have h8 : (8 : UInt16).toNat % 16 = 8 := rfl
    have hshift : hi.toNat * 2 ^ 8 % 2 ^ 16 = 2 ^ 8 * hi.toNat := by omega
    rw [UInt16.toNat_or, UInt16.toNat_shiftLeft, UInt8.toNat_toUInt16, UInt8.toNat_toUInt16,
      Nat.shiftLeft_eq, h8, hshift, ← hor]
  have hint : (hi.toUInt16 <<< 8 ||| lo.toUInt16 : UInt16).toInt16.toInt =
      if 2 * (hi.toUInt16 <<< 8 ||| lo.toUInt16 : UInt16).toNat < 2 ^ 16 then
        ((hi.toUInt16 <<< 8 ||| lo.toUInt16 : UInt16).toNat : ℤ)
      else (hi.toUInt16 <<< 8 ||| lo.toUInt16 : UInt16).toNat - (2 ^ 16 : ℕ) :=
    BitVec.toInt_eq_toNat_cond _
  rw [hint, hraw]
  push_cast
  by_cases hsign : 256 * hi.toNat + lo.toNat < 32768
  · rw [if_pos (by omega), if_pos (by omega)]
  · rw [if_neg (by omega), if_neg (by omega)]

theorem temperature_eq (s : Scratchpad) : temperature s.toList = sixteenths s / 16 := by
  have hsmall : |sixteenths s| < 2 ^ float32.precision := by
    have hprecision : float32.precision = 24 := rfl
    exact (abs_sixteenths_le s).trans_lt (by norm_num [hprecision])
  have hexponent : float32.minExponent ≤ -4 := by
    have hmin : float32.minExponent = -149 := rfl
    omega
  have hround := BinaryFormat.round_dyadic hsmall hexponent
  have hdiv : ((sixteenths s : ℤ) : ℚ) * 2 ^ (-4 : ℤ) = sixteenths s / 16 := by
    rw [zpow_neg, div_eq_mul_inv]
    norm_num
  rw [hdiv] at hround
  rw [temperature, raw_toInt]
  exact hround

theorem trunc_div (z : ℤ) {d : ℕ} (hd : 0 < d) : trunc ((z : ℚ) / d) = z.tdiv d := by
  have hpos : (0 : ℚ) < d := by exact_mod_cast hd
  rw [trunc]
  by_cases hz : 0 ≤ z
  · have hnonneg : (0 : ℚ) ≤ z / d := by positivity
    rw [if_pos hnonneg, Int.tdiv_eq_ediv_of_nonneg hz]
    exact Rat.floor_intCast_div_natCast z d
  · have hneg : ¬ (0 : ℚ) ≤ z / d := by
      rw [not_le]
      exact div_neg_of_neg_of_pos (by exact_mod_cast not_le.mp hz) hpos
    have hflip : -((z : ℚ) / d) = ((-z : ℤ) : ℚ) / d := by push_cast; ring
    have hfloor : (-((z : ℚ) / d)).floor = -z / d := by
      rw [hflip]
      exact Rat.floor_intCast_div_natCast (-z) d
    rw [if_neg hneg, hfloor, ← Int.tdiv_eq_ediv_of_nonneg (by omega), Int.neg_tdiv, neg_neg]

theorem cx100_eq {s : Scratchpad} (hrange : |sixteenths s| ≤ 2000) :
    cx100 (some (temperature s.toList)) = (25 * sixteenths s).tdiv 4 := by
  have hsmall : |25 * sixteenths s| < 2 ^ float32.precision := by
    have hprecision : float32.precision = 24 := rfl
    rw [abs_le] at hrange
    rw [hprecision, abs_lt]
    omega
  have hexponent : float32.minExponent ≤ -2 := by
    have hmin : float32.minExponent = -149 := rfl
    omega
  have hround := BinaryFormat.round_dyadic hsmall hexponent
  have hscale : ((25 * sixteenths s : ℤ) : ℚ) * 2 ^ (-2 : ℤ) = sixteenths s / 16 * 100 := by
    push_cast
    rw [zpow_neg]
    norm_num
    ring
  have hquarter : ((sixteenths s : ℤ) : ℚ) / 16 * 100 = ((25 * sixteenths s : ℤ) : ℚ) / (4 : ℕ) := by
    push_cast
    ring
  rw [hscale] at hround
  rw [cx100, temperature_eq, hround, hquarter, trunc_div _ (by omega)]
  rfl

/-- What the thread should store: hundredths of a degree, cut towards zero, of a temperature that the
sensor can measure. -/
def Surroundings.hundredths (e : Surroundings) : ℤ :=
  if e.attached ∧ -880 ≤ sixteenths e.measured ∧ sixteenths e.measured ≤ 2000 then
    (25 * sixteenths e.measured).tdiv 4
  else -99999

theorem reading_hundredths (e : Surroundings) :
    cx100 (if e.attached ∧ ¬ (temperature e.measured.toList < -55 ∨
        125 < temperature e.measured.toList) then some (temperature e.measured.toList) else none) =
      e.hundredths := by
  have hiff : (¬ (temperature e.measured.toList < -55 ∨ 125 < temperature e.measured.toList)) ↔
      -880 ≤ sixteenths e.measured ∧ sixteenths e.measured ≤ 2000 := by
    rw [not_or, not_lt, not_lt, temperature_eq, le_div_iff₀ (by norm_num), div_le_iff₀ (by norm_num)]
    norm_num
    norm_cast
  rw [Surroundings.hundredths]
  by_cases h : e.attached = true ∧ -880 ≤ sixteenths e.measured ∧ sixteenths e.measured ≤ 2000
  · have hrange : |sixteenths e.measured| ≤ 2000 := by
      rw [abs_le]
      omega
    rw [if_pos h, if_pos ⟨h.1, hiff.mpr h.2⟩, cx100_eq hrange]
  · rw [if_neg h, if_neg fun hin => h ⟨hin.1, hiff.mp hin.2⟩]
    rfl

/-- Every turn stores the temperature at the sensor, or that there is none. -/
theorem runTempLoop_stores (turns : List Surroundings) (bus : Bus) (hfits : bus.timing.Fits)
    (hlevel : bus.level = true) :
    ((runTempLoop turns).run bus).1 = turns.map Surroundings.hundredths := by
  induction turns generalizing bus with
  | nil => rfl
  | cons e turns ih =>
    obtain ⟨bus₁, hlater, hread⟩ := readSensor_run (surround e bus) hfits hlevel
    obtain ⟨bus₂, hdelay, hlater₂, -, -⟩ := vTaskDelay_run 1000 bus₁ hlater.level
    have hfits₂ : bus₂.timing.Fits := (hlater.trans hlater₂).timing ▸ hfits
    have hturn : (do
          modify (surround e)
          let stored := cx100 (← readSensor)
          vTaskDelay 1000
          return stored : StateM Bus ℤ).run bus = (e.hundredths, bus₂) := by
      rw [run_bind]
      show (readSensor >>= _).run (surround e bus) = _
      rw [run_bind, hread, run_bind, hdelay, ← reading_hundredths]
      rfl
    rw [runTempLoop, List.mapM_cons, run_bind, hturn, run_bind, List.map_cons,
      ← ih bus₂ hfits₂ hlater₂.level]
    rfl

/-- A sensor that is interrupted while it sends, then a negative temperature, then no sensor. -/
theorem runTempLoop_stores_interrupted :
    ((runTempLoop [⟨true, #v[0x91, 0x01, 0, 0, 0, 0, 0, 0, 0]⟩,
        ⟨true, #v[0xF0, 0xFF, 0, 0, 0, 0, 0, 0, 0]⟩, ⟨false, #v[0, 0, 0, 0, 0, 0, 0, 0, 0]⟩]).run
      { timing := ⟨30, 15, 30, 150, 750000, 400⟩
        sensor :=
          { attached := true, mode := .sending (some false) [true, false]
            scratchpad := #v[0x50, 0x05, 0, 0, 0, 0, 0, 0, 0]
            measured := #v[0, 0, 0, 0, 0, 0, 0, 0, 0] } }).1 = [2506, -100, -99999] := by
  have hfits : Timing.Fits ⟨30, 15, 30, 150, 750000, 400⟩ := by constructor <;> norm_num
  have hhundredths (attached : Bool) (s : Scratchpad) {z : ℤ} (hz : sixteenths s = z) :
      Surroundings.hundredths ⟨attached, s⟩ =
        if attached ∧ -880 ≤ z ∧ z ≤ 2000 then (25 * z).tdiv 4 else -99999 := by
    rw [← hz]
    rfl
  have hraw {lo hi : UInt8} (l h : ℕ) (hlo : lo.toNat = l) (hhi : hi.toNat = h) :
      sixteenths #v[lo, hi, 0, 0, 0, 0, 0, 0, 0] =
        if 256 * (h : ℤ) + l < 32768 then 256 * (h : ℤ) + l else 256 * (h : ℤ) + l - 65536 := by
    rw [← hlo, ← hhi]
    rfl
  have hwarm : sixteenths #v[0x91, 0x01, 0, 0, 0, 0, 0, 0, 0] = 401 :=
    (hraw 0x91 0x01 rfl rfl).trans (by norm_num)
  have hcold : sixteenths #v[0xF0, 0xFF, 0, 0, 0, 0, 0, 0, 0] = -16 :=
    (hraw 0xF0 0xFF rfl rfl).trans (by norm_num)
  have hnone : sixteenths #v[0, 0, 0, 0, 0, 0, 0, 0, 0] = 0 := (hraw 0 0 rfl rfl).trans (by norm_num)
  rw [runTempLoop_stores _ _ hfits rfl, List.map_cons, List.map_cons, List.map_cons,
    hhundredths _ _ hwarm, hhundredths _ _ hcold, hhundredths _ _ hnone]
  rfl

end Bus
end OneWire
end Ecotiter
