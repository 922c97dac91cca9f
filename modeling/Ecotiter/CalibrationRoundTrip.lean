import Ecotiter.AdcCalibration
import Ecotiter.TypedStore

/-!
# Calibrations written and read back

`NvsHandle` with its typed accessors and the calibration functions of `storage/nvs.cpp`, over any
store that keeps what is set. Floats are their bit patterns, as `std::bit_cast` leaves them.
-/

namespace Ecotiter
open TypedStore

/-- A `float` by its bits. -/
structure Binary32 where
  bits : UInt32
  deriving DecidableEq

/-- `CalibrationData` as it is stored. -/
structure CalibrationBits where
  stepsPerMl : Binary32
  nominalVolumeMl : Binary32
  speedCoeff : Binary32
  minFreqHz : UInt16
  maxFreqHz : UInt16
  deriving DecidableEq

namespace CalibrationBits

/-- 7730, 8.14 and 0.03052. -/
def kDefaultStepsPerMl : Binary32 := ⟨0x45f19000⟩
def kDefaultNominalVolumeMl : Binary32 := ⟨0x41023d71⟩
def kDefaultSpeedCoeff : Binary32 := ⟨0x3cfa0514⟩
def kDefaultMinFreqHz : UInt16 := 30
def kDefaultMaxFreqHz : UInt16 := 3000

end CalibrationBits

namespace Config

def nvsNsBuretteCal : String := "burette_cal"
def nvsKeyCalSpm : String := "steps_per_ml"
def nvsKeyCalNom : String := "nominal_vol"
def nvsKeyCalCoeff : String := "speed_coeff"
def nvsKeyCalMinFreq : String := "min_freq"
def nvsKeyCalMaxFreq : String := "max_freq"
def nvsKeyCalDate : String := "cal_date"
def nvsNsAdcCal : String := "adc_cal"
def nvsKeyAdcAX1000 : String := "a_x1000"
def nvsKeyAdcB : String := "b"

end Config

/-- The entries of a calibration, the latest first. -/
def CalibrationBits.entries (cal : CalibrationBits) : List Entry :=
  [⟨.i32, Config.nvsKeyCalDate, 0⟩, ⟨.u32, Config.nvsKeyCalMaxFreq, cal.maxFreqHz.toUInt32⟩,
    ⟨.u32, Config.nvsKeyCalMinFreq, cal.minFreqHz.toUInt32⟩,
    ⟨.u32, Config.nvsKeyCalCoeff, cal.speedCoeff.bits⟩,
    ⟨.u32, Config.nvsKeyCalNom, cal.nominalVolumeMl.bits⟩,
    ⟨.u32, Config.nvsKeyCalSpm, cal.stepsPerMl.bits⟩]

def adcEntries (aX1000 : UInt16) (b : Int16) : List Entry :=
  [⟨.i32, Config.nvsKeyAdcB, b.toInt32⟩, ⟨.u32, Config.nvsKeyAdcAX1000, aX1000.toUInt32⟩]

inductive ResourceError
  | nvsOpenFailed | outOfMemory
  deriving DecidableEq

namespace Storage

/-- The flash with the variables that mirror it. -/
structure DeviceStore (σ : Type) where
  flash : σ
  calCache : Option CalibrationBits
  coeffAX1000 : UInt16
  coeffB : Int16

abbrev StorageM (σ : Type) := ExceptT ResourceError (StateM (DeviceStore σ))

section
variable {σ V : Type} (nvs : Store σ V)

/-! ## The handle -/

/-- An operation of the platform on the flash. -/
def onFlash (f : σ → Bool × σ) : StorageM σ Bool := do
  let s ← get
  set { s with flash := (f s.flash).2 }
  return (f s.flash).1

/-- An operation that fails leads to an error. -/
def require (x : StorageM σ Bool) : StorageM σ Unit := do
  if !(← x) then throw .nvsOpenFailed

/-- The constructor of `NvsHandle`, and whether the handle is valid. -/
def nvsHandle (ns : String) (readWrite : Bool) : StorageM σ Bool :=
  onFlash (nvs.openNamespace ns readWrite)

/-- The getters for integers. -/
def getInt (τ : EntryType) (ns key : String) (s : σ) : Except ResourceError (Option τ.Value) :=
  match nvs.get τ key (nvs.view s ns) with
  | .found v => .ok (some v)
  | .notFound => .ok none
  | .failed => .error .nvsOpenFailed

def getU32 : String → String → σ → Except ResourceError (Option UInt32) := getInt nvs .u32

def getI32 : String → String → σ → Except ResourceError (Option Int32) := getInt nvs .i32

def getF32 (ns key : String) (s : σ) : Except ResourceError (Option Binary32) :=
  (getU32 nvs ns key s).map fun bits => bits.map Binary32.mk

/-- The setters for integers. -/
def setInt (τ : EntryType) (ns key : String) (value : τ.Value) : StorageM σ Unit := do
  require (onFlash (nvs.set τ ns key value))
  require (onFlash (nvs.commit ns))

def setU32 : String → String → UInt32 → StorageM σ Unit := setInt nvs .u32

def setI32 : String → String → Int32 → StorageM σ Unit := setInt nvs .i32

def setF32 (ns key : String) (value : Binary32) : StorageM σ Unit := setU32 nvs ns key value.bits

/-- The value of a key, or what stands in for one that is missing or cannot be read. -/
def valueOr {α : Type} (r : Except ResourceError (Option α)) (default : α) : α :=
  match r with
  | .ok (some v) => v
  | _ => default

/-! ## The calibrations -/

def calibrationRead : StorageM σ CalibrationBits := do
  require (nvsHandle nvs Config.nvsNsBuretteCal false)
  let s ← get
  let f32 := fun key => getF32 nvs Config.nvsNsBuretteCal key s.flash
  let u32 := fun key => getU32 nvs Config.nvsNsBuretteCal key s.flash
  let u16 := fun key => (u32 key).map fun r => r.map fun v => (v &&& 0xFFFF).toUInt16
  let cal : CalibrationBits :=
    { stepsPerMl := valueOr (f32 Config.nvsKeyCalSpm) CalibrationBits.kDefaultStepsPerMl
      nominalVolumeMl := valueOr (f32 Config.nvsKeyCalNom) CalibrationBits.kDefaultNominalVolumeMl
      speedCoeff := valueOr (f32 Config.nvsKeyCalCoeff) CalibrationBits.kDefaultSpeedCoeff
      minFreqHz := valueOr (u16 Config.nvsKeyCalMinFreq) CalibrationBits.kDefaultMinFreqHz
      maxFreqHz := valueOr (u16 Config.nvsKeyCalMaxFreq) CalibrationBits.kDefaultMaxFreqHz }
  modify fun s => { s with calCache := some cal }
  return cal

def calibrationWrite (cal : CalibrationBits) : StorageM σ Unit := do
  require (nvsHandle nvs Config.nvsNsBuretteCal true)
  setF32 nvs Config.nvsNsBuretteCal Config.nvsKeyCalSpm cal.stepsPerMl
  setF32 nvs Config.nvsNsBuretteCal Config.nvsKeyCalNom cal.nominalVolumeMl
  setF32 nvs Config.nvsNsBuretteCal Config.nvsKeyCalCoeff cal.speedCoeff
  setU32 nvs Config.nvsNsBuretteCal Config.nvsKeyCalMinFreq cal.minFreqHz.toUInt32
  setU32 nvs Config.nvsNsBuretteCal Config.nvsKeyCalMaxFreq cal.maxFreqHz.toUInt32
  setI32 nvs Config.nvsNsBuretteCal Config.nvsKeyCalDate 0
  modify fun s => { s with calCache := some cal }

def adcCalibrationRead : StorageM σ (UInt16 × Int16) := do
  if ← nvsHandle nvs Config.nvsNsAdcCal false then
    let s ← get
    let a := (getU32 nvs Config.nvsNsAdcCal Config.nvsKeyAdcAX1000 s.flash).map fun r =>
      r.map fun v => (v &&& 0xFFFF).toUInt16
    let b := (getI32 nvs Config.nvsNsAdcCal Config.nvsKeyAdcB s.flash).map fun r =>
      r.map Int32.toInt16
    return (valueOr a Config.adcDefaultAX1000, valueOr b Config.adcDefaultB)
  else return (Config.adcDefaultAX1000, Config.adcDefaultB)

def adcCalibrationWrite (aX1000 : UInt16) (b : Int16) : StorageM σ Unit := do
  require (nvsHandle nvs Config.nvsNsAdcCal true)
  setU32 nvs Config.nvsNsAdcCal Config.nvsKeyAdcAX1000 aX1000.toUInt32
  setI32 nvs Config.nvsNsAdcCal Config.nvsKeyAdcB b.toInt32
  modify fun s => { s with coeffAX1000 := aX1000 }
  modify fun s => { s with coeffB := b }

end

/-! ## Running an operation -/

/-- The result and the state an operation leaves. -/
def StorageM.exec {σ α : Type} (x : StorageM σ α) (m : DeviceStore σ) :
    Except ResourceError α × DeviceStore σ := x.run.run m

section
variable {σ V α β : Type} {nvs : Store σ V} {m m' : DeviceStore σ} {ns key : String}
  {entries : List Entry}

@[simp] theorem exec_pure (a : α) : (pure a : StorageM σ α).exec m = (.ok a, m) := rfl

@[simp] theorem exec_throw (e : ResourceError) : (throw e : StorageM σ α).exec m = (.error e, m) :=
  rfl

@[simp] theorem exec_modify (f : DeviceStore σ → DeviceStore σ) :
    (modify f : StorageM σ Unit).exec m = (.ok (), f m) := rfl

@[simp] theorem exec_get : (get : StorageM σ (DeviceStore σ)).exec m = (.ok m, m) := rfl

@[simp] theorem exec_onFlash (f : σ → Bool × σ) :
    (onFlash f).exec m = (.ok (f m.flash).1, { m with flash := (f m.flash).2 }) := rfl

theorem exec_bind (x : StorageM σ α) (f : α → StorageM σ β) :
    (x >>= f).exec m = match x.exec m with
      | (.ok a, t) => (f a).exec t
      | (.error e, t) => (.error e, t) := by
  rcases hx : x.exec m with ⟨r, t⟩
  have hrun : x.run.run m = pure (r, t) := hx
  cases r with
  | ok a => simp [StorageM.exec, ExceptT.run_bind, hrun]
  | error e =>
    simp only [StorageM.exec, ExceptT.run_bind, StateT.run_bind, hrun, pure_bind]
    rfl

theorem exec_bind_of_ok {x : StorageM σ α} {f : α → StorageM σ β} {a : α}
    (h : x.exec m = (.ok a, m')) : (x >>= f).exec m = (f a).exec m' := by
  rw [exec_bind, h]

/-- What succeeds has succeeded step by step. -/
theorem exec_bind_ok {x : StorageM σ α} {f : α → StorageM σ β} {b : β}
    (h : (x >>= f).exec m = (.ok b, m')) :
    ∃ a t, x.exec m = (.ok a, t) ∧ (f a).exec t = (.ok b, m') := by
  rw [exec_bind] at h
  rcases hx : x.exec m with ⟨r, t⟩
  rw [hx] at h
  cases r with
  | ok a => exact ⟨a, t, rfl, h⟩
  | error e => cases h

theorem exec_require_of_true {f : σ → Bool × σ} (h : (f m.flash).1 = true) :
    (require (onFlash f)).exec m = (.ok (), { m with flash := (f m.flash).2 }) := by
  rw [require, exec_bind, exec_onFlash, h]
  rfl

/-- A required operation of the flash succeeds if the platform says so. -/
theorem exec_require_ok {f : σ → Bool × σ}
    (h : (require (onFlash f)).exec m = (.ok (), m')) :
    (f m.flash).1 = true ∧ m' = { m with flash := (f m.flash).2 } := by
  rw [require, exec_bind, exec_onFlash] at h
  dsimp only at h
  cases hf : (f m.flash).1 with
  | true =>
    rw [hf] at h
    exact ⟨rfl, (congrArg Prod.snd h).symm⟩
  | false =>
    rw [hf] at h
    cases h

/-- What writing into one namespace leaves: the entries there, and everything else as it was. -/
structure Wrote (nvs : Store σ V) (ns : String) (entries : List Entry) (m m' : DeviceStore σ) :
    Prop where
  finds : nvs.Finds m'.flash ns entries
  elsewhere : nvs.SameElsewhere ns m.flash m'.flash
  others : m' = { m with flash := m'.flash }

theorem wrote_open {t : DeviceStore σ} (h : (require (nvsHandle nvs ns true)).exec m = (.ok (), t)) :
    Wrote nvs ns [] m t := by
  obtain ⟨-, rfl⟩ := exec_require_ok h
  exact ⟨Store.finds_nil, Store.sameElsewhere_open, rfl⟩

theorem Wrote.setInt {τ : EntryType} {value : τ.Value} {t : DeviceStore σ}
    (h : Wrote nvs ns entries m t) (hset : (setInt nvs τ ns key value).exec t = (.ok (), m'))
    (hfresh : key ∉ entries.map Entry.key) : Wrote nvs ns (⟨τ, key, value⟩ :: entries) m m' := by
  obtain ⟨_, u, hstored, hcommitted⟩ := exec_bind_ok hset
  obtain ⟨hok, rfl⟩ := exec_require_ok hstored
  obtain ⟨-, rfl⟩ := exec_require_ok hcommitted
  refine ⟨(h.finds.set hok hfresh).commit, ?_, ?_⟩
  · exact (h.elsewhere.trans Store.sameElsewhere_set).trans Store.sameElsewhere_commit
  · rw [h.others]

theorem exec_nvsHandle {e : Entry} (h : nvs.Finds m.flash ns (e :: entries)) :
    (nvsHandle nvs ns false).exec m = (.ok true, m) := by
  rw [nvsHandle, exec_onFlash, h.open]

theorem exec_require_nvsHandle {e : Entry} (h : nvs.Finds m.flash ns (e :: entries)) :
    (require (nvsHandle nvs ns false)).exec m = (.ok (), m) := by
  rw [require, exec_bind_of_ok (exec_nvsHandle h)]
  rfl

theorem getInt_of_finds {s : σ} {τ : EntryType} {value : τ.Value}
    (h : nvs.Finds s ns entries) (he : ⟨τ, key, value⟩ ∈ entries) :
    getInt nvs τ ns key s = .ok (some value) := by
  have hfound := h _ he
  dsimp only at hfound
  rw [getInt, hfound]

end

/-! ## Written and read back -/

/-- Sixteen bits come back from thirty-two. -/
theorem toUInt16_mask (x : UInt16) : (x.toUInt32 &&& 0xFFFF).toUInt16 = x := by
  have hmask : (0xFFFF : UInt32).toUInt16.toBitVec = BitVec.allOnes 16 := rfl
  apply UInt16.toBitVec_inj.mp
  rw [UInt32.toUInt16_and, UInt16.toUInt16_toUInt32, UInt16.toBitVec_and, hmask]
  exact BitVec.and_allOnes

section
variable {σ V : Type} {nvs : Store σ V} {m m' : DeviceStore σ} {ns : String}

theorem wrote_calibrationWrite {cal : CalibrationBits}
    (h : (calibrationWrite nvs cal).exec m = (.ok (), m')) :
    ∃ t, Wrote nvs Config.nvsNsBuretteCal cal.entries m t ∧
      m' = { t with calCache := some cal } := by
  obtain ⟨_, s₀, hopen, h⟩ := exec_bind_ok h
  obtain ⟨_, s₁, hspm, h⟩ := exec_bind_ok h
  obtain ⟨_, s₂, hnom, h⟩ := exec_bind_ok h
  obtain ⟨_, s₃, hcoeff, h⟩ := exec_bind_ok h
  obtain ⟨_, s₄, hmin, h⟩ := exec_bind_ok h
  obtain ⟨_, s₅, hmax, h⟩ := exec_bind_ok h
  obtain ⟨_, s₆, hdate, h⟩ := exec_bind_ok h
  have w₁ := (wrote_open hopen).setInt hspm List.not_mem_nil
  have w₂ := w₁.setInt hnom (show _ ∉ ["steps_per_ml"] by decide)
  have w₃ := w₂.setInt hcoeff (show _ ∉ ["nominal_vol", "steps_per_ml"] by decide)
  have w₄ := w₃.setInt hmin (show _ ∉ ["speed_coeff", "nominal_vol", "steps_per_ml"] by decide)
  have w₅ := w₄.setInt hmax
    (show _ ∉ ["min_freq", "speed_coeff", "nominal_vol", "steps_per_ml"] by decide)
  have w₆ := w₅.setInt hdate
    (show _ ∉ ["max_freq", "min_freq", "speed_coeff", "nominal_vol", "steps_per_ml"] by decide)
  exact ⟨s₆, w₆, (congrArg Prod.snd h).symm⟩

theorem exec_calibrationRead {cal : CalibrationBits}
    (h : nvs.Finds m.flash Config.nvsNsBuretteCal cal.entries) :
    (calibrationRead nvs).exec m = (.ok cal, { m with calCache := some cal }) := by
  have hspm : getU32 nvs Config.nvsNsBuretteCal Config.nvsKeyCalSpm m.flash =
      .ok (some cal.stepsPerMl.bits) := getInt_of_finds h (by simp [CalibrationBits.entries])
  have hnom : getU32 nvs Config.nvsNsBuretteCal Config.nvsKeyCalNom m.flash =
      .ok (some cal.nominalVolumeMl.bits) := getInt_of_finds h (by simp [CalibrationBits.entries])
  have hcoeff : getU32 nvs Config.nvsNsBuretteCal Config.nvsKeyCalCoeff m.flash =
      .ok (some cal.speedCoeff.bits) := getInt_of_finds h (by simp [CalibrationBits.entries])
  have hmin : getU32 nvs Config.nvsNsBuretteCal Config.nvsKeyCalMinFreq m.flash =
      .ok (some cal.minFreqHz.toUInt32) := getInt_of_finds h (by simp [CalibrationBits.entries])
  have hmax : getU32 nvs Config.nvsNsBuretteCal Config.nvsKeyCalMaxFreq m.flash =
      .ok (some cal.maxFreqHz.toUInt32) := getInt_of_finds h (by simp [CalibrationBits.entries])
  rw [calibrationRead, exec_bind_of_ok (exec_require_nvsHandle h), exec_bind_of_ok exec_get]
  dsimp only [getF32]
  rw [hspm, hnom, hcoeff, hmin, hmax]
  simp only [Except.map, Option.map_some, valueOr, toUInt16_mask]
  rw [exec_bind_of_ok (exec_modify _)]
  rfl

theorem wrote_adcCalibrationWrite {aX1000 : UInt16} {b : Int16}
    (h : (adcCalibrationWrite nvs aX1000 b).exec m = (.ok (), m')) :
    ∃ t, Wrote nvs Config.nvsNsAdcCal (adcEntries aX1000 b) m t ∧
      m' = { t with coeffAX1000 := aX1000, coeffB := b } := by
  obtain ⟨_, s₀, hopen, h⟩ := exec_bind_ok h
  obtain ⟨_, s₁, ha, h⟩ := exec_bind_ok h
  obtain ⟨_, s₂, hb, h⟩ := exec_bind_ok h
  have w₁ := (wrote_open hopen).setInt ha List.not_mem_nil
  have w₂ := w₁.setInt hb (show _ ∉ ["a_x1000"] by decide)
  exact ⟨s₂, w₂, (congrArg Prod.snd h).symm⟩

theorem exec_adcCalibrationRead {aX1000 : UInt16} {b : Int16}
    (h : nvs.Finds m.flash Config.nvsNsAdcCal (adcEntries aX1000 b)) :
    (adcCalibrationRead nvs).exec m = (.ok (aX1000, b), m) := by
  have ha : getU32 nvs Config.nvsNsAdcCal Config.nvsKeyAdcAX1000 m.flash =
      .ok (some aX1000.toUInt32) := getInt_of_finds h (by simp [adcEntries])
  have hb : getI32 nvs Config.nvsNsAdcCal Config.nvsKeyAdcB m.flash = .ok (some b.toInt32) :=
    getInt_of_finds h (by simp [adcEntries])
  rw [adcCalibrationRead, exec_bind_of_ok (exec_nvsHandle h), if_pos rfl,
    exec_bind_of_ok exec_get]
  dsimp only
  rw [ha, hb]
  simp only [Except.map, Option.map_some, valueOr, toUInt16_mask, Int16.toInt16_toInt32, exec_pure]

/-- Every operation of the platform on the namespace succeeds. -/
structure Accepts (nvs : Store σ V) (ns : String) : Prop where
  opened : ∀ s, (nvs.openNamespace ns true s).1 = true
  set : ∀ τ key value s, (nvs.set τ ns key value s).1 = true
  committed : ∀ s, (nvs.commit ns s).1 = true

theorem Accepts.open (h : Accepts nvs ns) :
    ∃ t, (require (nvsHandle nvs ns true)).exec m = (.ok (), t) :=
  ⟨_, exec_require_of_true (h.opened _)⟩

theorem Accepts.setInt (h : Accepts nvs ns) {τ : EntryType} {key : String} {value : τ.Value} :
    ∃ t, (setInt nvs τ ns key value).exec m = (.ok (), t) := by
  rw [Storage.setInt, exec_bind_of_ok (exec_require_of_true (h.set _ _ _ _))]
  exact ⟨_, exec_require_of_true (h.committed _)⟩

/-- Then the calibration is written. -/
theorem Accepts.calibrationWrite (h : Accepts nvs Config.nvsNsBuretteCal) (cal : CalibrationBits) :
    ∃ t, (calibrationWrite nvs cal).exec m = (.ok (), t) := by
  obtain ⟨s₀, hopen⟩ := h.open
  obtain ⟨s₁, hspm⟩ := h.setInt
  obtain ⟨s₂, hnom⟩ := h.setInt
  obtain ⟨s₃, hcoeff⟩ := h.setInt
  obtain ⟨s₄, hmin⟩ := h.setInt
  obtain ⟨s₅, hmax⟩ := h.setInt
  obtain ⟨s₆, hdate⟩ := h.setInt
  exact ⟨_, (exec_bind_of_ok hopen).trans <| (exec_bind_of_ok hspm).trans <|
    (exec_bind_of_ok hnom).trans <| (exec_bind_of_ok hcoeff).trans <|
    (exec_bind_of_ok hmin).trans <| (exec_bind_of_ok hmax).trans <|
    (exec_bind_of_ok hdate).trans (exec_modify _)⟩

theorem Accepts.adcCalibrationWrite (h : Accepts nvs Config.nvsNsAdcCal) (aX1000 : UInt16)
    (b : Int16) : ∃ t, (adcCalibrationWrite nvs aX1000 b).exec m = (.ok (), t) := by
  obtain ⟨s₀, hopen⟩ := h.open
  obtain ⟨s₁, ha⟩ := h.setInt
  obtain ⟨s₂, hb⟩ := h.setInt
  exact ⟨_, (exec_bind_of_ok hopen).trans <| (exec_bind_of_ok ha).trans <|
    (exec_bind_of_ok hb).trans <| (exec_bind_of_ok (exec_modify _)).trans (exec_modify _)⟩

/-- A calibration that was written is read back bit for bit, and is the one in the cache. No other
namespace changes. The same goes for the pair of the ADC. Where the platform accepts every
operation, both are written. -/
theorem calibration_round_trip (nvs : Store σ V) (cal : CalibrationBits) (aX1000 : UInt16)
    (b : Int16) :
    (Accepts nvs Config.nvsNsBuretteCal →
      ∀ m, ∃ m', (calibrationWrite nvs cal).exec m = (.ok (), m')) ∧
    (Accepts nvs Config.nvsNsAdcCal →
      ∀ m, ∃ m', (adcCalibrationWrite nvs aX1000 b).exec m = (.ok (), m')) ∧
    (∀ m m', (calibrationWrite nvs cal).exec m = (.ok (), m') →
      (calibrationRead nvs).exec m' = (.ok cal, m') ∧ m'.calCache = some cal ∧
        nvs.SameElsewhere Config.nvsNsBuretteCal m.flash m'.flash) ∧
    (∀ m m', (adcCalibrationWrite nvs aX1000 b).exec m = (.ok (), m') →
      (adcCalibrationRead nvs).exec m' = (.ok (aX1000, b), m') ∧
        nvs.SameElsewhere Config.nvsNsAdcCal m.flash m'.flash) := by
  refine ⟨fun h m => h.calibrationWrite cal, fun h m => h.adcCalibrationWrite aX1000 b, ?_, ?_⟩
  · intro m m' h
    obtain ⟨t, hwrote, rfl⟩ := wrote_calibrationWrite h
    exact ⟨exec_calibrationRead hwrote.finds, rfl, hwrote.elsewhere⟩
  · intro m m' h
    obtain ⟨t, hwrote, rfl⟩ := wrote_adcCalibrationWrite h
    exact ⟨exec_adcCalibrationRead hwrote.finds, hwrote.elsewhere⟩

end

/-- Not a number, the largest frequency and a negative offset come back from a fresh flash. -/
theorem calibration_round_trip_inMemory :
    ∃ m m' : DeviceStore (String → Option Entries),
      (calibrationWrite inMemory ⟨⟨0x7fc00001⟩, ⟨0x80000000⟩, ⟨1⟩, 65535, 0⟩).exec m =
        (.ok (), m') ∧
      (calibrationRead inMemory).exec m' =
        (.ok ⟨⟨0x7fc00001⟩, ⟨0x80000000⟩, ⟨1⟩, 65535, 0⟩, m') := by
  obtain ⟨haccepts, -, hround, -⟩ :=
    calibration_round_trip inMemory ⟨⟨0x7fc00001⟩, ⟨0x80000000⟩, ⟨1⟩, 65535, 0⟩ 1000 (-1)
  obtain ⟨m', hm'⟩ := haccepts ⟨fun _ => rfl, fun _ _ _ _ => rfl, fun _ => rfl⟩
    ⟨fun _ => none, none, 1000, 0⟩
  exact ⟨_, m', hm', (hround _ m' hm').1⟩
end Storage
end Ecotiter
