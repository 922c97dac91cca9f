import Ecotiter.CalibrationStorage

/-!
# The calibration of the ADC

`handleAdcCalSave` and `handleAdcCalReset` of `handlers/sensors.cpp`, `adcCalibrationRead` and
`adcCalibrationWrite` of `storage/nvs.cpp`, over the variables they use. One task runs a handler to
its end; each key write takes full effect or none.
-/

namespace Ecotiter
open Interleaving

/-- A measured point. -/
structure AdcCalPoint where
  refMv : ℚ
  rawMv : ℕ
  collected : Bool
  deriving DecidableEq, Repr

namespace Config

def adcDefaultAX1000 : UInt16 := 1000
def adcDefaultB : Int16 := 0

end Config

/-- The keys of the namespace in the flash, the coefficients in use, and what is pending. -/
structure AdcMem where
  nvsAX1000 : Option UInt32 := none
  nvsB : Option Int32 := none
  coeffAX1000 : UInt16 := 1000
  coeffB : Int16 := 0
  pendingAX1000 : UInt16 := 1000
  pendingB : Int16 := 0
  points : List AdcCalPoint := List.replicate 5 ⟨0, 0, false⟩
  pointCount : ℕ := 0
  deriving DecidableEq

/-- `adcCalibrationRead`, where the flash can be read. -/
def AdcMem.adcCalibrationRead (m : AdcMem) : UInt16 × Int16 :=
  ((m.nvsAX1000.map UInt32.toUInt16).getD Config.adcDefaultAX1000,
    (m.nvsB.map Int32.toInt16).getD Config.adcDefaultB)

inductive AdcAct : Type → Type 1
  | load {α : Type} (field : AdcMem → α) : AdcAct α
  | update (f : AdcMem → AdcMem) : AdcAct Unit
  | nvsOpen : AdcAct Bool
  | nvsSetAX1000 (x : UInt32) : AdcAct Bool
  | nvsSetB (x : Int32) : AdcAct Bool

/-- The flash answers each write with success or failure. -/
def AdcAct.run : {β : Type} → AdcAct β → Bool → AdcMem → β × AdcMem
  | _, .load field, _, m => (field m, m)
  | _, .update f, _, m => ((), f m)
  | _, .nvsOpen, ok, m => (ok, m)
  | _, .nvsSetAX1000 x, ok, m => (ok, if ok then { m with nvsAX1000 := some x } else m)
  | _, .nvsSetB x, ok, m => (ok, if ok then { m with nvsB := some x } else m)

def adcMachine : Machine AdcAct Unit Bool Empty AdcMem where
  exec _ _ a ok m := a.run ok m
  env h _ := nomatch h
  running _ := true

namespace Sensors

def adcCalibrationWrite (aX1000 : UInt16) (b : Int16) : Program AdcAct Bool := do
  if !(← Program.perform .nvsOpen) then return false
  else if !(← Program.perform (.nvsSetAX1000 aX1000.toUInt32)) then return false
  else if !(← Program.perform (.nvsSetB b.toInt32)) then return false
  else
    Program.perform (.update fun m => { m with coeffAX1000 := aX1000 })
    Program.perform (.update fun m => { m with coeffB := b })
    return true

def handleAdcCalSave (aX1000 : Option UInt16) (b : Option Int16) :
    Program AdcAct CommandResponse := do
  let pendingA ← Program.perform (.load AdcMem.pendingAX1000)
  let pendingB ← Program.perform (.load AdcMem.pendingB)
  let a := aX1000.getD pendingA
  let bVal := b.getD pendingB
  if ← adcCalibrationWrite a bVal then
    Program.perform (.update fun m => { m with pendingAX1000 := a })
    Program.perform (.update fun m => { m with pendingB := bVal })
    return { body := .elsewhere }
  else return makeErrorResponse "failed to save ADC calibration"

/-- The loop that clears the points. -/
def clearPoint (p : AdcCalPoint) : AdcCalPoint := { p with rawMv := 0, collected := false }

def handleAdcCalReset : Program AdcAct CommandResponse := do
  Program.perform (.update fun m => { m with points := m.points.map clearPoint })
  Program.perform (.update fun m => { m with pointCount := 0 })
  Program.perform (.update fun m => { m with pendingAX1000 := 1000 })
  Program.perform (.update fun m => { m with pendingB := 0 })
  if ← adcCalibrationWrite 1000 0 then return { body := .elsewhere }
  else return makeErrorResponse "failed to reset ADC calibration"

end Sensors
open Sensors

/-- The position of an action among those that can fail in a write. -/
def AdcAct.writePosition : {β : Type} → AdcAct β → Option ℕ
  | _, .nvsOpen => some 0
  | _, .nvsSetAX1000 _ => some 1
  | _, .nvsSetB _ => some 2
  | _, _ => none

/-- The flash fails at one position of a write and nowhere before it. -/
def adcFailingAt (n : ℕ) : Assumption adcMachine where
  allows _ _ a ok _ := ∀ k ∈ a.writePosition, ok = true ↔ k ≠ n
  allowsEnv _ _ := True

/-- What can be read later, the coefficients in use, the pending ones and the points are the same. -/
def SameAdcCalibration (m m' : AdcMem) : Prop :=
  m'.adcCalibrationRead = m.adcCalibrationRead ∧
    m'.coeffAX1000 = m.coeffAX1000 ∧ m'.coeffB = m.coeffB ∧
    m'.pendingAX1000 = m.pendingAX1000 ∧ m'.pendingB = m.pendingB ∧
    m'.points = m.points ∧ m'.pointCount = m.pointCount

def KeepsAdcCalibration (m : AdcMem) (rsp : CommandResponse) (m' : AdcMem) : Prop :=
  rsp.kind = .error → SameAdcCalibration m m'

section
variable {m : AdcMem} {n : ℕ} {α β : Type}

theorem post_adcOther {Q : α → AdcMem → Prop} {a : AdcAct β} {next : β → Program AdcAct α}
    (ha : a.writePosition = none) :
    (Program.act a next).Post (adcFailingAt n) () Q m ↔
      ∀ ok, (next (a.run ok m).1).Post (adcFailingAt n) () Q (a.run ok m).2 := by
  simp [adcMachine, adcFailingAt, ha]

theorem post_adcWrite {Q : Bool → AdcMem → Prop} {a : AdcAct Bool} {rest : Program AdcAct Bool}
    {m' : AdcMem} {k : ℕ} (hk : a.writePosition = some k) (hok : a.run true m = (true, m'))
    (hfails : a.run false m = (false, m)) :
    (do if !(← Program.perform a) then return false else rest : Program AdcAct Bool).Post
        (adcFailingAt n) () Q m ↔
      if k = n then Q false m else rest.Post (adcFailingAt n) () Q m' := by
  have hact : (do if !(← Program.perform a) then return false else rest : Program AdcAct Bool).Post
      (adcFailingAt n) () Q m ↔ ∀ ok : Bool, (ok = true ↔ k ≠ n) →
        (if !(a.run ok m).1 then pure false else rest : Program AdcAct Bool).Post
          (adcFailingAt n) () Q (a.run ok m).2 := by
    simp [adcMachine, adcFailingAt, hk]
  rw [hact, Bool.forall_bool, hok, hfails]
  by_cases hkn : k = n
  · rw [if_pos hkn]
    have hno : ¬ (true = true ↔ k ≠ n) := fun h => h.mp rfl hkn
    have hyes : false = true ↔ k ≠ n := iff_of_false nofun fun hne => hne hkn
    rw [imp_iff_right hyes]
    exact ⟨fun h => Program.post_ret.mp h.1, fun h => ⟨Program.post_ret.mpr h, fun h => absurd h hno⟩⟩
  · rw [if_neg hkn]
    have hno : ¬ (false = true ↔ k ≠ n) := fun h => nomatch h.mpr hkn
    have hyes : true = true ↔ k ≠ n := iff_of_true rfl hkn
    rw [imp_iff_right hyes]
    exact ⟨fun h => h.2, fun h => ⟨fun h => absurd h hno, h⟩⟩

/-- A write that fails at position `n` has written the key before it. -/
theorem post_adcCalibrationWrite {Q : Bool → AdcMem → Prop} {a : UInt16} {b : Int16} :
    (adcCalibrationWrite a b).Post (adcFailingAt n) () Q m ↔
      if n ≤ 1 then Q false m
      else if n = 2 then Q false { m with nvsAX1000 := some a.toUInt32 }
      else Q true { m with
        nvsAX1000 := some a.toUInt32, nvsB := some b.toInt32, coeffAX1000 := a, coeffB := b } := by
  unfold adcCalibrationWrite
  rw [post_adcWrite rfl rfl rfl, post_adcWrite rfl rfl rfl, post_adcWrite rfl rfl rfl]
  have hcoeff : ∀ m : AdcMem, (do
      Program.perform (.update fun m => { m with coeffAX1000 := a })
      Program.perform (.update fun m => { m with coeffB := b })
      return true : Program AdcAct Bool).Post (adcFailingAt n) () Q m ↔
        Q true { m with coeffAX1000 := a, coeffB := b } := by
    intro m
    refine (post_adcOther rfl).trans ?_
    simp only [AdcAct.run, forall_const]
    refine (post_adcOther rfl).trans ?_
    simp only [AdcAct.run, forall_const]
    exact Program.post_ret
  rw [hcoeff]
  rcases n with _ | _ | _ | n
  · exact Iff.rfl
  all_goals simp

theorem keeps_handleAdcCalSave {aX1000 : Option UInt16} {b : Option Int16} :
    (handleAdcCalSave aX1000 b).Post (adcFailingAt n) () (KeepsAdcCalibration m) m ↔
      (n = 2 → aX1000.getD m.pendingAX1000 = m.adcCalibrationRead.1) := by
  refine (post_adcOther rfl).trans ?_
  simp only [AdcAct.run, forall_const]
  refine (post_adcOther rfl).trans ?_
  simp only [AdcAct.run, forall_const]
  change (adcCalibrationWrite (aX1000.getD m.pendingAX1000) (b.getD m.pendingB) >>=
    _ : Program AdcAct CommandResponse).Post _ _ _ m ↔ _
  rw [Program.post_bind, post_adcCalibrationWrite]
  obtain hn | rfl | hn : n ≤ 1 ∨ n = 2 ∨ 2 < n := by omega
  · have hne : n ≠ 2 := by omega
    simp [hn, hne, KeepsAdcCalibration, SameAdcCalibration]
  · simp [KeepsAdcCalibration, SameAdcCalibration, AdcMem.adcCalibrationRead, makeErrorResponse]
  · have hle : ¬ n ≤ 1 := by omega
    have hne : n ≠ 2 := by omega
    simp only [hle, hne, if_false, if_true, false_imp_iff, iff_true]
    exact Program.post_act.mpr fun _ _ _ =>
      Program.post_act.mpr fun _ _ _ => Program.post_ret.mpr fun h => absurd h ResponseKind.single_ne_error

/-- Nothing has been collected and the defaults are pending. -/
def AdcMem.Cleared (m : AdcMem) : Prop :=
  (∀ p ∈ m.points, p.rawMv = 0 ∧ p.collected = false) ∧ m.pointCount = 0 ∧
    m.pendingAX1000 = 1000 ∧ m.pendingB = 0

theorem map_clearPoint_eq_iff {points : List AdcCalPoint} :
    points.map clearPoint = points ↔ ∀ p ∈ points, p.rawMv = 0 ∧ p.collected = false := by
  have hpoint : ∀ p : AdcCalPoint, clearPoint p = p ↔ p.rawMv = 0 ∧ p.collected = false := by
    rintro ⟨ref, raw, collected⟩
    simp [clearPoint, eq_comm]
  induction points with
  | nil => simp
  | cons p points ih => simp [ih, hpoint]

/-- What a reset does before it writes. -/
def AdcMem.clear (m : AdcMem) : AdcMem :=
  { m with points := m.points.map clearPoint, pointCount := 0, pendingAX1000 := 1000,
           pendingB := 0 }

theorem same_clear {x : Option UInt32} :
    SameAdcCalibration m { m.clear with nvsAX1000 := x } ↔
      (x.map UInt32.toUInt16).getD Config.adcDefaultAX1000 = m.adcCalibrationRead.1 ∧
        m.Cleared := by
  constructor
  · rintro ⟨hread, -, -, hA, hB, hpoints, hcount⟩
    exact ⟨congrArg Prod.fst hread, map_clearPoint_eq_iff.mp hpoints, hcount.symm, hA.symm, hB.symm⟩
  · rintro ⟨hread, hpoints, hcount, hA, hB⟩
    exact ⟨Prod.ext hread rfl, rfl, rfl, hA.symm, hB.symm, map_clearPoint_eq_iff.mpr hpoints,
      hcount.symm⟩

theorem keeps_handleAdcCalReset :
    handleAdcCalReset.Post (adcFailingAt n) () (KeepsAdcCalibration m) m ↔
      (n ≤ 2 → m.Cleared) ∧ (n = 2 → m.adcCalibrationRead.1 = 1000) := by
  have hclear : handleAdcCalReset.Post (adcFailingAt n) () (KeepsAdcCalibration m) m ↔
      (adcCalibrationWrite 1000 0 >>= fun ok => if ok then return { body := .elsewhere }
        else return makeErrorResponse "failed to reset ADC calibration").Post (adcFailingAt n) ()
          (KeepsAdcCalibration m) m.clear := by
    unfold handleAdcCalReset
    refine (post_adcOther rfl).trans ?_
    simp only [AdcAct.run, forall_const]
    refine (post_adcOther rfl).trans ?_
    simp only [AdcAct.run, forall_const]
    refine (post_adcOther rfl).trans ?_
    simp only [AdcAct.run, forall_const]
    refine (post_adcOther rfl).trans ?_
    simp only [AdcAct.run, forall_const]
    exact Iff.rfl
  rw [hclear, Program.post_bind, post_adcCalibrationWrite]
  obtain hn | rfl | hn : n ≤ 1 ∨ n = 2 ∨ 2 < n := by omega
  · have hne : n ≠ 2 := by omega
    have hle : n ≤ 2 := by omega
    simp only [hn, hne, hle, if_true, Bool.false_eq_true, if_false, Program.post_pure, forall_const,
      false_imp_iff, and_true]
    refine (imp_iff_right rfl).trans (same_clear.trans ?_)
    exact and_iff_right rfl
  · simp only [le_refl, show ¬ 2 ≤ 1 by omega, if_true, Bool.false_eq_true, if_false,
      Program.post_pure, forall_const]
    refine (imp_iff_right rfl).trans (same_clear.trans ?_)
    rw [and_comm, @eq_comm UInt16]
    exact Iff.rfl
  · have hle : ¬ n ≤ 1 := by omega
    have hle' : ¬ n ≤ 2 := by omega
    have hne : n ≠ 2 := by omega
    simp only [hle, hle', hne, if_false, if_true, false_imp_iff, true_and, iff_true]
    exact Program.post_ret.mpr fun h => absurd h ResponseKind.single_ne_error

/-- A failed command leaves every copy of the calibration as it was exactly if what it changed
before the failing write already had the new value. -/
theorem calibration_atomic_iff {t : Tid} {p : Mem} (hrun : p.aborted = false)
    {stepsPerMl nomVolume : Option ℚ} {aX1000 : Option UInt16} {b : Option Int16} :
    ((BuretteCal.handleSaveCalibration stepsPerMl nomVolume).Post (failingAt n) t
        (KeepsCalibration p) p ↔
      (n ≤ 6 → ∀ f : CalField, f.index + 1 < n →
        f.Same p.nvs.calibration (p.pendingCal.supplied stepsPerMl nomVolume))) ∧
    (BuretteCal.handleResetCalibration.Post (failingAt n) t (KeepsCalibration p) p ↔
      (n ≤ 6 → ∀ f : CalField, f.index + 1 < n → f.Same p.nvs.calibration .default)) ∧
    ((handleAdcCalSave aX1000 b).Post (adcFailingAt n) () (KeepsAdcCalibration m) m ↔
      (n = 2 → aX1000.getD m.pendingAX1000 = m.adcCalibrationRead.1)) ∧
    (handleAdcCalReset.Post (adcFailingAt n) () (KeepsAdcCalibration m) m ↔
      (n ≤ 2 → m.Cleared) ∧ (n = 2 → m.adcCalibrationRead.1 = 1000)) :=
  ⟨keeps_handleSaveCalibration hrun, keeps_handleResetCalibration hrun, keeps_handleAdcCalSave,
    keeps_handleAdcCalReset⟩

end

/-- On a fresh flash the failed commands would have written what is read there anyway. -/
theorem calibration_atomic_fresh :
    (BuretteCal.handleSaveCalibration none none).Post (failingAt 2) .main
        (KeepsCalibration (Boot.world {}).mem) (Boot.world {}).mem ∧
      BuretteCal.handleResetCalibration.Post (failingAt 2) .main
        (KeepsCalibration (Boot.world {}).mem) (Boot.world {}).mem ∧
      (handleAdcCalSave none none).Post (adcFailingAt 2) () (KeepsAdcCalibration {}) {} ∧
      handleAdcCalReset.Post (adcFailingAt 2) () (KeepsAdcCalibration {}) {} := by
  obtain ⟨hsave, hreset, hadcSave, hadcReset⟩ :=
    @calibration_atomic_iff {} 2 .main (Boot.world {}).mem rfl none none none none
  refine ⟨hsave.mpr fun _ f _ => ?_, hreset.mpr fun _ f _ => ?_, hadcSave.mpr fun _ => rfl,
    hadcReset.mpr ⟨fun _ => ⟨by decide, rfl, rfl, rfl⟩, fun _ => rfl⟩⟩
  · cases f <;> rfl
  · cases f <;> rfl

/-- A reset whose second key write fails has already replaced the steps per millilitre. A reset of
the ADC calibration that fails at once has already cleared what was pending. -/
theorem calibration_torn :
    ¬ BuretteCal.handleResetCalibration.Post (failingAt 2) .main
        (KeepsCalibration (Boot.world { nvs := { stepsPerMl := some 500 } }).mem)
        (Boot.world { nvs := { stepsPerMl := some 500 } }).mem ∧
      ¬ handleAdcCalReset.Post (adcFailingAt 1) () (KeepsAdcCalibration { pendingAX1000 := 1200 })
        { pendingAX1000 := 1200 } := by
  constructor
  · intro h
    have hsame : CalField.stepsPerMl.Same _ _ :=
      (keeps_handleResetCalibration rfl).mp h (by decide) .stepsPerMl (by decide)
    revert hsame
    decide
  · intro h
    have hcleared := (keeps_handleAdcCalReset.mp h).1 (by decide)
    exact absurd hcleared.2.2.1 (by decide)

end Ecotiter
