import Ecotiter.CalibrationStorage
import Ecotiter.DensityCorrection
import Ecotiter.RequestCommands

/-!
# Sessions of calibration commands

A session is what happens between the first power-up with an empty flash and now: calibration
commands, each run to its end, and reboots. At a boot `nvsInit` prepares the flash and
`calibrationRead` fills the cache; the pending record starts with the defaults. Beside the memory a
session records which fields of the pending record have been computed since the last save, reset or
boot.
-/

namespace Ecotiter
open Interleaving Firmware

/-- What the flash answers to `nvsInit`: whether the namespace opens, whether the first key can be
looked up, and which of the writes succeed. -/
structure InitAnswers where
  opened : Bool := true
  lookedUp : Bool := true
  sets : CalField → Bool := fun _ => true
  setsDate : Bool := true

/-- Whether the keys are written. -/
def InitAnswers.initialises (a : InitAnswers) (s : NvsStore) : Bool :=
  a.opened && a.lookedUp && s.stepsPerMl.isNone

/-- The part of `nvsInit` that concerns the calibration of the burette. -/
def nvsInit (a : InitAnswers) (s : NvsStore) : NvsStore :=
  if a.initialises s then
    let cal := CalibrationData.zero
    let s := if a.sets .stepsPerMl then s.set .stepsPerMl cal.stepsPerMl else s
    let s := if a.sets .nominalVol then s.set .nominalVol cal.nominalVolumeMl else s
    let s := if a.sets .speedCoeff then s.set .speedCoeff cal.speedCoeff else s
    let s := if a.sets .minFreq then s.set .minFreq cal.minFreqHz else s
    let s := if a.sets .maxFreq then s.set .maxFreq cal.maxFreqHz else s
    if a.setsDate then s.set .calDate 0 else s
  else s

/-- The memory at power-up, when the flash has been prepared. -/
def Boot.powerUp (b : Boot) (a : InitAnswers) (flash : NvsStore) : Mem :=
  ({ b with nvs := nvsInit a flash, calCache := none } : Boot).world.mem

def CommandType.calibrates : CommandType → Bool
  | .calGet | .calCalcVolume | .calCalcSpeed | .calSave | .calReset => true
  | _ => false

structure Session where
  mem : Mem
  computed : CalField → Bool

/-- The computed fields after a command. -/
def Session.computedAfter (s : Session) (cmd : Command) (rsp : CommandResponse) : CalField → Bool :=
  if rsp.kind = .error then s.computed
  else match cmd.type with
    | .calCalcVolume => fun f => f = .stepsPerMl || f = .nominalVol || s.computed f
    | .calCalcSpeed => fun f => f = .speedCoeff || s.computed f
    | .calSave | .calReset => fun _ => false
    | _ => s.computed

/-- What is assumed of the boots and the commands of a session. -/
structure SessionRule where
  allowsInit : InitAnswers → NvsStore → Prop
  allowsCommand : Mem → Command → Prop

def SessionRule.any : SessionRule := ⟨fun _ _ => True, fun _ _ => True⟩

/-- The sessions with boots and commands that the rule allows. -/
inductive Sessions (R : SessionRule) : Session → Prop
  | powerUp (b : Boot) (a : InitAnswers) {r : Option CalibrationData} {m : Mem} :
      R.allowsInit a {} → calibrationRead.Ends (.any memory) .main (b.powerUp a {}) r m →
      Sessions R ⟨m, fun _ => false⟩
  | command {s : Session} {t : Tid} {cmd : Command} {rsp : CommandResponse} {m : Mem} :
      Sessions R s → cmd.type.calibrates → R.allowsCommand s.mem cmd →
      (dispatch cmd).Ends (.any memory) t s.mem rsp m →
      Sessions R ⟨m, s.computedAfter cmd rsp⟩
  | reboot {s : Session} (b : Boot) (a : InitAnswers) {r : Option CalibrationData} {m : Mem} :
      Sessions R s → R.allowsInit a s.mem.nvs →
      calibrationRead.Ends (.any memory) .main (b.powerUp a s.mem.nvs) r m →
      Sessions R ⟨m, fun _ => false⟩

/-- An invariant of the sessions: boots establish it and commands keep it. -/
theorem Sessions.invariant {R : SessionRule} {I : Mem → Prop} {F : NvsStore → Prop}
    (hflash : F {}) (hstored : ∀ m, I m → F m.nvs)
    (hboot : ∀ (b : Boot) a flash, F flash → R.allowsInit a flash →
      Leaves .main (fun _ => I) calibrationRead (b.powerUp a flash))
    (hcmd : ∀ t m cmd, I m → cmd.type.calibrates → R.allowsCommand m cmd →
      Leaves t (fun _ => I) (dispatch cmd) m)
    {s : Session} (h : Sessions R s) : I s.mem := by
  induction h with
  | powerUp b a hinit hends => exact hboot b a {} hflash hinit _ _ hends
  | command _ htype hallowed hends ih => exact hcmd _ _ _ ih htype hallowed _ _ hends
  | reboot b a _ hinit hends ih => exact hboot b a _ (hstored _ ih) hinit _ _ hends

section
variable {t : Tid} {m : Mem}

/-- Some of the keys of `s`, the ones that could be read. -/
structure NvsStore.PartOf (part s : NvsStore) : Prop where
  stepsPerMl : part.stepsPerMl = none ∨ part.stepsPerMl = s.stepsPerMl
  nominalVol : part.nominalVol = none ∨ part.nominalVol = s.nominalVol
  speedCoeff : part.speedCoeff = none ∨ part.speedCoeff = s.speedCoeff
  minFreq : part.minFreq = none ∨ part.minFreq = s.minFreq
  maxFreq : part.maxFreq = none ∨ part.maxFreq = s.maxFreq

/-- A read gives nothing, or what some of the keys say. -/
theorem leaves_calibrationRead {Q : Option CalibrationData → Mem → Prop} (hnone : Q none m)
    (hsome : ∀ part : NvsStore, part.PartOf m.nvs →
      Q (some part.calibration) { m with calCache := some part.calibration }) :
    Leaves t Q calibrationRead m := by
  refine leaves_act.mpr fun _ e => ?_
  by_cases hopen : e.espErr = .ok
  · rw [run_nvsOpen_ok hopen]
    refine leaves_act.mpr fun _ e1 => ?_
    refine leaves_act.mpr fun _ e2 => ?_
    refine leaves_act.mpr fun _ e3 => ?_
    refine leaves_act.mpr fun _ e4 => ?_
    refine leaves_act.mpr fun _ e5 => ?_
    refine leaves_act.mpr fun _ _ => ?_
    refine leaves_ret.mpr ?_
    have hread : ∀ {β : Type} (key : NvsKey β) (e : Input),
        ((Act.nvsGet key).run e m).1 = none ∨ ((Act.nvsGet key).run e m).1 = m.nvs.get key := by
      intro β key e
      by_cases he : e.espErr = .ok
      · exact .inr (if_pos he)
      · exact .inl (if_neg he)
    exact hsome ⟨_, _, _, _, _, none, none⟩ ⟨hread .stepsPerMl e1, hread .nominalVol e2,
      hread .speedCoeff e3, hread .minFreq e4, hread .maxFreq e5⟩
  · rw [run_nvsOpen_fails hopen]
    exact leaves_ret.mpr hnone

end

/-! ## The stored calibration is usable -/

structure CalibrationData.Usable (cal : CalibrationData) : Prop where
  stepsPerMl : 0 < cal.stepsPerMl
  nominalVolumeMl : 0 < cal.nominalVolumeMl
  speedCoeff : 0 < cal.speedCoeff
  limits : cal.minFreqHz ≤ cal.maxFreqHz
  maxFreqHz : 0 < cal.maxFreqHz

/-- No key makes what is read unusable, whichever of the keys are read. -/
structure NvsStore.Usable (s : NvsStore) : Prop where
  stepsPerMl : ∀ x ∈ s.stepsPerMl, 0 < x
  nominalVol : ∀ x ∈ s.nominalVol, 0 < x
  speedCoeff : ∀ x ∈ s.speedCoeff, 0 < x
  minFreq : ∀ x ∈ s.minFreq, x ≤ CalibrationData.kDefaultMinFreqHz
  maxFreq : ∀ x ∈ s.maxFreq, x = CalibrationData.kDefaultMaxFreqHz

/-- The pending record has the default limits; its coefficient is whatever was computed. -/
structure CalibrationData.Pending (cal : CalibrationData) : Prop where
  stepsPerMl : 0 < cal.stepsPerMl
  nominalVolumeMl : 0 < cal.nominalVolumeMl
  minFreqHz : cal.minFreqHz = CalibrationData.kDefaultMinFreqHz
  maxFreqHz : cal.maxFreqHz = CalibrationData.kDefaultMaxFreqHz

structure Mem.CalibrationUsable (m : Mem) : Prop where
  running : m.aborted = false
  stored : m.nvs.Usable
  cached : ∀ cal ∈ m.calCache, cal.Usable
  pending : m.pendingCal.Pending

theorem CalibrationData.pending_default : CalibrationData.default.Pending :=
  ⟨CalibrationData.default_pos.1, CalibrationData.default_pos.2.1, rfl, rfl⟩

theorem NvsStore.Usable.part {part s : NvsStore} (h : s.Usable) (hpart : part.PartOf s) :
    part.Usable := by
  have hkey : ∀ {β : Type} {o o' : Option β} {P : β → Prop}, (∀ x ∈ o, P x) →
      o' = none ∨ o' = o → ∀ x ∈ o', P x := by
    rintro β o o' P hP (rfl | rfl)
    · nofun
    · exact hP
  exact ⟨hkey h.stepsPerMl hpart.stepsPerMl, hkey h.nominalVol hpart.nominalVol,
    hkey h.speedCoeff hpart.speedCoeff, hkey h.minFreq hpart.minFreq, hkey h.maxFreq hpart.maxFreq⟩

theorem NvsStore.Usable.calibration {s : NvsStore} (h : s.Usable) : s.calibration.Usable := by
  have hpos : ∀ {o : Option ℚ} {d : ℚ}, (∀ x ∈ o, 0 < x) → 0 < d → 0 < o.getD d := by
    intro o d ho hd
    cases o with
    | none => exact hd
    | some x => exact ho x rfl
  have hmin : s.calibration.minFreqHz ≤ CalibrationData.kDefaultMinFreqHz := by
    unfold NvsStore.calibration
    cases hx : s.minFreq with
    | none => exact le_rfl
    | some x => exact (Nat.mod_le _ _).trans (h.minFreq x hx)
  have hmax : s.calibration.maxFreqHz = CalibrationData.kDefaultMaxFreqHz := by
    unfold NvsStore.calibration
    cases hx : s.maxFreq with
    | none => rfl
    | some x =>
      rw [h.maxFreq x hx]
      rfl
  obtain ⟨hsteps, hvolume, hcoeff⟩ := CalibrationData.default_pos
  refine ⟨hpos h.stepsPerMl hsteps, hpos h.nominalVol hvolume, hpos h.speedCoeff hcoeff, ?_, ?_⟩
  · rw [hmax]
    exact hmin.trans (by decide)
  · rw [hmax]
    decide

/-- Any number of the writes of a pending record with a positive coefficient. -/
theorem NvsStore.Usable.written {s : NvsStore} {cal : CalibrationData} (h : s.Usable)
    (hcal : cal.Pending) (hcoeff : 0 < cal.speedCoeff) (n : ℕ) : (s.written cal n).Usable := by
  have hone : ∀ write ∈ cal.keyWrites, ∀ s : NvsStore, s.Usable → (write s).Usable := by
    simp only [CalibrationData.keyWrites, List.forall_mem_cons, List.not_mem_nil, false_imp_iff,
      implies_true, and_true]
    refine ⟨?_, ?_, ?_, ?_, ?_, ?_⟩ <;> intro s hs
    · exact { hs with stepsPerMl := fun x hx => Option.some.inj hx ▸ hcal.stepsPerMl }
    · exact { hs with nominalVol := fun x hx => Option.some.inj hx ▸ hcal.nominalVolumeMl }
    · exact { hs with speedCoeff := fun x hx => Option.some.inj hx ▸ hcoeff }
    · exact { hs with minFreq := fun x hx => Option.some.inj hx ▸ hcal.minFreqHz.le }
    · exact { hs with maxFreq := fun x hx => Option.some.inj hx ▸ hcal.maxFreqHz }
    · exact { hs with }
  refine List.foldlRecOn _ _ h fun s hs write hwrite => ?_
  exact hone write (List.mem_of_mem_take hwrite) s hs

theorem CalibrationData.Pending.usable {cal : CalibrationData} (h : cal.Pending)
    (hcoeff : 0 < cal.speedCoeff) : cal.Usable := by
  refine ⟨h.stepsPerMl, h.nominalVolumeMl, hcoeff, ?_, ?_⟩
  · rw [h.minFreqHz, h.maxFreqHz]
    decide
  · rw [h.maxFreqHz]
    decide

/-- Supplying positive values. -/
theorem CalibrationData.Pending.supplied {cal : CalibrationData} (h : cal.Pending)
    {stepsPerMl nomVolume : Option ℚ} (hspm : ∀ x ∈ stepsPerMl, 0 < x)
    (hnom : ∀ x ∈ nomVolume, 0 < x) : (cal.supplied stepsPerMl nomVolume).Pending := by
  have hpos : ∀ {o : Option ℚ} {d : ℚ}, (∀ x ∈ o, 0 < x) → 0 < d → 0 < o.getD d := by
    intro o d ho hd
    cases o with
    | none => exact hd
    | some x => exact ho x rfl
  exact ⟨hpos hspm h.stepsPerMl, hpos hnom h.nominalVolumeMl, h.minFreqHz, h.maxFreqHz⟩

theorem calculateNewStepsPerMl_pos {spm target actual : ℚ} (hspm : 0 < spm) (htarget : 0 < target)
    (hactual : 0 < actual) : 0 < calculateNewStepsPerMl spm target actual := by
  unfold calculateNewStepsPerMl
  split
  · exact hspm
  · exact div_pos (mul_pos hspm htarget) hactual

section Handlers
variable {t : Tid} {m : Mem}

/-- What is read is usable, and so is the cache afterwards. -/
theorem leaves_calibrationRead_usable (h : m.CalibrationUsable) :
    Leaves t (fun r m' => (∀ cal ∈ r, cal.Usable) ∧ m'.CalibrationUsable) calibrationRead m := by
  refine leaves_calibrationRead ⟨nofun, h⟩ fun part hpart => ?_
  have husable := (h.stored.part hpart).calibration
  exact ⟨fun cal hcal => Option.some.inj hcal ▸ husable,
    { h with cached := fun cal hcal => Option.some.inj hcal ▸ husable }⟩

theorem usable_handleCalcVolume (h : m.CalibrationUsable) {massG temperature pressure : Option ℚ} :
    Leaves t (fun _ => Mem.CalibrationUsable)
      (BuretteCal.handleCalcVolume massG temperature pressure) m := by
  cases massG with
  | none => exact leaves_ret.mpr h
  | some massG =>
    simp only [BuretteCal.handleCalcVolume]
    split
    · exact leaves_ret.mpr h
    · rename_i hmass
      refine leaves_bind.mpr ((leaves_calibrationRead_usable h).mono fun r m' hr => ?_)
      obtain ⟨hcal, hm'⟩ := hr
      cases r with
      | none => exact leaves_ret.mpr hm'
      | some cal =>
        have husable := hcal cal rfl
        have hvol := mul_pos (not_le.mp hmass) (getZFactor_pos (temperature.getD 25)
          (pressure.getD (1013 / 10)))
        have hspm := calculateNewStepsPerMl_pos husable.stepsPerMl husable.nominalVolumeMl hvol
        refine leaves_act.mpr fun _ _ => leaves_ret.mpr ?_
        exact { hm' with pending := { hm'.pending with stepsPerMl := hspm, nominalVolumeMl := hvol } }

theorem usable_handleCalcSpeed (h : m.CalibrationUsable) {measurements : List (ℚ × ℚ)} :
    Leaves t (fun _ => Mem.CalibrationUsable) (BuretteCal.handleCalcSpeed measurements) m := by
  unfold BuretteCal.handleCalcSpeed
  split
  · exact leaves_ret.mpr h
  · refine leaves_bind.mpr ((leaves_calibrationRead_usable h).mono fun r m' hr => ?_)
    cases r with
    | none => exact leaves_ret.mpr hr.2
    | some cal =>
      refine leaves_act.mpr fun _ _ => leaves_ret.mpr ?_
      exact { hr.2 with pending := { hr.2.pending with } }

/-- A write of a pending record with a positive coefficient. -/
theorem usable_calibrationWrite (h : m.CalibrationUsable) {cal : CalibrationData}
    (hcal : cal.Pending) (hcoeff : 0 < cal.speedCoeff) :
    Leaves t (fun _ => Mem.CalibrationUsable) (calibrationWrite cal) m := by
  refine (leaves_calibrationWrite_iff h.running).mpr ⟨fun n _ => ?_, ?_⟩
  · exact { h with stored := h.stored.written hcal hcoeff n }
  · exact { h with
      stored := h.stored.written hcal hcoeff 6
      cached := fun c hc => Option.some.inj hc ▸ hcal.usable hcoeff }

theorem usable_handleSaveCalibration (h : m.CalibrationUsable) {stepsPerMl nomVolume : Option ℚ}
    (hspm : ∀ x ∈ stepsPerMl, 0 < x) (hnom : ∀ x ∈ nomVolume, 0 < x)
    (hcoeff : 0 < m.pendingCal.speedCoeff) :
    Leaves t (fun _ => Mem.CalibrationUsable)
      (BuretteCal.handleSaveCalibration stepsPerMl nomVolume) m := by
  have hcal := h.pending.supplied hspm hnom
  refine leaves_act.mpr fun _ _ => ?_
  change Leaves t _ (calibrationWrite (m.pendingCal.supplied stepsPerMl nomVolume) >>= _) m
  refine leaves_bind.mpr ((usable_calibrationWrite h hcal hcoeff).mono fun ok m' hm' => ?_)
  cases ok with
  | false => exact leaves_ret.mpr hm'
  | true => exact leaves_act.mpr fun _ _ => leaves_ret.mpr { hm' with pending := hcal }

theorem usable_handleResetCalibration (h : m.CalibrationUsable) :
    Leaves t (fun _ => Mem.CalibrationUsable) BuretteCal.handleResetCalibration m := by
  have hcoeff := CalibrationData.default_pos.2.2
  refine leaves_bind.mpr ((usable_calibrationWrite h CalibrationData.pending_default hcoeff).mono
    fun ok m' hm' => ?_)
  cases ok <;> exact leaves_ret.mpr hm'

end Handlers

/-- The conditions under which the calibration stays usable: no boot writes an initial zero (a
zero as lower limit does no harm), and a save neither supplies values that are not positive nor
finds a coefficient that is not positive. -/
def usableRule : SessionRule where
  allowsInit a flash := a.initialises flash → ∀ f ≠ CalField.minFreq, a.sets f = false
  allowsCommand m cmd := cmd.type = .calSave →
    (∀ x ∈ cmd.volume, 0 < x) ∧ (∀ x ∈ cmd.targetVolume, 0 < x) ∧ 0 < m.pendingCal.speedCoeff

theorem usable_nvsInit {a : InitAnswers} {flash : NvsStore} (h : flash.Usable)
    (hinit : usableRule.allowsInit a flash) : (nvsInit a flash).Usable := by
  unfold nvsInit
  by_cases hi : a.initialises flash
  · have hno := hinit hi
    simp only [if_pos hi, hno .stepsPerMl nofun, hno .nominalVol nofun, hno .speedCoeff nofun,
      hno .maxFreq nofun, Bool.false_eq_true, if_false]
    have hmin : (flash.set .minFreq CalibrationData.zero.minFreqHz).Usable :=
      { h with minFreq := fun x hx => Option.some.inj hx ▸ Nat.zero_le _ }
    split <;> split
    · exact { hmin with }
    · exact { h with }
    · exact hmin
    · exact h
  · rw [if_neg hi]
    exact h

theorem usable_powerUp {b : Boot} {a : InitAnswers} {flash : NvsStore} (h : flash.Usable)
    (hinit : usableRule.allowsInit a flash) : (b.powerUp a flash).CalibrationUsable :=
  ⟨rfl, usable_nvsInit h hinit, nofun, CalibrationData.pending_default⟩

theorem usable_dispatch {t : Tid} {m : Mem} {cmd : Command} (h : m.CalibrationUsable)
    (htype : cmd.type.calibrates) (hallowed : usableRule.allowsCommand m cmd) :
    Leaves t (fun _ => Mem.CalibrationUsable) (dispatch cmd) m := by
  have hread := @leaves_calibrationRead_usable t m h
  refine leaves_bind.mpr ?_
  simp only [leaves_pure]
  unfold handlerOf
  cases ht : cmd.type with
  | calGet =>
    refine leaves_bind.mpr (hread.mono fun r m' hr => ?_)
    cases r <;> exact leaves_ret.mpr hr.2
  | calCalcVolume => exact usable_handleCalcVolume h
  | calCalcSpeed => exact usable_handleCalcSpeed h
  | calSave =>
    obtain ⟨hspm, hnom, hcoeff⟩ := hallowed ht
    exact usable_handleSaveCalibration h hspm hnom hcoeff
  | calReset => exact usable_handleResetCalibration h
  | _ => rw [ht] at htype; cases htype

theorem usable_sessions {s : Session} (h : Sessions usableRule s) : s.mem.CalibrationUsable := by
  have hfresh : ({} : NvsStore).Usable := ⟨nofun, nofun, nofun, nofun, nofun⟩
  refine h.invariant hfresh (fun m hm => hm.stored) (fun b a flash hflash hinit => ?_)
    (fun t m cmd hm htype hallowed => usable_dispatch hm htype hallowed)
  exact (leaves_calibrationRead_usable (usable_powerUp hflash hinit)).mono fun _ _ hr => hr.2

theorem powerUp_reaches {R : SessionRule} {a : InitAnswers} {P : Mem → Bool}
    (hinit : R.allowsInit a {})
    (h : (calibrationRead.alone memory .main .nothing (Boot.powerUp {} a {})).any
      (fun r => P r.2) = true) : ∃ s, Sessions R s ∧ P s.mem = true := by
  obtain ⟨⟨r, m⟩, hends, hP⟩ := (Option.any_eq_true _ _).mp h
  exact ⟨⟨m, fun _ => false⟩, .powerUp {} a hinit (Program.ends_of_alone hends), hP⟩

/-- The fields the client supplies with a save. -/
def Command.supplies (cmd : Command) : CalField → Bool
  | .stepsPerMl => cmd.volume.isSome
  | .nominalVol => cmd.targetVolume.isSome
  | _ => false

/-- Whatever the flash answers, the command leaves the stored fields that were neither computed nor
supplied. -/
def KeepsUntouched (t : Tid) (s : Session) (cmd : Command) : Prop :=
  (dispatch cmd).Post (.any memory) t (fun _ m' => ∀ f : CalField, s.computed f = false →
    cmd.supplies f = false → f.Same s.mem.nvs.calibration m'.nvs.calibration) s.mem

theorem Act.run_running {β : Type} {a : Act β} (h : a.keepsRecords) (e : Input) {m : Mem}
    (hm : m.aborted = false) : (a.run e m).2.aborted = false := by
  induction a with
  | store v x => induction v <;> exact hm
  | nvsSet key x =>
    by_cases he : e.espErr = .ok
    · rw [run_nvsSet_ok he]
      exact hm
    · rw [run_nvsSet_fails he]
      exact hm
  | _ => first | exact hm | cases h

/-- Calibration commands do not stop the firmware. -/
theorem running_sessions {R : SessionRule} {s : Session} (h : Sessions R s) :
    s.mem.aborted = false := by
  have honly : ∀ {α : Type} {t : Tid} {m : Mem} {p : Firmware α}, p.Only Act.keepsRecords →
      m.aborted = false → Leaves t (fun _ m' => m'.aborted = false) p m := by
    intro α t m p hp hm
    exact hp.post (fun a e m ha => Act.run_running ha e) hm
  refine @Sessions.invariant R (fun m => m.aborted = false) (fun _ => True) trivial
    (fun _ _ => trivial) (fun b a flash _ _ => ?_) (fun t m cmd hm htype _ => ?_) s h
  · exact honly only_calibrationRead rfl
  · have hrecords : cmd.type.keepsRecords := by
      generalize cmd.type = ty at htype
      cases ty <;> first | rfl | cases htype
    exact honly ((only_recordHandlers hrecords).bind fun _ => trivial) hm

theorem same_supplied {cmd : Command} {f : CalField} {stored pending : CalibrationData}
    (h : cmd.supplies f = false) :
    f.Same stored (pending.supplied cmd.volume cmd.targetVolume) ↔ f.Same stored pending := by
  cases f with
  | stepsPerMl => simp_all [Command.supplies, CalField.Same, CalibrationData.supplied]
  | nominalVol => simp_all [Command.supplies, CalField.Same, CalibrationData.supplied]
  | speedCoeff => exact Iff.rfl
  | minFreq => exact Iff.rfl
  | maxFreq => exact Iff.rfl

theorem leaves_handleSaveCalibration {t : Tid} {m : Mem} (hrun : m.aborted = false)
    {stepsPerMl nomVolume : Option ℚ} {P : NvsStore → Prop} :
    Leaves t (fun _ m' => P m'.nvs) (BuretteCal.handleSaveCalibration stepsPerMl nomVolume) m ↔
      ∀ n ≤ 6, P (m.nvs.written (m.pendingCal.supplied stepsPerMl nomVolume) n) := by
  have hsave : Leaves t (fun _ m' => P m'.nvs)
      (BuretteCal.handleSaveCalibration stepsPerMl nomVolume) m ↔
      Leaves t (fun _ m' => P m'.nvs)
        (calibrationWrite (m.pendingCal.supplied stepsPerMl nomVolume)) m := by
    refine leaves_act.trans ?_
    simp only [hrun, Act.run, Mem.get, forall_const]
    change Leaves t _ (calibrationWrite (m.pendingCal.supplied stepsPerMl nomVolume) >>= _) m ↔ _
    rw [leaves_bind]
    rw [leaves_calibrationWrite_iff hrun, leaves_calibrationWrite_iff hrun]
    refine and_congr (forall₂_congr fun n _ => leaves_ret) ?_
    refine leaves_act.trans ?_
    simp only [hrun, Act.run, Mem.set, forall_const]
    exact leaves_ret
  rw [hsave, leaves_calibrationWrite_iff hrun]
  constructor
  · rintro ⟨hfails, hdone⟩ n hn
    obtain rfl | hn := eq_or_lt_of_le hn
    · exact hdone
    · exact hfails n (by omega)
  · intro h
    exact ⟨fun n hn => h n (by omega), h 6 le_rfl⟩

/-- A save keeps the untouched fields exactly if the pending record agrees with what is stored
there. -/
theorem keepsUntouched_iff {s : Session} (h : Sessions .any s) {t : Tid} {cmd : Command}
    (hcmd : cmd.type = .calSave) :
    KeepsUntouched t s cmd ↔ ∀ f : CalField, s.computed f = false → cmd.supplies f = false →
      f.Same s.mem.nvs.calibration s.mem.pendingCal := by
  have hdispatch : KeepsUntouched t s cmd ↔
      Leaves t (fun _ m' => ∀ f : CalField, s.computed f = false → cmd.supplies f = false →
        f.Same s.mem.nvs.calibration m'.nvs.calibration)
        (BuretteCal.handleSaveCalibration cmd.volume cmd.targetVolume) s.mem := by
    refine leaves_bind.trans ?_
    simp only [leaves_pure, handlerOf, hcmd]
  rw [hdispatch, @leaves_handleSaveCalibration t s.mem (running_sessions h) cmd.volume
    cmd.targetVolume fun nvs => ∀ f : CalField, s.computed f = false → cmd.supplies f = false →
      f.Same s.mem.nvs.calibration nvs.calibration]
  have hone : ∀ f : CalField, cmd.supplies f = false →
      ((∀ n ≤ 6, f.Same s.mem.nvs.calibration (s.mem.nvs.written
        (s.mem.pendingCal.supplied cmd.volume cmd.targetVolume) n).calibration) ↔
        f.Same s.mem.nvs.calibration s.mem.pendingCal) := by
    intro f hf
    rw [← same_supplied hf]
    generalize s.mem.pendingCal.supplied cmd.volume cmd.targetVolume = cal
    constructor
    · intro hall
      have hindex : f.index < 6 := by cases f <;> decide
      exact ((s.mem.nvs.same_written cal 6 f).1 hindex).of_same (hall 6 le_rfl)
    · intro hsame n _
      obtain ⟨hnew, hold⟩ := s.mem.nvs.same_written cal n f
      by_cases hn : f.index < n
      · exact hsame.trans (hnew hn)
      · exact hold (by omega)
  constructor
  · intro hall f hc hs
    exact (hone f hs).mp fun n hn => hall n hn f hc hs
  · intro hall n hn f hc hs
    exact (hone f hs).mpr (hall f hc hs) n hn

theorem keepsUntouched_afterPowerUp : ∃ s, Sessions .any s ∧
    (KeepsUntouched .main s { type := .calSave } ↔ ∀ f : CalField, s.computed f = false →
      ({ type := .calSave } : Command).supplies f = false →
        f.Same s.mem.nvs.calibration s.mem.pendingCal) := by
  obtain ⟨s, hs, -⟩ := @powerUp_reaches .any {} (fun _ => true) trivial rfl
  exact ⟨s, hs, keepsUntouched_iff hs rfl⟩

/-- After a save of 5000 steps per millilitre and a reboot, the next save stores the default. -/
theorem calSave_forgetsStored :
    ∃ s, Sessions .any s ∧ ¬ KeepsUntouched .main s { type := .calSave } := by
  have hrun : (((calibrationRead.alone memory .main .nothing (Boot.powerUp {} {} {})).bind fun r =>
      (dispatch { type := .calSave, volume := some 5000 }).alone memory .main .nothing r.2).bind
        fun r => calibrationRead.alone memory .main .nothing (Boot.powerUp {} {} r.2.nvs)).any
          (fun r => r.2.nvs.calibration.stepsPerMl = 5000 &&
            r.2.pendingCal.stepsPerMl = 7730) = true := rfl
  obtain ⟨⟨r, m⟩, hchain, hvalues⟩ := (Option.any_eq_true _ _).mp hrun
  obtain ⟨⟨rsp, m₂⟩, hsaved, hreboot⟩ := Option.bind_eq_some_iff.mp hchain
  obtain ⟨⟨r₁, m₁⟩, hpower, hsave⟩ := Option.bind_eq_some_iff.mp hsaved
  have hs₁ : Sessions .any ⟨m₁, fun _ => false⟩ :=
    .powerUp {} {} trivial (Program.ends_of_alone hpower)
  have hs₂ := hs₁.command rfl trivial (Program.ends_of_alone hsave)
  have hs₃ := hs₂.reboot {} {} trivial (Program.ends_of_alone hreboot)
  refine ⟨_, hs₃, fun hkeeps => ?_⟩
  have hsame : CalField.stepsPerMl.Same m.nvs.calibration m.pendingCal :=
    (keepsUntouched_iff hs₃ rfl).mp hkeeps .stepsPerMl rfl rfl
  obtain ⟨hstored, hpending⟩ := (Bool.and_eq_true _ _).mp hvalues
  have hstored : m.nvs.calibration.stepsPerMl = 5000 := of_decide_eq_true hstored
  have hpending : m.pendingCal.stepsPerMl = 7730 := of_decide_eq_true hpending
  have hsame : m.pendingCal.stepsPerMl = m.nvs.calibration.stepsPerMl := hsame
  have heq : (7730 : ℚ) = 5000 := hpending.symm.trans (hsame.trans hstored)
  exact absurd heq (by decide)

end Ecotiter
