import Ecotiter.ValveFlow
import Ecotiter.RequestCommands
import Mathlib.Algebra.Order.Field.Basic
import Mathlib.Algebra.Order.Ring.Rat
import Mathlib.Tactic.Linarith

/-!
# The published volume

The volume a `VolumeTracker` would hold after the operations of a history, and the volume that is
published. The device never writes `gVolumeMl`, so the two agree only as long as every operation
leaves the volume at its default.
-/

namespace Ecotiter
open Interleaving

/-- An operation that is over, with the steps it took where they matter. -/
inductive VolumeOperation
  | homed
  | filled
  | emptied
  | dosed (steps : ℕ)
  | stoppedFilling (steps : ℕ)
  | stoppedEmptying (steps : ℕ)
  deriving DecidableEq

namespace VolumeOperation

/-- The effect of an operation on the tracker. -/
def track (cal : CalibrationData) (op : VolumeOperation) (v : VolumeTracker) : VolumeTracker :=
  match op with
  | .homed => v.onHomingComplete cal
  | .filled => v.onFillComplete cal
  | .emptied => v.onEmptyComplete
  | .dosed steps => v.onDoseComplete (steps / cal.stepsPerMl)
  | .stoppedFilling steps => v.onStopDuringFill v.currentVolumeMl steps cal
  | .stoppedEmptying steps => v.onStopDuringEmpty v.currentVolumeMl steps cal

/-- The operation leaves the volume at its default if it was there. -/
def keeps (cal : CalibrationData) : VolumeOperation → Bool
  | .homed | .filled => cal.nominalVolumeMl = Config.defaultVolumeMl
  | .emptied => false
  | .dosed steps | .stoppedEmptying steps => steps = 0
  | .stoppedFilling steps => steps = 0 || cal.nominalVolumeMl = Config.defaultVolumeMl

end VolumeOperation

/-- The interrupt of the switch has fired since the current command was received. -/
def reachedSinceReceive (e : Endstop) : List Event → Bool
  | [] => false
  | .happened (.interrupt e') _ :: past => e' = e || reachedSinceReceive e past
  | ev :: past => !ev.receives && reachedSinceReceive e past

/-- What the end of a command with a result is for the volume. Fills and empties are complete when
all their steps are taken or their switch is reached. -/
def Order.concludes (o : Order) (r : SmResult) (past : List Event) : Option VolumeOperation :=
  let steps := r.stepsTaken.toNat
  match o.request.map Command.type with
  | some .fill =>
    some (if o.cmd.steps ≤ r.stepsTaken ∨ reachedSinceReceive .full past then .filled
      else .stoppedFilling steps)
  | some .empty =>
    some (if o.cmd.steps ≤ r.stepsTaken ∨ reachedSinceReceive .empty past then .emptied
      else .stoppedEmptying steps)
  | some .doseVolume => some (.dosed steps)
  | _ => none

/-- The operation that an event completes or interrupts: the position is reset at the end of a
homing, and the other operations end with a result. -/
def Event.concludes (past : List Event) : Event → Option VolumeOperation
  | .did .motor (.positionStore _) _ _ => some .homed
  | .did .motor (.xQueueOverwrite r) _ _ => (currentOrder past).bind fun o => o.concludes r past
  | _ => none

/-- The operations of a history, folded into the tracker. -/
def trackedVolume (cal : CalibrationData) : List Event → VolumeTracker
  | [] => ⟨Config.defaultVolumeMl⟩
  | ev :: past =>
    (ev.concludes past).elim (trackedVolume cal past) fun op => op.track cal (trackedVolume cal past)

/-- An operation has just been completed or interrupted. -/
def concluded : List Event → Bool
  | [] => false
  | ev :: past => (ev.concludes past).isSome

/-- The published volume is within its bounds, and after an operation it is the tracked one. -/
def PublishedRight (cal : CalibrationData) (m : Mem) (past : List Event) : Prop :=
  (concluded past → m.volumeMl = (trackedVolume cal past).currentVolumeMl) ∧
    0 ≤ m.volumeMl ∧ m.volumeMl ≤ cal.nominalVolumeMl

instance (cal : CalibrationData) (m : Mem) (past : List Event) :
    Decidable (PublishedRight cal m past) :=
  inferInstanceAs (Decidable (_ ∧ _ ∧ _))

/-- The published volume is right in all states a run has passed through. -/
def PublishedThroughout (cal : CalibrationData) (w : World) : Prop :=
  PublishedRight cal w.mem w.past ∧
    Throughout (fun ev past => PublishedRight cal ev.before past) w.past

instance (cal : CalibrationData) : DecidablePred (PublishedThroughout cal) := fun _ =>
  haveI := decidableThroughout (fun ev past => PublishedRight cal ev.before past)
  inferInstanceAs (Decidable (_ ∧ _))

/-- Every operation of the history leaves the volume at its default. -/
def VolumeKept (cal : CalibrationData) : List Event → Prop :=
  Throughout fun ev past => (ev.concludes past).all (·.keeps cal)

section Tracker

theorem drained_eq_iff {d x : ℚ} (hd : 0 < d) : (if d - x < 0 then 0 else d - x) = d ↔ x = 0 := by
  by_cases hneg : d - x < 0
  · rw [if_pos hneg]
    constructor
    · intro h
      exact absurd h hd.ne
    · intro h
      rw [h, sub_zero] at hneg
      exact absurd hneg hd.le.not_gt
  · rw [if_neg hneg, sub_eq_self]

theorem topped_eq_iff {d x n : ℚ} (hx : 0 ≤ x) (hn : d ≤ n) :
    (if n < d + x then n else d + x) = d ↔ x = 0 ∨ n = d := by
  by_cases hfull : n < d + x
  · rw [if_pos hfull]
    constructor
    · exact .inr
    · intro h
      rcases h with h | h
      · linarith
      · exact h
  · rw [if_neg hfull, add_eq_left]
    constructor
    · exact .inl
    · intro h
      rcases h with h | h
      · exact h
      · linarith

/-- The operations that leave the default volume unchanged. -/
theorem VolumeOperation.track_eq_iff {cal : CalibrationData} (hsteps : 0 < cal.stepsPerMl)
    (hnominal : Config.defaultVolumeMl ≤ cal.nominalVolumeMl) (op : VolumeOperation) :
    op.track cal ⟨Config.defaultVolumeMl⟩ = ⟨Config.defaultVolumeMl⟩ ↔ op.keeps cal := by
  have hpos : (0 : ℚ) < Config.defaultVolumeMl := rfl
  have hzero : ∀ n : ℕ, (n : ℚ) / cal.stepsPerMl = 0 ↔ n = 0 := by
    intro n
    rw [div_eq_zero_iff, Nat.cast_eq_zero]
    exact or_iff_left hsteps.ne'
  have hnonneg : ∀ n : ℕ, 0 ≤ (n : ℚ) / cal.stepsPerMl :=
    fun n => div_nonneg (Nat.cast_nonneg n) hsteps.le
  simp only [track, keeps, VolumeTracker.onHomingComplete, VolumeTracker.onFillComplete,
    VolumeTracker.onEmptyComplete, VolumeTracker.onDoseComplete, VolumeTracker.onStopDuringFill,
    VolumeTracker.onStopDuringEmpty]
  generalize Config.defaultVolumeMl = d at hnominal hpos ⊢
  cases op with
  | homed | filled => simp
  | emptied => simpa using hpos.ne
  | dosed n => simpa [hzero] using @drained_eq_iff d (n / cal.stepsPerMl) hpos
  | stoppedFilling n => simpa [hzero] using topped_eq_iff (hnonneg n) hnominal
  | stoppedEmptying n => simpa [hzero] using @drained_eq_iff d (n / cal.stepsPerMl) hpos

theorem trackedVolume_of_kept {cal : CalibrationData} (hsteps : 0 < cal.stepsPerMl)
    (hnominal : Config.defaultVolumeMl ≤ cal.nominalVolumeMl) {history : List Event}
    (h : VolumeKept cal history) : trackedVolume cal history = ⟨Config.defaultVolumeMl⟩ := by
  induction history with
  | nil => rfl
  | cons ev past ih =>
    have hpast := ih h.2
    have hkeeps : (ev.concludes past).all (·.keeps cal) = true := h.1
    rw [trackedVolume, hpast]
    cases hop : ev.concludes past with
    | none => rfl
    | some op =>
      rw [hop] at hkeeps
      exact (op.track_eq_iff hsteps hnominal).mpr hkeeps

/-- A constant volume is right throughout a history exactly if every operation keeps it. -/
theorem rightThroughout_iff {cal : CalibrationData} (hsteps : 0 < cal.stepsPerMl) {m : Mem}
    (hm : m.volumeMl = Config.defaultVolumeMl) {history : List Event}
    (hbefore : Throughout (fun ev _ => ev.before.volumeMl = Config.defaultVolumeMl) history) :
    (PublishedRight cal m history ∧
        Throughout (fun ev past => PublishedRight cal ev.before past) history) ↔
      Config.defaultVolumeMl ≤ cal.nominalVolumeMl ∧ VolumeKept cal history := by
  induction history generalizing m with
  | nil =>
    have hpos : (0 : ℚ) ≤ Config.defaultVolumeMl := rfl
    simp [PublishedRight, concluded, Throughout, VolumeKept, hm, hpos]
  | cons ev past ih =>
    have hpast := ih hbefore.1 hbefore.2
    have hpos : (0 : ℚ) ≤ Config.defaultVolumeMl := rfl
    constructor
    · intro h
      obtain ⟨hnow, hthen⟩ := h
      obtain ⟨hnominal, hkept⟩ := hpast.mp hthen
      refine ⟨hnominal, (?_ : (ev.concludes past).all (·.keeps cal) = true), hkept⟩
      cases hop : ev.concludes past with
      | none => rfl
      | some op =>
        have htracked := hnow.1 (by rw [concluded, hop]; rfl)
        rw [hm, trackedVolume, hop, trackedVolume_of_kept hsteps hnominal hkept] at htracked
        have heq : op.track cal ⟨Config.defaultVolumeMl⟩ = ⟨Config.defaultVolumeMl⟩ :=
          congrArg VolumeTracker.mk htracked.symm
        exact (op.track_eq_iff hsteps hnominal).mp heq
    · intro h
      obtain ⟨hnominal, hkept⟩ := h
      refine ⟨⟨fun _ => ?_, ?_, ?_⟩, hpast.mpr ⟨hnominal, hkept.2⟩⟩
      · rw [hm, trackedVolume_of_kept hsteps hnominal hkept]
      · rw [hm]
        exact hpos
      · rw [hm]
        exact hnominal

end Tracker

section Runs

/-- No task writes the published volume. -/
def Act.storesVolume : {β : Type} → Act β → Bool
  | _, .store .volumeMl _ => true
  | _, _ => false

theorem taskProtocol_volume {t : Tid} {p q : TaskPhase t} {β : Type} {a : Act β} {b : β}
    (h : (taskProtocol t).next p a b = some q) : a.storesVolume = false := by
  induction a with
  | store v x =>
    induction v with
    | volumeMl => cases t <;> cases h
    | _ => rfl
  | _ => rfl

theorem Act.volume_after {β : Type} {a : Act β} (h : a.storesVolume = false) (e : Input) (m : Mem) :
    (a.run e m).2.volumeMl = m.volumeMl := by
  induction a with
  | store v x => induction v <;> first | rfl | cases h
  | storeStop flag b => cases flag <;> rfl
  | gpioSetLevel pin level => cases pin <;> rfl
  | gpioIsrHandlerAdd s => cases s <;> rfl
  | _ =>
    simp only [Act.run]
    repeat' split
    all_goals rfl

theorem Happening.volume_after {h : Happening} {m m' : Mem} (hm : h.run m = some m') :
    m'.volumeMl = m.volumeMl := by
  cases h with
  | level e active =>
    cases hm
    cases e <;> rfl
  | interrupt e =>
    simp only [Happening.run] at hm
    split at hm
    case isTrue =>
      cases hm
      cases e <;> rfl
    case isFalse => cases hm

theorem volume_constant {b : Boot} {c : Config Act Tid World} (h : Reachable b c) :
    c.shared.mem.volumeMl = Config.defaultVolumeMl ∧
      Throughout (fun ev _ => ev.before.volumeMl = Config.defaultVolumeMl) c.shared.past := by
  let I : World → Prop := fun w => w.mem.volumeMl = Config.defaultVolumeMl ∧
    Throughout (fun ev _ => ev.before.volumeMl = Config.defaultVolumeMl) w.past
  have h0 : I b.world := ⟨rfl, trivial⟩
  suffices hI : I c.shared from hI
  refine Steps.invariant (h.obeying tracks_taskPhase b.obeys).1 h0 ?_ ?_
  · intro t β a e w hI _ hallows
    obtain ⟨-, q, hq, -⟩ := hallows
    refine ⟨?_, hI.1, hI.2⟩
    exact (Act.volume_after (taskProtocol_volume hq) e w.mem).trans hI.1
  · intro h w w' hI _ _ hw
    obtain ⟨m, hm, rfl⟩ := device_env hw
    exact ⟨(Happening.volume_after hm).trans hI.1, hI.1, hI.2⟩

/-- The published volume is right throughout a run exactly if the nominal volume is at least the
default one and every operation leaves the volume at its default. -/
theorem publishedThroughout_iff {b : Boot} {c : Config Act Tid World} (h : Reachable b c)
    {cal : CalibrationData} (hsteps : 0 < cal.stepsPerMl) :
    PublishedThroughout cal c.shared ↔
      Config.defaultVolumeMl ≤ cal.nominalVolumeMl ∧ VolumeKept cal c.shared.past :=
  rightThroughout_iff hsteps (volume_constant h).1 (volume_constant h).2

/-- A burette whose nominal volume is the default volume. -/
def coarseBurette : CalibrationData :=
  { CalibrationData.default with stepsPerMl := 1, nominalVolumeMl := Config.defaultVolumeMl }

theorem publishedThroughout_in_homed :
    ∃ c, Reachable { calCache := some coarseBurette } c ∧
      c.shared.past.any (fun ev => ev.concludes [] = some .homed) = true ∧
      (PublishedThroughout coarseBurette c.shared ↔
        Config.defaultVolumeMl ≤ coarseBurette.nominalVolumeMl ∧
          VolumeKept coarseBurette c.shared.past) := by
  have hrun : (device.run (Guard.any device) Script.homed
      (Boot.config { calCache := some coarseBurette })).any
      (fun c => c.shared.past.any fun ev => ev.concludes [] = some .homed) = true := by
    rfl
  obtain ⟨c, hsteps, hc⟩ := Machine.exists_of_run hrun
  have hpos : 0 < coarseBurette.stepsPerMl := rfl
  exact ⟨c, hsteps.weaken, hc, publishedThroughout_iff hsteps.weaken hpos⟩

/-- A whole empty of this burette, up to its result. -/
def Script.wholeEmpty : Script := firstEmpty ++ turns .motor 7

theorem wholeEmpty_unpublished :
    ∃ c, Reachable { calCache := some coarseBurette } c ∧
      ¬ PublishedThroughout coarseBurette c.shared := by
  have hrun : (device.run (Guard.any device) Script.wholeEmpty
      (Boot.config { calCache := some coarseBurette })).any
      (fun c => decide (¬ PublishedThroughout coarseBurette c.shared)) = true := by decide +kernel
  obtain ⟨c, hsteps, hc⟩ := Machine.exists_of_run hrun
  exact ⟨c, hsteps.weaken, of_decide_eq_true hc⟩

end Runs
end Ecotiter
