import Ecotiter.ProgramViews
import Ecotiter.SystemRuns

/-!
# The motor task's own part of the device

Only the motor task moves the position counter, and it knows what it has done itself. This part of
the device is a machine of its own, on which the other tasks, the switches and the hardware appear
as the memory in which each action happens to be performed. What a routine of the motor task does in
a run of the device it does on that machine.
-/

namespace Ecotiter
open Interleaving Firmware

/-- The position counter and the motor task's own history, latest event first. -/
structure MotorView where
  position : ℤ
  own : List Event

/-- The memory of an action: the surroundings choose everything but the position. -/
def MotorView.mem (v : MotorView) (x : Input × Mem) : Mem := { x.2 with position := v.position }

def MotorView.did (v : MotorView) (t : Tid) {β : Type} (a : Act β) (x : Input × Mem) : MotorView :=
  ⟨(a.run x.1 (v.mem x)).2.position, .did t a (a.run x.1 (v.mem x)).1 (v.mem x) :: v.own⟩

def motorView : Machine Act Tid (Input × Mem) Happening MotorView where
  exec t _ a x v := ((a.run x.1 (v.mem x)).1, v.did t a x)
  env _ _ := none
  running _ := true

def Event.byMotor : Event → Bool
  | .did .motor _ _ _ => true
  | _ => false

/-- What the motor task sees of the device. -/
def World.motorView (w : World) : MotorView := ⟨w.mem.position, w.past.filter Event.byMotor⟩

/-- The actions that move the position counter. -/
def Act.movesPosition : {β : Type} → Act β → Bool
  | _, .positionFetchAdd _ | _, .positionStore _ => true
  | _, _ => false

section
variable {β : Type} {a : Act β} {t : Tid}

theorem Act.position_of_keeps (h : a.movesPosition = false) (e : Input) (m : Mem) :
    (a.run e m).2.position = m.position := by
  induction a with
  | positionFetchAdd n | positionStore n => cases h
  | store v x => induction v <;> rfl
  | storeStop flag b => cases flag <;> rfl
  | gpioSetLevel pin b => cases pin <;> rfl
  | gpioIsrHandlerAdd s => cases s <;> rfl
  | _ =>
    simp only [Act.run]
    repeat' split
    all_goals rfl

theorem Happening.position {h : Happening} {m m' : Mem} (hm : h.run m = some m') :
    m'.position = m.position := by
  cases h with
  | level s active =>
    cases hm
    cases s <;> rfl
  | interrupt s =>
    simp only [Happening.run] at hm
    split at hm
    · cases hm
      cases s <;> rfl
    · cases hm

theorem ClientPhase.keepsPosition {p q : ClientPhase} {isMain : Bool} {b : β}
    (h : p.next isMain a b = some q) : a.movesPosition = false := by
  induction a with
  | positionFetchAdd n | positionStore n => cases h
  | _ => rfl

theorem TimerPhase.keepsPosition {p q : TimerPhase} {b : β} (h : p.next a b = some q) :
    a.movesPosition = false := by
  induction a with
  | positionFetchAdd n | positionStore n => cases h
  | _ => rfl

theorem World.motorView_other {w : World} {e : Input} (ht : t ≠ .motor)
    (h : a.movesPosition = false) : (w.did t a e).motorView = w.motorView := by
  have hown : Event.byMotor (.did t a (a.run e w.mem).1 w.mem) = false := by
    cases t with
    | motor => exact absurd rfl ht
    | main | http | timer => rfl
  unfold World.motorView
  rw [World.did_mem, World.did_past, a.position_of_keeps h, List.filter_cons_of_neg (by simp [hown])]

end

/-- The tasks keep to their phases. -/
def phased : Assumption device := (Assumption.any device).obeying taskProtocol taskPhase

theorem motor_views : Views phased (.any motorView) .motor World.motorView where
  own _ e w _ := ⟨(e, w.mem), trivial, rfl, rfl⟩
  running _ _ := rfl

theorem motor_leftAlone : LeaveAlone phased .motor World.motorView where
  other t _ a e w ht h := by
    obtain ⟨-, q, hnext, -⟩ := h
    refine World.motorView_other ht ?_
    cases t with
    | motor => exact absurd rfl ht
    | main | http => exact ClientPhase.keepsPosition hnext
    | timer => exact TimerPhase.keepsPosition hnext
  env h w w' hw := by
    obtain ⟨m, hm, rfl⟩ := device_env hw
    unfold World.motorView
    rw [Happening.position hm]
    rfl

/-- In every run of the device a routine of the motor task is in its course, or it has come to an
end as it does on the motor task's own part. -/
theorem Reachable.ends_view {b : Boot} {c d : Config Act Tid World} (hc : Reachable b c)
    (h : Steps (.any device) c d) {α : Type} {p : Firmware α} {k : α → Firmware Unit}
    (hp : c.thread .motor = p >>= k) :
    (∃ q : Firmware α, d.thread .motor = q >>= k) ∨ ∃ a e, Reachable b e ∧
      e.thread .motor = k a ∧
      p.Ends (.any motorView) .motor c.shared.motorView a e.shared.motorView := by
  obtain ⟨hphased, -⟩ := h.obeying tracks_taskPhase hc.obeys
  obtain hinside | ⟨a, e, hbefore, -, hk, hends⟩ := hphased.ends_view motor_views motor_leftAlone hp
  · exact .inl hinside
  · exact .inr ⟨a, e, hc.trans hbefore.weaken, hk, hends⟩

end Ecotiter
