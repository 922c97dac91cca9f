import Ecotiter.Histories

/-!
# Motions and their stop flags

A motion polls one stop flag. Once that flag is up, and no chunk is committed, the motion sends no
further chunk; only the motor task lowers a flag, and never inside a motion.
-/

namespace Ecotiter
open Interleaving

namespace MotorPhase

def isRunning : MotorPhase → Bool
  | .running _ _ => true
  | _ => false

/-- The direction of the motion that is set up or under way. -/
def direction? : MotorPhase → Option Direction
  | .running _ (.aimed d) | .running _ (.cleared d) => some d
  | .running _ (.moving m _) => some m.direction
  | _ => none

def motion? : MotorPhase → Option Motion
  | .running _ (.moving m _) => some m
  | _ => none

/-- The motion that begins with a step between two phases. -/
def begins (p q : MotorPhase) : Option Motion :=
  if p.motion?.isSome then none else q.motion?

/-- The motion that is under way, if any, is being left, or its flag is up and no chunk is
committed. -/
def heeds (m : Mem) : MotorPhase → Bool
  | .running _ (.moving mo p) =>
    p = .halting || p = .halted || p = .faulted || (p ≠ .committed && m.flag mo.flag)
  | _ => true

theorem direction_of_motion {p : MotorPhase} {mo : Motion} (h : p.motion? = some mo) :
    p.direction? = some mo.direction := by
  unfold motion? at h
  split at h <;> cases h
  rfl

/-- What keeps the flags up that are up keeps a motion from going on. -/
theorem heeds_mono {p : MotorPhase} {m m' : Mem} (hp : p.heeds m)
    (hm : ∀ f, m.flag f = true → m'.flag f = true) : p.heeds m' := by
  unfold heeds at hp ⊢
  split
  case h_1 op mo pl =>
    have hflag := hm mo.flag
    grind -ring -linarith -ac
  case h_2 => rfl

theorem begins_self (p : MotorPhase) : p.begins p = none := by
  unfold begins
  split
  · rfl
  case isFalse h => simpa using h

theorem not_committed_of_heeds {m : Mem} {op : Op} {mo : Motion}
    (h : (running op (.moving mo .committed)).heeds m) : False := by
  simp [heeds] at h

end MotorPhase

/-- No chunk is sent while the motion heeds its flag. -/
theorem MotorMove.not_transmits {β : Type} {a : Act β} {b : β} {p q : MotorPhase} {m : Mem}
    (h : MotorMove a b p q) (hp : p.heeds m) :
    ¬ (Event.did .motor a b m).transmits = true := by
  induction h with
  | transmit => exact absurd hp MotorPhase.not_committed_of_heeds
  | _ => exact nofun

/-- No client lowers a flag. -/
theorem ClientMove.flag_mono {isMain : Bool} {β : Type} {a : Act β} {b : β} {p q : ClientPhase}
    (h : ClientMove isMain a b p q) (e : Input) {m : Mem} {f : StopFlag} (hf : m.flag f = true) :
    (a.run e m).2.flag f = true := by
  have hkeep : a.writes (.flag f) = false → (a.run e m).2.flag f = m.flag f :=
    fun hw => Act.run_same hw e m
  induction h with
  | raiseStop =>
    cases f with
    | stopFull => rfl
    | stopEmpty => exact hf
  | _ => exact (hkeep rfl).trans hf

/-- Inside a motion the motor task touches no flag, and a motion whose flag is up goes on to no
further chunk. -/
theorem MotorMove.heeds {β : Type} {a : Act β} {p q : MotorPhase} {e : Input} {m : Mem}
    (h : MotorMove a (a.run e m).1 p q) (hp : p.heeds m)
    (hbegin : (p.begins q).all fun mo => (a.run e m).2.flag mo.flag) :
    q.heeds (a.run e m).2 := by
  have hkeep : ∀ f, a.writes (.flag f) = false → (a.run e m).2.flag f = m.flag f :=
    fun f hw => Act.run_same hw e m
  generalize hb : (a.run e m).1 = b at h
  induction h with
  | headClear | chunkClear | transmitClear | waitClear =>
    have hdown : m.flag _ = false := hb
    simp only [MotorPhase.heeds, hdown] at hp
    grind -ring -linarith -ac
  | transmit => exact absurd hp MotorPhase.not_committed_of_heeds
  | startHoming | startEndstop | startSteps =>
    simpa [MotorPhase.heeds, MotorPhase.begins, MotorPhase.motion?] using hbegin
  | _ =>
    first
    | rfl
    | (have hflag := fun f => hkeep f rfl
       grind -ring -linarith -ac [MotorPhase.heeds, Place.afterTransmit_cases, Place.afterAwait_cases])

end Ecotiter
