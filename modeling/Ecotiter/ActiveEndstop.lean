import Ecotiter.MotionFlags

/-!
# Motions towards an active endstop

The stop flags are raised by edges and `move_to_endstop` lowers its flag before it starts, so that a
switch that is already pressed is not seen. A motion towards a pressed switch stays where it is only
if it starts with its flag up, which is what a `MoveSteps` command can do.
-/

namespace Ecotiter
open Interleaving

/-- The motion that is under way started towards a switch that was active. -/
def startedActive : List Event → Bool
  | [] => false
  | ev :: past =>
    (motorPhase (ev :: past)).motion?.isSome &&
      (startedActive past ||
        ((motorPhase past).begins (motorPhase (ev :: past))).any fun mo =>
          (ev.before.switch mo.direction.endstop).level)

/-- The head of a motion loop has read the flag and goes on. -/
def Event.passesHead : Event → Bool
  | .did _ (.poll site _) seen _ => site = .loopHead && !seen
  | _ => false

theorem Event.not_motion_of_quiet {t : Tid} {β : Type} {a : Act β} (ha : a.quiet) (b : β)
    (m : Mem) : ¬ ((Event.did t a b m).transmits ∨ (Event.did t a b m).passesHead) := by
  induction a <;> first | cases ha; done | simp [Event.transmits, Event.passesHead]

theorem ClientMove.not_motion {isMain : Bool} {β : Type} {a : Act β} {b : β} {p q : ClientPhase}
    (h : ClientMove isMain a b p q) (t : Tid) (m : Mem) :
    ¬ ((Event.did t a b m).transmits ∨ (Event.did t a b m).passesHead) := by
  induction h <;> exact nofun

/-- A motion that started towards an active switch sends no chunk, and its loop is left at the first
reading of the flag. -/
def NoDriveIntoActive : List Event → Prop :=
  Throughout fun ev past => ev.transmits ∨ ev.passesHead → startedActive past = false

instance : DecidablePred NoDriveIntoActive := decidableThroughout _

/-- A motion towards an active switch starts only with its flag up. -/
def startsSeen : Guard device where
  allows t _ a e w :=
    ((motorPhase w.past).begins (motorPhase (w.did t a e).past)).all fun mo =>
      !(w.mem.switch mo.direction.endstop).level || (a.run e w.mem).2.flag mo.flag
  allowsEnv _ _ := true

/-- A motion that has not passed the head of its loop, with its flag up. -/
def Held (m : Mem) : MotorPhase → Prop
  | .running _ (.moving mo p) => p = .faulted ∨ (p = .poised ∨ p = .halted) ∧ m.flag mo.flag
  | _ => True

theorem Held.mono {m m' : Mem} {p : MotorPhase} (hp : Held m p)
    (hm : ∀ f, m.flag f = true → m'.flag f = true) : Held m' p := by
  unfold Held at hp ⊢
  split
  case h_1 op mo pl => exact hp.imp id fun h => ⟨h.1, hm mo.flag h.2⟩
  case h_2 => trivial

/-- A held motion reads its flag up and stays held. -/
theorem MotorMove.held {β : Type} {a : Act β} {p q : MotorPhase} {e : Input} {m : Mem}
    (h : MotorMove a (a.run e m).1 p q) (hp : Held m p)
    (hbegin : (p.begins q).all fun mo => (a.run e m).2.flag mo.flag) : Held (a.run e m).2 q := by
  have hkeep : ∀ f, a.writes (.flag f) = false → (a.run e m).2.flag f = m.flag f :=
    fun f hw => Act.run_same hw e m
  generalize hb : (a.run e m).1 = b at h
  induction h with
  | headClear hpl =>
    have hdown : m.flag _ = false := hb
    simp only [Held, hdown] at hp
    grind -ring -linarith -ac
  | startHoming | startEndstop | startSteps =>
    refine .inr ⟨.inl rfl, ?_⟩
    simpa [MotorPhase.begins, MotorPhase.motion?] using hbegin
  | _ =>
    first
    | trivial
    | (have hflag := fun f => hkeep f rfl
       grind -ring -linarith -ac [Held, Place.leaves, Place.afterTransmit_cases, Place.afterAwait_cases])

theorem MotorMove.still {β : Type} {a : Act β} {p q : MotorPhase} {e : Input} {m : Mem}
    (h : MotorMove a (a.run e m).1 p q) (hp : Held m p) :
    ¬ ((Event.did .motor a (a.run e m).1 m).transmits ∨
      (Event.did .motor a (a.run e m).1 m).passesHead) := by
  generalize hb : (a.run e m).1 = b at h
  induction h with
  | transmit =>
    simp [Held] at hp
  | @headClear op mo pl hpl =>
    have hdown : m.flag mo.flag = false := hb
    simp only [Held, hdown] at hp
    grind -ring -linarith -ac
  | @headSeen op mo pl seen hpl =>
    have hseen : m.flag mo.flag = seen := hb
    simp only [Held, hseen] at hp
    simp only [Event.transmits, Event.passesHead]
    grind -ring -linarith -ac
  | _ => simp [Event.transmits, Event.passesHead]

theorem motion_of_startedActive {past : List Event} (h : startedActive past) :
    (motorPhase past).motion?.isSome := by
  cases past with
  | nil => cases h
  | cons ev past =>
    rw [startedActive, Bool.and_eq_true] at h
    exact h.1

theorem MotorPhase.begins_of_motion {p q : MotorPhase} (hp : p.motion?.isSome) :
    p.begins q = none :=
  if_pos hp

theorem held_of_begins {m : Mem} {p q : MotorPhase} {mo : Motion} (h : p.begins q = some mo) :
    Held m p := by
  unfold Held
  split
  case h_1 => cases h
  case h_2 => trivial

structure ActiveInvariant (w : World) : Prop where
  still : NoDriveIntoActive w.past
  held : startedActive w.past → Held w.mem (motorPhase w.past)

theorem ActiveInvariant.motor {w : World} {β : Type} {a : Act β} {e : Input} {q : MotorPhase}
    (hI : ActiveInvariant w) (hC : startsSeen.allows .motor a e w) (hs : MotorStep w a e q) :
    ActiveInvariant (w.did .motor a e) := by
  obtain ⟨hstill, hheld⟩ := hI
  obtain ⟨hmove, hq, -⟩ := hs
  refine ⟨⟨fun hev => ?_, hstill⟩, fun hactive => ?_⟩
  · rw [Bool.eq_false_iff]
    intro hactive
    exact hmove.still (hheld hactive) hev
  · rw [hq]
    simp only [World.did_past] at hq
    rw [World.did_past, startedActive, hq, Bool.and_eq_true, Bool.or_eq_true] at hactive
    simp only [startsSeen, World.did_past, hq] at hC
    rcases hactive.2 with hbefore | hbegin
    · refine hmove.held (hheld hbefore) ?_
      rw [MotorPhase.begins_of_motion (motion_of_startedActive hbefore)]
      rfl
    · obtain ⟨mo, hmo, hlevel⟩ := (Option.any_eq_true _ _).mp hbegin
      have hlevel : (w.mem.switch mo.direction.endstop).level = true := hlevel
      refine hmove.held (held_of_begins hmo) ?_
      rw [hmo, Option.all_some] at hC ⊢
      simpa [hlevel] using hC

/-- A step that lowers no flag and leaves the motor task where it is keeps the invariant. -/
theorem ActiveInvariant.other {w w' : World} {ev : Event} (hI : ActiveInvariant w)
    (hpast : w'.past = ev :: w.past) (hev : ¬ (ev.transmits ∨ ev.passesHead))
    (hmotor : motorPhase w'.past = motorPhase w.past)
    (hflag : ∀ f, w.mem.flag f = true → w'.mem.flag f = true) : ActiveInvariant w' := by
  obtain ⟨hstill, hheld⟩ := hI
  refine ⟨?_, fun hactive => ?_⟩
  · rw [hpast]
    exact ⟨fun h => absurd h hev, hstill⟩
  · rw [hmotor]
    rw [hpast] at hmotor
    rw [hpast, startedActive, hmotor, Bool.and_eq_true, Bool.or_eq_true] at hactive
    obtain ⟨hmotion, hbefore | hbegin⟩ := hactive
    · exact (hheld hbefore).mono hflag
    · rw [MotorPhase.begins_of_motion hmotion] at hbegin
      cases hbegin

/-- In a run in which no motion starts towards an active switch with its flag lowered, no motion that
started towards an active switch sends a chunk, and each leaves its loop at once. -/
theorem still_of_startsSeen {b : Boot} {c : Config Act Tid World}
    (h : Steps startsSeen.assumption b.config c) : NoDriveIntoActive c.shared.past := by
  have hI : ActiveInvariant c.shared := by
    refine system_invariant h ⟨trivial, nofun⟩ ?_ ?_ ?_ ?_
    · intro w t β a e hI hs
      refine hI.other rfl ?_ hs.motor fun f hf => Eq.trans (hs.same (.flag f)) hf
      exact Event.not_motion_of_quiet hs.quiet _ _
    · intro w β a e q hI hC hs
      exact hI.motor hC hs
    · intro w t β a e q hI _ hs
      refine hI.other rfl ?_ hs.motor fun f hf => hs.move.flag_mono e hf
      exact hs.move.not_motion t w.mem
    · intro w h m hI _ hm
      exact hI.other rfl nofun rfl fun f hf => Happening.flag_mono hm hf
  exact hI.still

/-- The FULL switch is pressed, and then the syringe is filled. -/
def Script.fillWhenFull : Script :=
  boot ++ [.env (.level .full true), .env (.interrupt .full)] ++ turns .http 1 ++
    request .http { type := .fill } 12 ++ turns .motor 9

theorem still_after_fillWhenFull : ∃ c, Steps startsSeen.assumption (Boot.config {}) c ∧
    startedActive c.shared.past = true ∧ NoDriveIntoActive c.shared.past := by
  have hrun : (device.run startsSeen Script.fillWhenFull (Boot.config {})).any
      (fun c => startedActive c.shared.past) = true := by decide +kernel
  obtain ⟨c, hsteps, hc⟩ := Machine.exists_of_run hrun
  exact ⟨c, hsteps, hc, still_of_startsSeen hsteps⟩

/-- The FULL switch is pressed, and then the piston is sent towards it by `move_to_endstop`. -/
def Script.driveWhenFull : Script :=
  boot ++ [.env (.level .full true), .env (.interrupt .full)] ++ turns .http 1 ++
    request .http { type := .moveToStop, direction := some .liqIn, freqHz := some 1000 } 6 ++
    turns .motor 11

/-- `move_to_endstop` lowers the flag and sends a chunk against the pressed switch. -/
theorem driveWhenFull_moves : ∃ c, Reachable {} c ∧ ¬ NoDriveIntoActive c.shared.past := by
  have hrun : (device.run (Guard.any device) Script.driveWhenFull (Boot.config {})).any
      (fun c => decide (¬ NoDriveIntoActive c.shared.past)) = true := by decide +kernel
  obtain ⟨c, hsteps, hc⟩ := Machine.exists_of_run hrun
  exact ⟨c, hsteps.weaken, of_decide_eq_true hc⟩

end Ecotiter
