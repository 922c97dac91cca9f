import Ecotiter.Histories

/-!
# The driver is enabled whenever steps are sent

`emergencyStop` inside `moveStepsIntervals` raises EN, and only the motions to an endstop and homing
lower it again. A motion by a number of steps that is cut short there leaves the driver disabled, and
the steps of the next motion are counted without being made.
-/

namespace Ecotiter
open Interleaving

/-- EN is low at every call of `rmt_transmit`. -/
def EnabledAtTransmit : List Event → Prop :=
  Throughout fun ev _ => ev.transmits → ev.before.enPin = false

instance : DecidablePred EnabledAtTransmit := decidableThroughout _

/-- Inside `moveStepsIntervals` a `MoveSteps` command never finds its stop flag raised. -/
def stepsNotCut : Guard device where
  allows t _ a _ w :=
    match a with
    | .poll site flag =>
      !(t = .motor && (motorPhase w.past).executes .moveSteps && site ≠ .loopHead &&
        w.mem.flag flag)
    | _ => true
  allowsEnv _ _ := true

/-- The phases in which EN may be high: a motion other than that of a `MoveSteps` command is being
left. -/
def MayDisable : MotorPhase → Prop
  | .running op (.moving _ p) =>
    (p = .halted ∨ p = .faulted) ∧ op.hasType .moveSteps = false
  | _ => False

/-- A `MoveSteps` command has been cut short. -/
def Cut : MotorPhase → Prop
  | .running op (.moving _ p) => p = .halting ∧ op.hasType .moveSteps
  | _ => False

structure DriverInvariant (w : World) : Prop where
  enabled : EnabledAtTransmit w.past
  off : w.mem.enPin = true → MayDisable (motorPhase w.past)
  uncut : ¬ Cut (motorPhase w.past)

theorem DriverInvariant.motor {w : World} {β : Type} {a : Act β} {e : Input} {q : MotorPhase}
    (hI : DriverInvariant w) (hC : stepsNotCut.allows .motor a e w) (hs : MotorStep w a e q) :
    DriverInvariant (w.did .motor a e) := by
  obtain ⟨henabled, hoff, hcut⟩ := hI
  obtain ⟨hmove, hq, -⟩ := hs
  have hen : a.writes .enPin = false → (w.did .motor a e).mem.enPin = w.mem.enPin :=
    fun h => Act.run_same h e w.mem
  generalize hb : (a.run e w.mem).1 = b at hmove
  generalize hp : motorPhase w.past = p at hmove hoff hcut
  induction hmove with
  | transmit hm =>
    have hlow : w.mem.enPin = false := by
      rw [Bool.eq_false_iff]
      intro h
      obtain ⟨h | h, -⟩ := hoff h <;> cases h
    refine ⟨⟨fun _ => hlow, henabled⟩, ?_, ?_⟩
    · rw [hen rfl, hlow]
      exact nofun
    · rw [hq]
      grind -ring -linarith -ac [Cut, Place.afterTransmit_cases, Place.afterAwait_cases]
  | innerSeen hsite =>
    have hsteps : (motorPhase w.past).executes .moveSteps = false := by
      have hflag : w.mem.flag _ = true := hb
      simp only [stepsNotCut, hflag] at hC
      grind -ring -linarith -ac
    rw [hp, MotorPhase.executes] at hsteps
    refine ⟨⟨nofun, henabled⟩, ?_, ?_⟩
    · rw [hen rfl, hq]
      grind -ring -linarith -ac [MayDisable]
    · rw [hq]
      simp [Cut, hsteps]
  | @disable op m p h =>
    have hop : op.hasType .moveSteps = false := by
      rcases h with rfl | h
      · simpa [Cut] using hcut
      · exact h.2
    refine ⟨⟨nofun, henabled⟩, fun _ => ?_, ?_⟩
    · rw [hq]
      exact ⟨.inl rfl, hop⟩
    · rw [hq]
      simp [Cut]
  | disableFaulted hop =>
    refine ⟨⟨nofun, henabled⟩, fun _ => ?_, ?_⟩
    · rw [hq]
      exact ⟨.inr rfl, (Op.homes_types hop).2.2⟩
    · rw [hq]
      simp [Cut]
  | enable hop | enableFaulted hop =>
    refine ⟨⟨nofun, henabled⟩, nofun, ?_⟩
    rw [hq]
    exact id
  | _ =>
    refine ⟨⟨nofun, henabled⟩, ?_, ?_⟩
    · rw [hen rfl, hq]
      grind -ring -linarith -ac [MayDisable]
    · rw [hq]
      grind -ring -linarith -ac [Cut, Place.afterTransmit_cases, Place.afterAwait_cases]

/-- A step that is none of the motor task's keeps the invariant. -/
theorem DriverInvariant.other {w w' : World} {ev : Event} (hI : DriverInvariant w)
    (hpast : w'.past = ev :: w.past) (hev : ev.transmits = false)
    (hmotor : motorPhase w'.past = motorPhase w.past) (hen : w'.mem.enPin = w.mem.enPin) :
    DriverInvariant w' := by
  obtain ⟨henabled, hoff, hcut⟩ := hI
  refine ⟨?_, ?_, ?_⟩
  · rw [hpast]
    exact ⟨fun h => absurd h (by simp [hev]), henabled⟩
  · rwa [hmotor, hen]
  · rwa [hmotor]

/-- While no `MoveSteps` command is cut short, the driver is enabled whenever steps are sent. -/
theorem enabled_of_stepsNotCut {b : Boot} {c : Config Act Tid World}
    (h : Steps stepsNotCut.assumption b.config c) : EnabledAtTransmit c.shared.past := by
  have hI : DriverInvariant c.shared := by
    refine system_invariant h ⟨trivial, nofun, id⟩ ?_ ?_ ?_ ?_
    · intro w t β a e hI hs
      exact hI.other rfl (Event.transmits_of_quiet hs.quiet _ _) hs.motor (hs.same .enPin)
    · intro w β a e q hI hC hs
      exact hI.motor hC hs
    · intro w t β a e q hI _ hs
      obtain ⟨hen, -, hev⟩ := hs.move.not_driver
      exact hI.other rfl (hev t w.mem) hs.motor (Act.run_same hen e w.mem)
    · intro w h m hI _ hm
      have hen : Field.enPin.Same w.mem m := Happening.run_internal hm rfl
      exact hI.other rfl rfl rfl hen
  exact hI.enabled

/-- A fill finds its flag raised between two chunks; then the piston is sent the other way. -/
def Script.wholeFill : Script :=
  boot ++ turns .http 1 ++ request .http { type := .fill } 12 ++ turns .motor 18 ++
    [.env (.level .full true), .env (.interrupt .full)] ++ turns .motor 9 ++
    request .http { type := .moveToStop, direction := some .liqOut, freqHz := some 1000 } 6 ++
    turns .motor 11

theorem enabled_after_wholeFill : ∃ c, Steps stepsNotCut.assumption (Boot.config {}) c ∧
    (c.shared.past.filter Event.transmits).length = 2 ∧ EnabledAtTransmit c.shared.past := by
  have hrun : (device.run stepsNotCut Script.wholeFill (Boot.config {})).any
      (fun c => (c.shared.past.filter Event.transmits).length = 2) = true := by decide +kernel
  obtain ⟨c, hsteps, hc⟩ := Machine.exists_of_run hrun
  exact ⟨c, hsteps, of_decide_eq_true hc, enabled_of_stepsNotCut hsteps⟩

/-- A fill meets the FULL switch inside its first chunk; then the piston is sent the other way. -/
def Script.cutFill : Script :=
  boot ++ turns .http 1 ++ request .http { type := .fill } 12 ++ turns .motor 9 ++
    [.env (.level .full true), .env (.interrupt .full)] ++ turns .motor 10 ++
    request .http { type := .moveToStop, direction := some .liqOut, freqHz := some 1000 } 6 ++
    turns .motor 12

/-- After a fill that was cut short the next motion sends its steps to a disabled driver. -/
theorem cutFill_disabled : ∃ c, Reachable {} c ∧ ¬ EnabledAtTransmit c.shared.past := by
  have hrun : (device.run (Guard.any device) Script.cutFill (Boot.config {})).any
      (fun c => decide (¬ EnabledAtTransmit c.shared.past)) = true := by decide +kernel
  obtain ⟨c, hsteps, hc⟩ := Machine.exists_of_run hrun
  exact ⟨c, hsteps.weaken, of_decide_eq_true hc⟩

end Ecotiter
