import Ecotiter.MotionFlags

/-!
# The emergency stop and the motion under way

`handleEmergencyStop` raises `gStopFull` only, a motion towards the EMPTY switch polls the other
flag, and `move_to_endstop` lowers its flag when it starts. A stop takes hold of an operation exactly
if the motion under way polls a flag that is up when the handler returns and no later motion of the
operation starts with its flag lowered.
-/

namespace Ecotiter
open Interleaving

/-- The answer of a client to an emergency stop: its handler has returned. -/
def Event.returnsFromStop (past : List Event) : Event → Bool
  | .did t (.respond _) _ _ =>
    t.isClient &&
      match clientPhase t past with
      | .handling cmd _ => cmd.type = .emergencyStop
      | _ => false
  | _ => false

theorem Event.returnsFromStop_of_quiet {t : Tid} {β : Type} {a : Act β} (ha : a.quiet) (b : β)
    (m : Mem) (past : List Event) : (Event.did t a b m).returnsFromStop past = false := by
  induction a <;> first | rfl | cases ha

/-- An emergency stop has returned while the motor task was executing the operation that it is still
executing. -/
def stopPending : List Event → Bool
  | [] => false
  | ev :: past =>
    (motorPhase (ev :: past)).isRunning && (stopPending past || ev.returnsFromStop past)

/-- No chunk is started for an operation after an emergency stop has returned. -/
def HaltsAfterStop : List Event → Prop :=
  Throughout fun ev past => ev.transmits → stopPending past = false

instance : DecidablePred HaltsAfterStop := decidableThroughout _

/-- An emergency stop returns only while the motion under way heeds it, and with a stop pending no
motion starts with its flag lowered. -/
def stopTakesHold : Guard device where
  allows t _ a e w :=
    (!(Event.did t a (a.run e w.mem).1 w.mem).returnsFromStop w.past ||
        (motorPhase w.past).heeds w.mem) &&
      (!stopPending w.past ||
        ((motorPhase w.past).begins (motorPhase (w.did t a e).past)).all fun mo =>
          (a.run e w.mem).2.flag mo.flag)
  allowsEnv _ _ := true

structure StopInvariant (w : World) : Prop where
  halts : HaltsAfterStop w.past
  heeded : stopPending w.past → (motorPhase w.past).heeds w.mem

theorem StopInvariant.motor {w : World} {β : Type} {a : Act β} {e : Input} {q : MotorPhase}
    (hI : StopInvariant w) (hC : stopTakesHold.allows .motor a e w) (hs : MotorStep w a e q) :
    StopInvariant (w.did .motor a e) := by
  obtain ⟨hhalts, hheeded⟩ := hI
  obtain ⟨hmove, hq, -⟩ := hs
  refine ⟨⟨fun htransmit => ?_, hhalts⟩, fun hpending => ?_⟩
  · rw [Bool.eq_false_iff]
    intro hpending
    have hheeds := hheeded hpending
    exact hmove.not_transmits hheeds htransmit
  · have hreturns : (Event.did .motor a (a.run e w.mem).1 w.mem).returnsFromStop w.past = false := by
      induction a <;> rfl
    have hbefore : stopPending w.past = true := by
      have h : stopPending (Event.did .motor a (a.run e w.mem).1 w.mem :: w.past) = true := hpending
      rw [stopPending, hreturns, Bool.or_false, Bool.and_eq_true] at h
      exact h.2
    have hbegin : ((motorPhase w.past).begins q).all fun mo => (a.run e w.mem).2.flag mo.flag := by
      simpa [stopTakesHold, hreturns, hbefore, ← hq] using hC
    rw [hq]
    exact hmove.heeds (hheeded hbefore) hbegin

/-- A step that lowers no flag and leaves the motor task where it is keeps the invariant, if the
motion under way heeds a stop that returns with it. -/
theorem StopInvariant.other {w w' : World} {ev : Event} (hI : StopInvariant w)
    (hpast : w'.past = ev :: w.past) (hev : ev.transmits = false)
    (hmotor : motorPhase w'.past = motorPhase w.past)
    (hflag : ∀ f, w.mem.flag f = true → w'.mem.flag f = true)
    (hreturns : ev.returnsFromStop w.past → (motorPhase w.past).heeds w.mem) :
    StopInvariant w' := by
  obtain ⟨hhalts, hheeded⟩ := hI
  refine ⟨?_, fun hpending => ?_⟩
  · rw [hpast]
    exact ⟨fun h => absurd h (by simp [hev]), hhalts⟩
  · rw [hpast, stopPending, Bool.and_eq_true, Bool.or_eq_true] at hpending
    rw [hmotor]
    exact MotorPhase.heeds_mono (hpending.2.elim hheeded hreturns) hflag

/-- In a run in which every emergency stop takes hold, no chunk is started after it for the
operation it interrupts. -/
theorem halts_of_stopTakesHold {b : Boot} {c : Config Act Tid World}
    (h : Steps stopTakesHold.assumption b.config c) : HaltsAfterStop c.shared.past := by
  have hI : StopInvariant c.shared := by
    refine system_invariant h ⟨trivial, nofun⟩ ?_ ?_ ?_ ?_
    · intro w t β a e hI hs
      refine hI.other rfl (Event.transmits_of_quiet hs.quiet _ _) hs.motor ?_ ?_
      · exact fun f hf => Eq.trans (hs.same (.flag f)) hf
      · exact fun hr => absurd hr (by simp [Event.returnsFromStop_of_quiet hs.quiet])
    · intro w β a e q hI hC hs
      exact hI.motor hC hs
    · intro w t β a e q hI hC hs
      obtain ⟨-, -, hev⟩ := hs.move.not_driver
      refine hI.other rfl (hev t w.mem) hs.motor (fun f hf => hs.move.flag_mono e hf) ?_
      intro hr
      have hC : stopTakesHold.allows t a e w = true := hC
      rw [stopTakesHold, Bool.and_eq_true, hr] at hC
      exact hC.1
    · intro w h m hI _ hm
      exact hI.other rfl rfl rfl (fun f hf => Happening.flag_mono hm hf) nofun
  exact hI.halts

/-- A stop returns between two readings of the flag in the first chunk of a fill. -/
def Script.stoppedFill : Script :=
  boot ++ turns .http 1 ++ request .http { type := .fill } 12 ++ turns .motor 9 ++
    request .http { type := .emergencyStop } 7 ++ turns .motor 3

theorem halts_after_stoppedFill : ∃ c, Steps stopTakesHold.assumption (Boot.config {}) c ∧
    stopPending c.shared.past = true ∧ HaltsAfterStop c.shared.past := by
  have hrun : (device.run stopTakesHold Script.stoppedFill (Boot.config {})).any
      (fun c => stopPending c.shared.past) = true := by decide +kernel
  obtain ⟨c, hsteps, hc⟩ := Machine.exists_of_run hrun
  exact ⟨c, hsteps, hc, halts_of_stopTakesHold hsteps⟩

/-- A stop returns during the emptying stroke of a dose calibration, right after the loop head. -/
def Script.stoppedCalDose : Script :=
  boot ++ turns .http 1 ++ request .http { type := .calRun, mode := some "dose" } 10 ++
    turns .motor 162 ++ request .http { type := .emergencyStop } 7 ++ turns .motor 5

/-- The emptying stroke goes on after the stop. -/
theorem stoppedCalDose_moves : ∃ c, Reachable {} c ∧ ¬ HaltsAfterStop c.shared.past := by
  have hrun : (device.run (Guard.any device) Script.stoppedCalDose (Boot.config {})).any
      (fun c => decide (¬ HaltsAfterStop c.shared.past)) = true := by decide +kernel
  obtain ⟨c, hsteps, hc⟩ := Machine.exists_of_run hrun
  exact ⟨c, hsteps.weaken, of_decide_eq_true hc⟩

end Ecotiter
