import Ecotiter.MotionFlags

/-!
# The limit switches and the direction of a motion

Each switch has its own flag, but a `MoveSteps` or `MoveContinuous` motion polls `gStopFull` in both
directions, and only some motions lower the flag they poll before they start.
-/

namespace Ecotiter
open Interleaving

/-- The interrupt of the switch at this end happens. -/
def Event.interrupts : Event → Option Endstop
  | .happened (.interrupt e) _ => some e
  | _ => none

/-- The motor task is set up or moving towards this switch. -/
def MotorPhase.towards (p : MotorPhase) (e : Endstop) : Bool :=
  p.direction?.any fun d => d.endstop = e

/-- The switch that the motion runs towards has had its interrupt since DIR was set for it. -/
def endstopFired : List Event → Bool
  | [] => false
  | ev :: past =>
    (motorPhase (ev :: past)).direction?.isSome &&
      (endstopFired past || ev.interrupts.any (motorPhase past).towards)

/-- The flag was raised by its interrupt in a motion towards its switch and has not been lowered
since. -/
def leftSet (f : StopFlag) : List Event → Bool
  | [] => false
  | .happened (.interrupt e) m :: past =>
    if e.flag = f ∧ m.flag f = false then (motorPhase past).towards e else leftSet f past
  | .did _ (.storeStop g b) _ _ :: past => if g = f then b && leftSet f past else leftSet f past
  | _ :: past => leftSet f past

/-- A reading of a flag that ends a motion although it is not the flag of the switch ahead. -/
def Event.stopsByOther (past : List Event) : Event → Option StopFlag
  | .did _ (.poll _ f) seen _ =>
    (motorPhase past).motion?.bind fun mo =>
      if seen ∧ f ≠ mo.direction.endstop.flag then some f else none
  | _ => none

/-- (a) No chunk is started after the interrupt of the switch ahead, and (b) no motion is stopped by
a flag that a motion in the other direction has left set. -/
def Interlocked : List Event → Prop :=
  Throughout fun ev past =>
    (ev.transmits → endstopFired past = false) ∧
      (ev.stopsByOther past).all fun f => !leftSet f past

instance : DecidablePred Interlocked := decidableThroughout _

/-- An interrupt of the switch ahead is seen by the motion: it polls the flag of that switch, has no
chunk committed and will not lower the flag again. -/
def MotorPhase.sees (e : Endstop) : MotorPhase → Bool
  | .running op (.aimed _) => op.hasType .moveSteps && e.flag = .stopFull
  | .running _ (.cleared _) => false
  | .running _ (.moving mo p) =>
    p = .halting || p = .halted || p = .faulted || (p ≠ .committed && e.flag = mo.flag)
  | _ => true

/-- Interrupts come when they are seen, and no motion starts with a flag that a motion in the other
direction has left set. -/
def interlockHolds : Guard device where
  allows t _ a e w :=
    ((motorPhase w.past).begins (motorPhase (w.did t a e).past)).all fun mo =>
      mo.flag = mo.direction.endstop.flag || !leftSet mo.flag (w.did t a e).past
  allowsEnv h w :=
    match h with
    | .interrupt e => !(motorPhase w.past).towards e || (motorPhase w.past).sees e
    | .level _ _ => true

theorem Endstop.flag_injective {e e' : Endstop} (h : e.flag = e'.flag) : e = e' := by
  cases e <;> cases e' <;> first | rfl | cases h

/-- What holds of the phase once the switch ahead has had its interrupt. -/
def AheadSeen (m : Mem) : MotorPhase → Prop
  | .running op (.aimed _) => op.hasType .moveSteps ∧ m.flag .stopFull
  | .running _ (.cleared _) => False
  | p => p.heeds m

theorem AheadSeen.mono {m m' : Mem} {p : MotorPhase} (hp : AheadSeen m p)
    (hm : ∀ f, m.flag f = true → m'.flag f = true) : AheadSeen m' p := by
  unfold AheadSeen at hp ⊢
  split at hp
  case h_1 op d => exact ⟨hp.1, hm .stopFull hp.2⟩
  case h_2 => exact hp
  case h_3 => exact MotorPhase.heeds_mono hp hm

/-- An interrupt that is seen raises the flag that the motion polls or will poll. -/
theorem aheadSeen_of_sees {e : Endstop} {p : MotorPhase} {m : Mem} (h : p.sees e)
    (hm : m.flag e.flag = true) : AheadSeen m p := by
  unfold AheadSeen
  split
  case h_1 op d =>
    have h : op.hasType .moveSteps = true ∧ e.flag = .stopFull := by
      simpa [MotorPhase.sees] using h
    exact ⟨h.1, h.2 ▸ hm⟩
  case h_2 => simp [MotorPhase.sees] at h
  case h_3 =>
    unfold MotorPhase.heeds
    split
    case h_1 op mo pl =>
      simp only [MotorPhase.sees] at h
      grind -ring -linarith -ac
    case h_2 => rfl

/-- A motion towards a switch that has had its interrupt goes on to no further chunk. -/
theorem MotorMove.aheadSeen {β : Type} {a : Act β} {p q : MotorPhase} {e : Input} {m : Mem}
    (h : MotorMove a (a.run e m).1 p q) (hp : AheadSeen m p) (hd : p.direction?.isSome) :
    AheadSeen (a.run e m).2 q := by
  have hkeep : ∀ f, a.writes (.flag f) = false → (a.run e m).2.flag f = m.flag f :=
    fun f hw => Act.run_same hw e m
  generalize hb : (a.run e m).1 = b at h
  induction h with
  | @clear op d flag hop =>
    have hsteps : op.hasType .moveSteps = true := hp.1
    cases op <;> simp_all [Op.hasType, Op.homes]
  | @startEndstop op d hop =>
    have hsteps : op.hasType .moveSteps = true := hp.1
    cases op <;> simp_all [Op.hasType, Op.endstop]
  | startHoming => exact hp.elim
  | startSteps =>
    have hflag : m.flag .stopFull = true := hp.2
    simpa [AheadSeen, MotorPhase.heeds] using (hkeep .stopFull rfl).trans hflag
  | headClear | chunkClear | transmitClear | waitClear =>
    have hdown : m.flag _ = false := hb
    simp only [AheadSeen, MotorPhase.heeds, hdown] at hp
    grind -ring -linarith -ac
  | transmit => exact absurd hp MotorPhase.not_committed_of_heeds
  | _ =>
    first
    | rfl
    | (cases hd; done)
    | (have hflag := fun f => hkeep f rfl
       grind -ring -linarith -ac [AheadSeen, MotorPhase.heeds, Place.afterTransmit_cases,
         Place.afterAwait_cases])

theorem direction_of_endstopFired {past : List Event} (h : endstopFired past) :
    (motorPhase past).direction?.isSome := by
  cases past with
  | nil => cases h
  | cons ev past =>
    rw [endstopFired, Bool.and_eq_true] at h
    exact h.1

structure InterlockInvariant (w : World) : Prop where
  interlocked : Interlocked w.past
  ahead : endstopFired w.past → AheadSeen w.mem (motorPhase w.past)
  clean : ∀ mo, (motorPhase w.past).motion? = some mo → mo.flag ≠ mo.direction.endstop.flag →
    leftSet mo.flag w.past = false

theorem AheadSeen.heeds {m : Mem} {p : MotorPhase} (h : AheadSeen m p) : p.heeds m := by
  unfold AheadSeen at h
  split at h
  case h_1 => rfl
  case h_2 => exact h.elim
  case h_3 => exact h

/-- No action of a task marks a flag as left set. -/
theorem leftSet_did {f : StopFlag} {past : List Event} (h : leftSet f past = false) (t : Tid)
    {β : Type} (a : Act β) (b : β) (m : Mem) : leftSet f (.did t a b m :: past) = false := by
  induction a with
  | storeStop g x => simp [leftSet, h]
  | _ => exact h

/-- Within a motion the motor task stays in this motion. -/
theorem MotorMove.motion_eq {β : Type} {a : Act β} {b : β} {p q : MotorPhase} {mo : Motion}
    (h : MotorMove a b p q) (hq : q.motion? = some mo) :
    p.motion? = some mo ∨ p.begins q = some mo := by
  induction h <;> first | exact .inl hq | exact .inr hq

/-- A motion that is stopped by a flag reads the flag it polls. -/
theorem MotorMove.stopsByOther {β : Type} {a : Act β} {b : β} {m : Mem} {past : List Event}
    {q : MotorPhase} {f : StopFlag} (h : MotorMove a b (motorPhase past) q)
    (hf : (Event.did .motor a b m).stopsByOther past = some f) :
    ∃ mo, (motorPhase past).motion? = some mo ∧ f = mo.flag ∧
      mo.flag ≠ mo.direction.endstop.flag := by
  generalize hp : motorPhase past = p at h
  induction h with
  | settlePoll | headClear | headSeen | innerSeen | chunkClear | transmitClear | waitClear =>
    simp only [Event.stopsByOther, hp, MotorPhase.motion?, Option.bind_none, Option.bind_some] at hf
    first
    | exact ⟨_, rfl, by grind -ring -linarith -ac, by grind -ring -linarith -ac⟩
    | cases hf
  | _ => cases hf

theorem ClientMove.not_stopsByOther {isMain : Bool} {β : Type} {a : Act β} {b : β}
    {p q : ClientPhase} (h : ClientMove isMain a b p q) (t : Tid) (m : Mem) (past : List Event) :
    (Event.did t a b m).stopsByOther past = none := by
  induction h <;> rfl

theorem Event.stopsByOther_of_quiet {t : Tid} {β : Type} {a : Act β} (ha : a.quiet) (b : β)
    (m : Mem) (past : List Event) : (Event.did t a b m).stopsByOther past = none := by
  induction a <;> first | rfl | cases ha

theorem InterlockInvariant.motor {w : World} {β : Type} {a : Act β} {e : Input} {q : MotorPhase}
    (hI : InterlockInvariant w) (hC : interlockHolds.allows .motor a e w)
    (hs : MotorStep w a e q) : InterlockInvariant (w.did .motor a e) := by
  obtain ⟨hlocked, hahead, hclean⟩ := hI
  obtain ⟨hmove, hq, -⟩ := hs
  refine ⟨⟨⟨fun htransmit => ?_, ?_⟩, hlocked⟩, fun hfired => ?_, fun mo hmo hflag => ?_⟩
  · rw [Bool.eq_false_iff]
    intro hfired
    exact hmove.not_transmits (hahead hfired).heeds htransmit
  · cases hf : (Event.did .motor a (a.run e w.mem).1 w.mem).stopsByOther w.past with
    | none => rfl
    | some f =>
      obtain ⟨mo, hmo, rfl, hother⟩ := hmove.stopsByOther hf
      simpa using hclean mo hmo hother
  · have hbefore : endstopFired w.past := by
      rw [World.did_past, endstopFired, Bool.and_eq_true, Bool.or_eq_true] at hfired
      exact hfired.2.elim id nofun
    rw [hq]
    exact hmove.aheadSeen (hahead hbefore) (direction_of_endstopFired hbefore)
  · rw [hq] at hmo
    rcases hmove.motion_eq hmo with hbefore | hbegin
    · exact leftSet_did (hclean mo hbefore hflag) .motor a _ _
    · have hC : ((motorPhase w.past).begins (motorPhase (w.did .motor a e).past)).all (fun mo =>
          mo.flag = mo.direction.endstop.flag || !leftSet mo.flag (w.did .motor a e).past) = true :=
        hC
      rw [hq, hbegin] at hC
      simpa [hflag] using hC

/-- An action of another task keeps the invariant if it lowers no flag. -/
theorem InterlockInvariant.other {w : World} {t : Tid} {β : Type} {a : Act β} {e : Input}
    (hI : InterlockInvariant w)
    (htransmit : (Event.did t a (a.run e w.mem).1 w.mem).transmits = false)
    (hstop : (Event.did t a (a.run e w.mem).1 w.mem).stopsByOther w.past = none)
    (hmotor : motorPhase (w.did t a e).past = motorPhase w.past)
    (hflag : ∀ f, w.mem.flag f = true → (w.did t a e).mem.flag f = true) :
    InterlockInvariant (w.did t a e) := by
  obtain ⟨hlocked, hahead, hclean⟩ := hI
  refine ⟨⟨⟨fun h => ?_, ?_⟩, hlocked⟩, fun hfired => ?_, fun mo hmo hother => ?_⟩
  · rw [htransmit] at h
    cases h
  · rw [hstop]
    rfl
  · rw [World.did_past, endstopFired, Bool.and_eq_true, Bool.or_eq_true] at hfired
    rw [hmotor]
    exact (hahead (hfired.2.elim id nofun)).mono hflag
  · rw [hmotor] at hmo
    exact leftSet_did (hclean mo hmo hother) t a _ _

theorem InterlockInvariant.switch {w : World} {h : Happening} {m : Mem}
    (hI : InterlockInvariant w) (hC : interlockHolds.allowsEnv h w) (hm : h.run w.mem = some m) :
    InterlockInvariant ⟨m, .happened h w.mem :: w.past⟩ := by
  obtain ⟨hlocked, hahead, hclean⟩ := hI
  have hmono : ∀ f, w.mem.flag f = true → m.flag f = true :=
    fun f hf => Happening.flag_mono hm hf
  refine ⟨⟨⟨nofun, rfl⟩, hlocked⟩, fun hfired => ?_, fun mo hmo hother => ?_⟩
  · rw [endstopFired, Bool.and_eq_true, Bool.or_eq_true] at hfired
    rcases hfired.2 with hbefore | hnow
    · exact (hahead hbefore).mono hmono
    · cases h with
      | level e active => cases hnow
      | interrupt e =>
        have htowards : (motorPhase w.past).towards e = true := hnow
        have hsees : (motorPhase w.past).sees e = true := by
          simpa [interlockHolds, htowards] using hC
        exact aheadSeen_of_sees hsees (Happening.flag_of_interrupt hm)
  · have hbefore := hclean mo hmo hother
    cases h with
    | level e active => exact hbefore
    | interrupt e =>
      simp only [leftSet]
      split
      case isTrue he =>
        rw [Bool.eq_false_iff]
        intro htowards
        have htowards : mo.direction.endstop = e := by
          have hmo : (motorPhase w.past).motion? = some mo := hmo
          rw [MotorPhase.towards, MotorPhase.direction_of_motion hmo] at htowards
          exact of_decide_eq_true htowards
        exact hother (htowards ▸ he.1.symm)
      case isFalse => exact hbefore

/-- In a run in which every interrupt of the switch ahead is seen and no motion starts with a flag
left set by a motion in the other direction, the switches act on the motions of their direction
only. -/
theorem interlocked_of_interlockHolds {b : Boot} {c : Config Act Tid World}
    (h : Steps interlockHolds.assumption b.config c) : Interlocked c.shared.past := by
  have hI : InterlockInvariant c.shared := by
    refine system_invariant h ⟨trivial, nofun, nofun⟩ ?_ ?_ ?_ ?_
    · intro w t β a e hI hs
      exact hI.other (Event.transmits_of_quiet hs.quiet _ _)
        (Event.stopsByOther_of_quiet hs.quiet _ _ _) hs.motor
        fun f hf => Eq.trans (hs.same (.flag f)) hf
    · intro w β a e q hI hC hs
      exact hI.motor hC hs
    · intro w t β a e q hI _ hs
      obtain ⟨-, -, hev⟩ := hs.move.not_driver
      exact hI.other (hev t w.mem) (hs.move.not_stopsByOther t w.mem w.past) hs.motor
        fun f hf => hs.move.flag_mono e hf
    · intro w h m hI hC hm
      exact hI.switch hC hm
  exact hI.interlocked

/-- A fill is interrupted by its own switch while a chunk is being sent. -/
def Script.fillToSwitch : Script :=
  boot ++ turns .http 1 ++ request .http { type := .fill } 12 ++ turns .motor 14 ++
    [.env (.level .full true), .env (.interrupt .full)] ++ turns .motor 6

theorem interlocked_after_fillToSwitch :
    ∃ c, Steps interlockHolds.assumption (Boot.config {}) c ∧
      leftSet .stopFull c.shared.past = true ∧ Interlocked c.shared.past := by
  have hrun : (device.run interlockHolds Script.fillToSwitch (Boot.config {})).any
      (fun c => leftSet .stopFull c.shared.past) = true := by decide +kernel
  obtain ⟨c, hsteps, hc⟩ := Machine.exists_of_run hrun
  exact ⟨c, hsteps, hc, interlocked_of_interlockHolds hsteps⟩

/-- The same fill, and then an `empty` that is sent the other way. -/
def Script.emptyAfterFill : Script :=
  fillToSwitch ++ turns .motor 10 ++ request .http { type := .empty } 13 ++ turns .motor 12

/-- The flag of the FULL switch, left set by the fill, stops the motion towards the EMPTY switch. -/
theorem emptyAfterFill_stopped : ∃ c, Reachable {} c ∧ ¬ Interlocked c.shared.past := by
  have hrun : (device.run (Guard.any device) Script.emptyAfterFill (Boot.config {})).any
      (fun c => decide (¬ Interlocked c.shared.past)) = true := by decide +kernel
  obtain ⟨c, hsteps, hc⟩ := Machine.exists_of_run hrun
  exact ⟨c, hsteps.weaken, of_decide_eq_true hc⟩

end Ecotiter
