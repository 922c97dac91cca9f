import Ecotiter.ValveSettling
import Ecotiter.CommandOrigins

/-!
# The valve and the flow

A runner selects the valve for each of its motions. A fill, an empty or a dose does not: it takes the
valve as the last command has left it. A client that turns the valve has read the state earlier.
-/

namespace Ecotiter
open Interleaving

/-- The order moves liquid: it is executed by a runner, or it was sent for a fill, an empty or a
dose. -/
def Order.pumps (o : Order) : Bool :=
  o.cmd.type.selects ||
    (o.cmd.type = .moveSteps && o.request.any fun cmd =>
      cmd.type = .fill || cmd.type = .empty || cmd.type = .doseVolume)

def pumping (past : List Event) : Bool := (currentOrder past).any Order.pumps

/-- A motion of such an order is under way. -/
def flowing (past : List Event) : Bool := pumping past && (motorPhase past).motion?.isSome

/-- The valve is at Input if DIR is set for LiqIn and at Output if it is set for LiqOut. -/
def Mem.valveFits (m : Mem) : Bool := m.valvePin = !m.dirPin

/-- The valve changes its position. -/
def Event.turnsValve : Event → Bool
  | .did _ (.gpioSetLevel .valve level) _ m => level ≠ m.valvePin
  | _ => false

/-- Every chunk of an order that moves liquid is sent with the valve on the side of the flow, and
the valve does not change its position during such a motion. -/
def FlowMatches : List Event → Prop :=
  Throughout fun ev past =>
    (ev.transmits → pumping past → ev.before.valveFits) ∧ (ev.turnsValve → flowing past = false)

instance : DecidablePred FlowMatches := decidableThroughout _

/-- No position is selected for a motion to come or under way. -/
def ValveChoice.uncommitted (c : ValveChoice) : Bool := c = .free || c = .undecided

/-- A fill, an empty or a dose starts with the valve on the right side, and a client turns the valve
neither during a motion that moves liquid nor after a runner has selected a position for one. -/
def valveLeftToMotion : Guard device where
  allows t _ a e w :=
    let ev := Event.did t a (a.run e w.mem).1 w.mem
    (t = .motor || !ev.turnsValve || !flowing w.past && (valveChoice w.past).uncommitted) &&
      (!((motorPhase w.past).begins (motorPhase (w.did t a e).past)).isSome || !pumping w.past ||
        valveChoice w.past ≠ .free || w.mem.valveFits)
  allowsEnv _ _ := true

section Pins

/-- The valve pin changes only by being written. -/
theorem Act.valvePin_after (t : Tid) {β : Type} (a : Act β) (e : Input) (m : Mem) :
    (a.run e m).2.valvePin ≠ m.valvePin →
      (Event.did t a (a.run e m).1 m).turnsValve = true := by
  induction a with
  | gpioSetLevel pin level =>
    cases pin with
    | valve => exact fun h => decide_eq_true h
    | dir | en => exact fun h => absurd rfl h
  | store v x => induction v <;> exact fun h => absurd rfl h
  | storeStop f b => cases f <;> exact fun h => absurd rfl h
  | gpioIsrHandlerAdd e => cases e <;> exact fun h => absurd rfl h
  | casBuretteState desired | createMotorCmdQueue | xQueueReceive | casValveIsSettling
  | nvsSet k x | espTimerCreate arg | espTimerStop | espTimerStartOnce | espTimerExpired =>
    simp only [Act.run]
    split <;> exact fun h => absurd rfl h
  | xQueueSend cmd =>
    simp only [Act.run]
    split
    · exact fun h => absurd rfl h
    · split <;> exact fun h => absurd rfl h
  | _ => exact fun h => absurd rfl h

theorem Happening.pins_after {h : Happening} {m m' : Mem} (hr : h.run m = some m') :
    m'.valvePin = m.valvePin ∧ m'.dirPin = m.dirPin := by
  cases h with
  | level e active => cases hr; cases e <;> exact ⟨rfl, rfl⟩
  | interrupt e =>
    simp only [Happening.run] at hr
    split at hr
    case isTrue => cases hr; cases e <;> exact ⟨rfl, rfl⟩
    case isFalse => cases hr

end Pins

/-- What a selection says of the pins. -/
def ValveChoice.pinned (m : Mem) : ValveChoice → Prop
  | .waiting pos _ | .slice pos _ | .settled pos => m.valvePin = pos.level
  | .aimed pos => m.valvePin = pos.level ∧ m.dirPin = pos.direction.level
  | _ => True

/-- Only a receipt changes the kind of the selection. -/
theorem ChoiceMove.kind {β : Type} {a : Act β} {b : β} {c c' : ValveChoice}
    (h : ChoiceMove a b c c') (m : Mem) :
    (∃ cmd, (Event.did .motor a b m).received = some cmd ∧
      c' = if cmd.type.selects then .undecided else .free) ∨
    (Event.did .motor a b m).received = none ∧ (c' = .free ↔ c = .free) := by
  induction h with
  | receive => exact .inl ⟨_, rfl, rfl⟩
  | @within _ _ a _ ha | @free _ a _ ha | @between _ a _ ha =>
    right
    induction a with
    | xQueueReceive => cases ha
    | _ => exact ⟨rfl, Iff.rfl⟩
  | receiveNone => exact .inr ⟨rfl, Iff.rfl⟩
  | _ => exact .inr ⟨rfl, by simp⟩

theorem Event.turnsValve_of_sparesValve {β : Type} {a : Act β} {b : β} {m : Mem}
    (h : a.sparesValve) : (Event.did .motor a b m).turnsValve = false := by
  induction a with
  | gpioSetLevel pin level => cases pin <;> first | rfl | cases h
  | _ => rfl

/-- The pins stay as selected. -/
theorem ChoiceMove.pinned {β : Type} {a : Act β} {b : β} {c c' : ValveChoice} {e : Input} {m : Mem}
    (h : ChoiceMove a b c c') (hp : c.pinned m) : c'.pinned (a.run e m).2 := by
  induction h with
  | @select level => cases level <;> rfl
  | aim => exact ⟨hp, rfl⟩
  | @within pos _ a _ ha =>
    have hdir : a.writes .dirPin = false := by
      induction a with
      | gpioSetLevel pin level => cases pin <;> first | rfl | exact absurd ha Bool.false_ne_true
      | _ => first | rfl | exact absurd ha Bool.false_ne_true
    have hvalve : (Event.did .motor a (a.run e m).1 m).turnsValve = false :=
      Event.turnsValve_of_sparesValve (Act.sparesValve_of_ofAimed ha)
    have hsame : (a.run e m).2.valvePin = m.valvePin := by
      by_contra hne
      have hturns := Act.valvePin_after .motor a e m hne
      rw [hvalve] at hturns
      cases hturns
    have hdirPin : Field.dirPin.Same m (a.run e m).2 := Act.run_same hdir e m
    exact ⟨hsame.trans hp.1, Eq.trans hdirPin hp.2⟩
  | receive hc => split <;> trivial
  | receiveNone hc => rcases hc with rfl | rfl <;> trivial
  | enable | free | between => trivial
  | _ => exact hp

/-- The motor task turns the valve only to select a position. -/
theorem ChoiceMove.turnsValve {β : Type} {a : Act β} {b : β} {c c' : ValveChoice} {m : Mem}
    (h : ChoiceMove a b c c') (ht : (Event.did .motor a b m).turnsValve) : c = .undecided := by
  induction h with
  | select => rfl
  | within ha =>
    rw [Event.turnsValve_of_sparesValve (Act.sparesValve_of_ofAimed ha)] at ht
    cases ht
  | free ha =>
    rw [Event.turnsValve_of_sparesValve ha] at ht
    cases ht
  | between => rfl
  | _ => cases ht

/-- A motion begins or goes on, and DIR is not written. -/
theorem LayerStep.motion {φ : Type} {P : Protocol Act φ} {p0 : φ} {w : World} {β : Type}
    {a : Act β} {e : Input} {q : MotorPhase} {r : φ} (h : LayerStep P p0 w a e q r)
    (hq : (motorPhase (w.did .motor a e).past).motion?.isSome) :
    a.writes .dirPin = false ∧
      (((motorPhase w.past).begins (motorPhase (w.did .motor a e).past)).isSome ∨
        (motorPhase w.past).motion?.isSome) := by
  rcases h.step with hs | hs
  · rw [hs.motor] at hq
    refine ⟨?_, .inr hq⟩
    have hquiet := hs.quiet
    induction a with
    | gpioSetLevel pin level => cases pin <;> first | rfl | cases hquiet
    | store v x => induction v <;> rfl
    | _ => rfl
  · obtain ⟨hmove, hafter, -⟩ := hs
    rw [hafter] at hq ⊢
    generalize (a.run e w.mem).1 = b at hmove
    generalize motorPhase w.past = p at hmove ⊢
    induction hmove <;>
      first | exact ⟨rfl, .inl rfl⟩ | exact ⟨rfl, .inr rfl⟩ | exact absurd hq Bool.false_ne_true

/-- What is done when a motion begins or goes on. -/
def Act.goesOn : {β : Type} → Act β → Bool
  | _, .xQueueReceive => false
  | _, .gpioSetLevel .en level => level
  | _, _ => true

theorem LayerStep.goesOn {φ : Type} {P : Protocol Act φ} {p0 : φ} {w : World} {β : Type}
    {a : Act β} {e : Input} {q : MotorPhase} {r : φ} (h : LayerStep P p0 w a e q r)
    (hq : (motorPhase (w.did .motor a e).past).motion?.isSome) : a.goesOn := by
  rcases h.step with hs | hs
  · have hquiet := hs.quiet
    induction a with
    | gpioSetLevel pin level => cases pin <;> first | rfl | cases hquiet
    | _ => first | rfl | cases hquiet
  · obtain ⟨hmove, hafter, -⟩ := hs
    rw [hafter] at hq
    generalize (a.run e w.mem).1 = b at hmove
    generalize motorPhase w.past = p at hmove
    induction hmove <;> first | rfl | exact absurd hq Bool.false_ne_true

structure FlowInvariant (w : World) : Prop where
  matched : FlowMatches w.past
  kind : valveChoice w.past = .free ↔ (currentOrder w.past).any (·.cmd.type.selects) = false
  pinned : (valveChoice w.past).pinned w.mem
  within : (motorPhase w.past).motion?.isSome →
    valveChoice w.past = .free ∨ ∃ pos, valveChoice w.past = .aimed pos
  flow : flowing w.past → w.mem.valveFits

/-- A motion by a number of steps begins when the frequency is read, every other motion when its
flag is lowered. -/
theorem MotorMove.begins_cases {β : Type} {a : Act β} {b : β} {p q : MotorPhase}
    (h : MotorMove a b p q) (hb : (p.begins q).isSome) :
    (∃ flag x, (⟨β, a⟩ : Σ β, Act β) = ⟨_, .storeStop flag x⟩) ∨
      (⟨β, a⟩ : Σ β, Act β) = ⟨_, .load .speed⟩ ∧ p.executes .moveSteps := by
  induction h with
  | startHoming | startEndstop => exact .inl ⟨_, _, rfl⟩
  | startSteps hop => exact .inr ⟨rfl, hop⟩
  | _ => cases hb

theorem Orderly.not_selects {w : World} (h : Orderly w)
    (hp : (motorPhase w.past).executes .moveSteps) :
    (currentOrder w.past).any (·.cmd.type.selects) = false := by
  unfold MotorPhase.executes at hp
  split at hp
  case h_1 op s hphase =>
    cases op with
    | homing => cases hp
    | command cmd =>
      have ht : cmd.type = .moveSteps := of_decide_eq_true hp
      obtain ⟨o, ho, hcmd⟩ := Option.map_eq_some_iff.mp (h.current cmd s hphase)
      rw [ho, Option.any_some, hcmd, ht]
      rfl
  case h_2 => cases hp

/-- A motion takes place where no position is selected, or after DIR is set for the selected one. -/
theorem FlowInvariant.choice_within {w : World} {β : Type} {a : Act β} {e : Input} {q : MotorPhase}
    {c : ValveChoice} (hI : FlowInvariant w) (hO : Orderly w)
    (hs : LayerStep choiceProtocol .free w a e q c)
    (hq : (motorPhase (w.did .motor a e).past).motion?.isSome) :
    valveChoice w.past = .free ∨ ∃ pos, valveChoice w.past = .aimed pos := by
  rcases (hs.motion hq).2 with hbegins | hunder
  · have hmotor : MotorStep w a e q := by
      rcases hs.step with hquiet | hmotor
      · rw [hquiet.motor, MotorPhase.begins_self] at hbegins
        cases hbegins
      · exact hmotor
    rw [hmotor.motor] at hbegins
    rcases hmotor.move.begins_cases hbegins with ⟨flag, x, ha⟩ | ⟨-, hsteps⟩
    · cases ha
      have hnext : (valveChoice w.past).onMotion = some c := hs.next
      generalize valveChoice w.past = c0 at hnext ⊢
      cases c0 with
      | aimed pos => exact .inr ⟨pos, rfl⟩
      | free => exact .inl rfl
      | _ => cases hnext
    · exact .inl (hI.kind.mpr (hO.not_selects hsteps))
  · exact hI.within hunder

theorem FlowInvariant.within_after {w : World} {β : Type} {a : Act β} {e : Input} {q : MotorPhase}
    {c : ValveChoice} (hI : FlowInvariant w) (hO : Orderly w)
    (hs : LayerStep choiceProtocol .free w a e q c)
    (hq : (motorPhase (w.did .motor a e).past).motion?.isSome) :
    c = .free ∨ ∃ pos, c = .aimed pos := by
  have hstays := hs.goesOn hq
  have hchoice := hI.choice_within hO hs hq
  have hmove : ChoiceMove a (a.run e w.mem).1 (valveChoice w.past) c := ValveChoice.moves hs.next
  generalize (a.run e w.mem).1 = b at hmove
  generalize valveChoice w.past = c0 at hmove hchoice
  rcases hchoice with rfl | ⟨pos, rfl⟩
  · cases hmove with
    | receive => cases hstays
    | receiveNone | free => exact .inl rfl
  · cases hmove with
    | within => exact .inr ⟨pos, rfl⟩
    | enable => cases hstays
    | receive => cases hstays
    | receiveNone hc => rcases hc with hc | hc <;> cases hc

/-- A selected position fits the direction that is set for it. -/
theorem ValveChoice.fits_of_aimed {m : Mem} {pos : ValvePosition}
    (h : ValveChoice.pinned m (.aimed pos)) : m.valveFits := by
  obtain ⟨hvalve, hdir⟩ := h
  rw [Mem.valveFits, hvalve, hdir]
  cases pos <;> rfl

theorem pumping_same {ev : Event} {past : List Event} (h : ev.receives = false) :
    pumping (ev :: past) = pumping past := by
  rw [pumping, currentOrder_same h, pumping]

/-- The valve fits during a motion of an order that moves liquid. -/
theorem FlowInvariant.flow_after {w : World} {β : Type} {a : Act β} {e : Input} {q : MotorPhase}
    {c : ValveChoice} (hI : FlowInvariant w) (hO : Orderly w)
    (hC : valveLeftToMotion.allows .motor a e w) (hs : LayerStep choiceProtocol .free w a e q c)
    (hflow : flowing (w.did .motor a e).past) : (a.run e w.mem).2.valveFits := by
  have hflow : pumping (w.did .motor a e).past = true ∧
      (motorPhase (w.did .motor a e).past).motion?.isSome = true := by
    simpa [flowing] using hflow
  obtain ⟨hpump, hmotion⟩ := hflow
  have hstays := hs.goesOn hmotion
  have hreceives : (Event.did .motor a (a.run e w.mem).1 w.mem).receives = false := by
    induction a <;> first | rfl | cases hstays
  have hpump : pumping w.past = true := (pumping_same hreceives).symm.trans hpump
  have hmove : ChoiceMove a (a.run e w.mem).1 (valveChoice w.past) c := ValveChoice.moves hs.next
  rcases hI.within_after hO hs hmotion with rfl | ⟨pos, rfl⟩
  · have hfree : valveChoice w.past = .free := by
      rcases hmove.kind w.mem with ⟨cmd, hcmd, -⟩ | ⟨-, hkind⟩
      · rw [Event.receives, hcmd] at hreceives
        cases hreceives
      · exact hkind.mp rfl
    have hbefore : w.mem.valveFits = true := by
      obtain ⟨-, hbegins | hunder⟩ := hs.motion hmotion
      · have hall := hC
        simp only [valveLeftToMotion, Bool.and_eq_true] at hall
        have hguard := hall.2
        rw [hbegins, hpump, hfree] at hguard
        exact hguard
      · exact hI.flow (by simp [flowing, hpump, hunder])
    have hdir : Field.dirPin.Same w.mem (a.run e w.mem).2 := Act.run_same (hs.motion hmotion).1 e w.mem
    have hvalve : (a.run e w.mem).2.valvePin = w.mem.valvePin := by
      by_contra hne
      have hundecided := hmove.turnsValve (Act.valvePin_after .motor a e w.mem hne)
      rw [hfree] at hundecided
      cases hundecided
    have hdir : (a.run e w.mem).2.dirPin = w.mem.dirPin := hdir
    rwa [Mem.valveFits, hvalve, hdir]
  · exact ValveChoice.fits_of_aimed (hmove.pinned hI.pinned)


theorem FlowInvariant.motor {w : World} {β : Type} {a : Act β} {e : Input} {q : MotorPhase}
    {c : ValveChoice} (hI : FlowInvariant w) (hO : Orderly w)
    (hC : valveLeftToMotion.allows .motor a e w) (hs : LayerStep choiceProtocol .free w a e q c) :
    FlowInvariant (w.did .motor a e) := by
  have hmove : ChoiceMove a (a.run e w.mem).1 (valveChoice w.past) c := ValveChoice.moves hs.next
  have hafter : valveChoice (w.did .motor a e).past = c := hs.after
  refine ⟨⟨⟨fun htransmit hpump => ?_, fun hturns => ?_⟩, hI.matched⟩, ?_, ?_, fun hq => ?_,
    hI.flow_after hO hC hs⟩
  · have hmotion : (motorPhase w.past).motion?.isSome := by
      rcases hs.step with hquiet | hmotor
      · rw [Event.transmits_of_quiet hquiet.quiet] at htransmit
        cases htransmit
      · have hmotor := hmotor.move
        generalize (a.run e w.mem).1 = b at hmotor htransmit
        generalize motorPhase w.past = p at hmotor
        induction hmotor <;> first | rfl | cases htransmit
    exact hI.flow (by simp [flowing, hpump, hmotion])
  · have hundecided := hmove.turnsValve hturns
    have hnone : (motorPhase w.past).motion?.isSome = false := by
      rw [Bool.eq_false_iff]
      intro hmotion
      rcases hI.within hmotion with h | ⟨pos, h⟩ <;> rw [hundecided] at h <;> cases h
    rw [flowing, hnone, Bool.and_false]
  · rw [hafter, World.did_past]
    rcases hmove.kind w.mem with ⟨cmd, hcmd, hc⟩ | ⟨hnone, hkind⟩
    · obtain ⟨o, ho, hocmd⟩ := Option.map_eq_some_iff.mp (hO.received hcmd)
      rw [World.did_past] at ho
      rw [ho, hc, Option.any_some, hocmd]
      cases cmd.type.selects <;> decide
    · have hreceives : (Event.did .motor a (a.run e w.mem).1 w.mem).receives = false := by
        rw [Event.receives, hnone]
        rfl
      rw [currentOrder_same hreceives, hkind]
      exact hI.kind
  · rw [hafter]
    exact hmove.pinned hI.pinned
  · rw [hafter]
    exact hI.within_after hO hs hq


/-- Another task keeps the invariant if it turns the valve only as the guard allows. -/
theorem FlowInvariant.other {w w' : World} {ev : Event} (hI : FlowInvariant w)
    (hpast : w'.past = ev :: w.past) (htransmit : ev.transmits = false)
    (hreceives : ev.receives = false) (hmotor : motorPhase w'.past = motorPhase w.past)
    (hchoice : valveChoice w'.past = valveChoice w.past)
    (hdir : w'.mem.dirPin = w.mem.dirPin)
    (hvalve : w'.mem.valvePin ≠ w.mem.valvePin → ev.turnsValve = true)
    (hguard : ev.turnsValve → flowing w.past = false ∧ (valveChoice w.past).uncommitted) :
    FlowInvariant w' := by
  have hflowing : flowing w'.past = flowing w.past := by
    rw [flowing, flowing, hmotor, hpast, pumping_same hreceives]
  refine ⟨?_, ?_, ?_, ?_, fun hflow => ?_⟩
  · rw [hpast]
    refine ⟨⟨fun h => ?_, fun h => (hguard h).1⟩, hI.matched⟩
    rw [htransmit] at h
    cases h
  · rw [hchoice, hpast, currentOrder_same hreceives]
    exact hI.kind
  · rw [hchoice]
    by_cases hsame : w'.mem.valvePin = w.mem.valvePin
    · have hpinned := hI.pinned
      generalize valveChoice w.past = c at hpinned ⊢
      cases c with
      | aimed pos => exact ⟨hsame.trans hpinned.1, hdir.trans hpinned.2⟩
      | free | undecided => trivial
      | _ => exact hsame.trans hpinned
    · have huncommitted := (hguard (hvalve hsame)).2
      generalize valveChoice w.past = c at huncommitted ⊢
      cases c with
      | free | undecided => trivial
      | _ => exact absurd huncommitted Bool.false_ne_true
  · rw [hmotor, hchoice]
    exact hI.within
  · rw [hflowing] at hflow
    have hsame : w'.mem.valvePin = w.mem.valvePin := by
      by_contra hne
      have hnot := (hguard (hvalve hne)).1
      rw [hflow] at hnot
      cases hnot
    rw [Mem.valveFits, hsame, hdir]
    exact hI.flow hflow

theorem valveLeftToMotion_turns {w : World} {t : Tid} {β : Type} {a : Act β} {e : Input}
    (hC : valveLeftToMotion.allows t a e w) (ht : t ≠ .motor)
    (hturns : (Event.did t a (a.run e w.mem).1 w.mem).turnsValve) :
    flowing w.past = false ∧ (valveChoice w.past).uncommitted := by
  simp only [valveLeftToMotion, Bool.and_eq_true] at hC
  simpa [ht, hturns] using hC.1

/-- In a run in which fills, empties and doses start with the valve on the right side and no client
turns the valve once a motion that moves liquid is prepared, the valve matches the flow. -/
theorem flowMatches_of_valveLeftToMotion {b : Boot} {c : Config Act Tid World}
    (h : Steps valveLeftToMotion.assumption b.config c) : FlowMatches c.shared.past := by
  have hsteps : Steps (valveLeftToMotion.assumption.within Orderly) b.config c :=
    h.within fun d hd => orderly_of_steps hd
  have hI : FlowInvariant c.shared := by
    have hphase : motorPhase b.world.past = .unborn := rfl
    refine layered_invariant selects_motorTaskEntry hsteps ⟨trivial, ?_, trivial, ?_, nofun⟩
      ?_ ?_ ?_ ?_
    · exact ⟨fun _ => rfl, fun _ => rfl⟩
    · intro hmotion
      exact .inl rfl
    · intro w β a e q r hI hC hs
      exact hI.motor hC.2.1 hC.1 hs
    · intro w t β a e q hI hC ht hs hchoice
      have hdir : Field.dirPin.Same w.mem (w.did t a e).mem := by
        rcases hs with hs | hs
        · exact hs.same .dirPin
        · exact Act.run_same hs.move.not_driver.2.1 e w.mem
      have hmotor : motorPhase (w.did t a e).past = motorPhase w.past := by
        rcases hs with hs | hs
        · exact hs.motor
        · exact hs.motor
      have hnot : (Event.did t a (a.run e w.mem).1 w.mem).transmits = false ∧
          (Event.did t a (a.run e w.mem).1 w.mem).receives = false := by
        rcases hs with hs | hs
        · exact ⟨Event.transmits_of_quiet hs.quiet _ _, Event.receives_of_quiet hs.quiet _ _⟩
        · exact ⟨hs.move.not_driver.2.2 t w.mem, (hs.move.not_owner t w.mem).1⟩
      exact hI.other rfl hnot.1 hnot.2 hmotor hchoice hdir (Act.valvePin_after t a e w.mem)
        (valveLeftToMotion_turns hC.1 (Tid.ne_motor_of_isClient ht))
    · intro w β a e hI hC hs hchoice
      have hdir : Field.dirPin.Same w.mem (w.did .timer a e).mem := hs.same .dirPin
      exact hI.other rfl (Event.transmits_of_quiet hs.quiet _ _)
        (Event.receives_of_quiet hs.quiet _ _) hs.motor hchoice hdir
        (Act.valvePin_after .timer a e w.mem) (valveLeftToMotion_turns hC.1 nofun)
    · intro w h m hI _ hm
      obtain ⟨hvalve, hdir⟩ := Happening.pins_after hm
      exact hI.other rfl rfl rfl rfl rfl hdir (fun h => absurd hvalve h) nofun
  exact hI.matched

/-- A fill after power-up, up to its first chunk. -/
def Script.firstFill : Script :=
  boot ++ turns .http 1 ++ request .http { type := .fill } 12 ++ turns .motor 14

theorem flowMatches_in_firstFill :
    ∃ c, Steps valveLeftToMotion.assumption (Boot.config {}) c ∧ flowing c.shared.past = true ∧
      c.shared.past.head?.any Event.transmits = true ∧ FlowMatches c.shared.past := by
  have hrun : (device.run valveLeftToMotion Script.firstFill (Boot.config {})).any (fun c =>
      flowing c.shared.past && c.shared.past.head?.any Event.transmits) = true := by decide +kernel
  obtain ⟨c, hsteps, hc⟩ := Machine.exists_of_run hrun
  obtain ⟨hflowing, htransmits⟩ := (Bool.and_eq_true _ _).mp hc
  exact ⟨c, hsteps, hflowing, htransmits, flowMatches_of_valveLeftToMotion hsteps⟩

/-- An empty after power-up, up to its first chunk. -/
def Script.firstEmpty : Script :=
  boot ++ turns .http 1 ++ request .http { type := .empty } 13 ++ turns .motor 14

/-- The valve is at Input after power-up, and the empty does not select Output. -/
theorem firstEmpty_wrongWay : ∃ c, Reachable {} c ∧ ¬ FlowMatches c.shared.past := by
  have hrun : (device.run (Guard.any device) Script.firstEmpty (Boot.config {})).any
      (fun c => decide (¬ FlowMatches c.shared.past)) = true := by decide +kernel
  obtain ⟨c, hsteps, hc⟩ := Machine.exists_of_run hrun
  exact ⟨c, hsteps.weaken, of_decide_eq_true hc⟩

end Ecotiter
