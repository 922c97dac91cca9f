import Ecotiter.SettleProtocol
import Ecotiter.ValveExclusion

/-!
# The settle timer

The tasks take the steps of the protocol of the settle timer as long as they keep its order. The
code does not see to this order: the first request creates and starts the timer without marking it
as armed, so that an emergency stop does not cancel it and the next request starts it while it runs.
-/

namespace Ecotiter
open Interleaving

/-- Some client or the motor task is in one of these phases of its call. -/
def anyCall (f : ValveCall → Bool) (past : List Event) : Bool :=
  f (valveCall .main past) || f (valveCall .http past) || f (valveCall .motor past)

theorem anyCall_iff {f : ValveCall → Bool} {past : List Event} :
    anyCall f past ↔ ∃ t, t ≠ .timer ∧ f (valveCall t past) := by
  simp only [anyCall, Bool.or_eq_true]
  constructor
  · rintro ((h | h) | h)
    · exact ⟨.main, nofun, h⟩
    · exact ⟨.http, nofun, h⟩
    · exact ⟨.motor, nofun, h⟩
  · rintro ⟨t, ht, h⟩
    cases t with
    | main => exact .inl (.inl h)
    | http => exact .inl (.inr h)
    | motor => exact .inr h
    | timer => exact absurd rfl ht

def World.settleView (w : World) : SettleView where
  settling := w.mem.valveIsSettling
  armed := w.mem.valveTimerArmed
  pending := w.mem.timerPending
  created := w.mem.timerArg.isSome
  callback := timerPhase w.past
  call t := if t = .timer then .outside else valveCall t w.past

theorem World.any_settleView {w : World} {f : ValveCall → Bool} (hf : f .outside = false) :
    w.settleView.Any f ↔ anyCall f w.past := by
  rw [anyCall_iff]
  constructor
  · rintro ⟨t, h⟩
    by_cases ht : t = .timer
    · simp [settleView, ht, hf] at h
    · exact ⟨t, ht, by simpa [settleView, ht] using h⟩
  · rintro ⟨t, ht, h⟩
    exact ⟨t, by simpa [settleView, ht] using h⟩

namespace Event

def startsTimer : Event → Bool
  | .did _ .espTimerStartOnce _ _ => true
  | _ => false

/-- The task that lowers `gValveIsSettling`. -/
def lowersSettling : Event → Option Tid
  | .did t (.store .valveIsSettling false) _ _ => some t
  | _ => none

/-- The timer has run out and its callback begins. -/
def expiresTimer : Event → Bool
  | .did _ .espTimerExpired (some _) _ => true
  | _ => false

end Event

/-- A valve request was accepted since the timer ran out. -/
def acquiredSinceExpiry : List Event → Bool
  | [] => false
  | ev :: past => ev.acquiresValve.isSome || (!ev.expiresTimer && acquiredSinceExpiry past)

/-- The timer is started only when it does not run, an emergency stop leaves it running only while
another one is about to stop it, and its callback lowers no flag that a later request has raised. -/
def TimerSafe : List Event → Prop :=
  Throughout fun ev past =>
    (ev.startsTimer → ev.before.timerPending = false) ∧
      (∀ t, t ≠ .timer → ev.lowersSettling = some t → ev.before.timerPending →
        anyCall ValveCall.stops past) ∧
      (ev.lowersSettling = some .timer → acquiredSinceExpiry past = false)

/-- What the settle timer is to guarantee. -/
def SettlesProperly (w : World) : Prop :=
  (w.settleView.AtRest → w.settleView.Consistent) ∧ TimerSafe w.past

/-- The timer that runs is marked as armed or about to be stopped. -/
def timerCovered (w : World) : Bool :=
  !w.mem.timerPending || w.mem.valveTimerArmed || anyCall ValveCall.stops w.past

theorem timerCovered_iff {w : World} : timerCovered w ↔ w.settleView.Covered := by
  rw [SettleView.Covered, World.any_settleView rfl]
  cases hpending : w.mem.timerPending <;>
    simp [timerCovered, World.settleView, hpending]

/-- The order of the protocol: a request raises the flag only when no emergency stop is cancelling
and no callback is under way, an emergency stop begins to cancel only when no request is between
raising the flag and starting the timer, and a timer that runs uncovered is neither left by the
request that created it nor met by an emergency stop. -/
def settleOrder : Guard device where
  allows t _ a _ w :=
    match a with
    | .casValveIsSettling =>
      w.mem.valveIsSettling || (timerPhase w.past = .idle && !anyCall ValveCall.cancels w.past)
    | .exchangeTimerArmed false => !anyCall ValveCall.arming w.past && timerCovered w
    | .respond _ => !(valveCall t w.past).fresh || timerCovered w
    | _ => true
  allowsEnv _ _ := true

/-- The view after an action of a call. -/
theorem CallStep.settleView {w : World} {t : Tid} {β : Type} {a : Act β} {e : Input} {q : ValveCall}
    (h : CallStep w t a e q) (hcreated : w.mem.timerPending → w.mem.timerArg.isSome) :
    (w.did t a e).settleView =
      { settling := ((Event.did t a (a.run e w.mem).1 w.mem).setsSettling).getD w.mem.valveIsSettling
        armed := ((Event.did t a (a.run e w.mem).1 w.mem).setsArmed).getD w.mem.valveTimerArmed
        pending := ((Event.did t a (a.run e w.mem).1 w.mem).setsPending).getD w.mem.timerPending
        created := ((Event.did t a (a.run e w.mem).1 w.mem).setsCreated).getD w.mem.timerArg.isSome
        callback := timerPhase w.past
        call := Function.update w.settleView.call t q } := by
  have hcall : (w.did t a e).settleView.call = Function.update w.settleView.call t q := by
    funext s
    by_cases hs : s = t
    · subst hs
      simp only [World.settleView, h.notTimer, if_false, h.self, Function.update_self]
    · simp only [World.settleView, h.other s hs, Function.update_of_ne hs]
  rw [← Act.settling_after, ← Act.armed_after, ← Act.timerPending_after t a e w.mem hcreated,
    ← Act.created_after, ← hcall, ← h.timer]
  rfl

/-- A neutral action is not seen. -/
theorem Event.sets_of_valveNeutral {β : Type} {a : Act β} (ha : a.valveNeutral) (t : Tid) (b : β)
    (m : Mem) :
    (Event.did t a b m).setsSettling = none ∧ (Event.did t a b m).setsArmed = none ∧
      (Event.did t a b m).setsPending = none ∧ (Event.did t a b m).setsCreated = none := by
  induction a with
  | store v x => induction v <;> first | exact ⟨rfl, rfl, rfl, rfl⟩ | cases ha
  | _ => first | exact ⟨rfl, rfl, rfl, rfl⟩ | cases ha

/-- A call that the order admits is left by a failed check of the platform or takes a step of the
protocol. -/
theorem CallStep.takes {w : World} {t : Tid} {β : Type} {a : Act β} {e : Input} {q : ValveCall}
    (h : CallStep w t a e q) (hC : settleOrder.allows t a e w) (hgood : w.settleView.Good) :
    q = .dead ∨ SettleView.CallTakes w.settleView t (w.did t a e).settleView ∨
      (w.did t a e).settleView = w.settleView := by
  have hcall : w.settleView.call t = valveCall t w.past := by
    simp [World.settleView, h.notTimer]
  have hview := h.settleView fun hp => hgood.created (.inr hp)
  rcases h.move with ⟨ha, hq⟩ | hmove
  · refine .inr (.inr ?_)
    obtain ⟨h1, h2, h3, h4⟩ := Event.sets_of_valveNeutral ha t (a.run e w.mem).1 w.mem
    rw [hview, h1, h2, h3, h4, hq, ← hcall, Function.update_eq_self]
    rfl
  · rw [hview]
    rw [← hcall] at hmove
    generalize hp : w.settleView.call t = p at hmove
    generalize hb : (a.run e w.mem).1 = b at hmove
    have hleave : ∀ q : ValveCall, ((p.calm ∨ ∃ first, p = .started first) ∧ q.calm) →
        (p.fresh → timerCovered w) → SettleView.CallTakes w.settleView t
          { w.settleView with call := Function.update w.settleView.call t q } := by
      intro q hpq hcovered
      subst hp
      exact .leave hpq.1 hpq.2 fun hf => timerCovered_iff.mp (hcovered hf)
    induction hmove with
    | readSettling hcalm | readState hcalm =>
      refine .inr (.inl (hleave _ ⟨.inl hcalm, ?_⟩ ?_))
      · split <;> rfl
      · simp [(ValveCall.none_of_calm hcalm).2.2.2.2.2]
    | readStateToo | claim | casError | acquireFails =>
      exact .inr (.inl (hleave _ ⟨.inl rfl, rfl⟩ nofun))
    | receive hcalm =>
      refine .inr (.inl (hleave _ ⟨.inl hcalm, rfl⟩ ?_))
      simp [(ValveCall.none_of_calm hcalm).2.2.2.2.2]
    | respond hanswers =>
      refine .inr (.inl (hleave _ ⟨ValveCall.calm_or_started hanswers, rfl⟩ ?_))
      intro hfresh
      have hC : (!(valveCall t w.past).fresh || timerCovered w) = true := hC
      simpa [← hcall, hp, hfresh] using hC
    | abort => exact .inl rfl
    | acquire =>
      have hsettling : w.mem.valveIsSettling = false := by
        by_contra hs
        rw [Bool.not_eq_false] at hs
        simp [Act.run, hs] at hb
      have hC : (w.mem.valveIsSettling ||
          (timerPhase w.past = .idle && !anyCall ValveCall.cancels w.past)) = true := hC
      simp only [hsettling, Bool.false_or, Bool.and_eq_true, decide_eq_true_eq,
        Bool.not_eq_true'] at hC
      refine .inr (.inl (.acquire hp hsettling hC.1 ?_))
      rw [World.any_settleView rfl, hC.2]
      exact Bool.false_ne_true
    | found => exact .inr (.inl (.found hp hb))
    | missed => exact .inr (.inl (.missed hp))
    | cancelFound => exact .inr (.inl (.cancelFound hp hb))
    | cancelMissed => exact .inr (.inl (.cancelMissed hp hb))
    | rearm =>
      subst hb
      exact .inr (.inl (.rearm hp))
    | create => exact .inr (.inl (.create hp))
    | @createFails arg err herr =>
      have hsets : (Event.did t (.espTimerCreate arg) err w.mem).setsCreated = none := by
        cases err <;> first | rfl | exact absurd rfl herr
      rw [hsets]
      exact .inr (.inl (.createFails hp))
    | cancel hcalm =>
      have hC : (!anyCall ValveCall.arming w.past && timerCovered w) = true := hC
      rw [Bool.and_eq_true, Bool.not_eq_true'] at hC
      subst hb hp
      refine .inr (.inl (.cancel hcalm ?_ (timerCovered_iff.mp hC.2)))
      rw [World.any_settleView rfl, hC.1]
      exact Bool.false_ne_true
    | stop herr hs =>
      rcases hs with ⟨rfl, rfl⟩ | ⟨rfl, rfl⟩
      · exact .inr (.inl (.stopArmed hp))
      · exact .inr (.inl (.stop hp))
    | stopFails herr =>
      have hanswer : (Act.espTimerStop.run e w.mem).1 = .ok ∨
          (Act.espTimerStop.run e w.mem).1 = .invalidState := by
        simp only [Act.run]
        split
        · exact .inl rfl
        · exact .inr rfl
      rw [hb] at hanswer
      exact absurd hanswer (not_or.mpr herr)
    | start hs =>
      refine .inr (.inl (.start ?_))
      rw [hp]
      exact hs
    | startFails herr hs =>
      have harming : w.settleView.Any ValveCall.arming := by
        refine ⟨t, ?_⟩
        rw [hp]
        rcases hs with rfl | rfl <;> rfl
      have hpending : w.mem.timerPending = false := (hgood.arming harming).2.1
      simp [Act.run, hpending] at hb
      exact absurd hb.symm herr
    | lower => exact .inr (.inl (.lower hp))

theorem TimerStep.takes {w : World} {β : Type} {a : Act β} {e : Input} {q : TimerPhase}
    (h : TimerStep w a e q) (hcreated : w.mem.timerPending → w.mem.timerArg.isSome) :
    SettleView.TimerTakes w.settleView (w.did .timer a e).settleView := by
  obtain ⟨-, hmove, htimer, hcall⟩ := h
  have hview : (w.did .timer a e).settleView =
      { settling :=
          ((Event.did .timer a (a.run e w.mem).1 w.mem).setsSettling).getD w.mem.valveIsSettling
        armed := ((Event.did .timer a (a.run e w.mem).1 w.mem).setsArmed).getD w.mem.valveTimerArmed
        pending := ((Event.did .timer a (a.run e w.mem).1 w.mem).setsPending).getD w.mem.timerPending
        created :=
          ((Event.did .timer a (a.run e w.mem).1 w.mem).setsCreated).getD w.mem.timerArg.isSome
        callback := q
        call := w.settleView.call } := by
    have hsame : (w.did .timer a e).settleView.call = w.settleView.call := by
      funext s
      by_cases hs : s = .timer
      · simp only [World.settleView, hs, if_true]
      · simp only [World.settleView, hs, if_false, hcall s hs]
    rw [← Act.settling_after, ← Act.armed_after, ← Act.timerPending_after .timer a e w.mem hcreated,
      ← Act.created_after, ← hsame, ← htimer]
    rfl
  rw [hview]
  generalize hp : timerPhase w.past = p at hmove
  generalize hb : (a.run e w.mem).1 = b at hmove
  induction hmove with
  | wait =>
    have hsame : w.settleView = { w.settleView with callback := .idle } := by
      simp only [World.settleView, hp]
    rw [hsame]
    exact .wait
  | expire =>
    have hpending : w.mem.timerPending := by
      by_contra hpending
      simp [Act.run, hpending] at hb
    exact .expire hpending
  | announce => exact .announce hp
  | clear => exact .clear hp
  | disarm => exact .disarm hp

/-- What a step of a call can do to the timer and to the flag. -/
theorem ValveMove.event {p q : ValveCall} {β : Type} {a : Act β} {b : β}
    (h : a.valveNeutral ∧ q = p ∨ ValveMove a b p q) (t : Tid) (m : Mem) :
    ((Event.did t a b m).startsTimer → p.arming) ∧
      (∀ s, (Event.did t a b m).lowersSettling = some s → s = t ∧ p = .cancelled) ∧
      (Event.did t a b m).expiresTimer = false := by
  rcases h with ⟨ha, -⟩ | hmove
  · induction a with
    | store v x =>
      induction v with
      | valveIsSettling | valveTimerArmed => cases ha
      | _ => exact ⟨nofun, fun _ hs => (by cases hs), rfl⟩
    | espTimerStartOnce | espTimerExpired => cases ha
    | _ => exact ⟨nofun, fun _ hs => (by cases hs), rfl⟩
  · induction hmove with
    | start hp =>
      refine ⟨fun _ => ?_, fun _ hs => (by cases hs), rfl⟩
      rcases hp with ⟨rfl, -⟩ | ⟨rfl, -⟩ <;> rfl
    | startFails _ hp =>
      refine ⟨fun _ => ?_, fun _ hs => (by cases hs), rfl⟩
      rcases hp with rfl | rfl <;> rfl
    | lower => exact ⟨nofun, fun s hs => ⟨(Option.some.inj hs).symm, rfl⟩, rfl⟩
    | _ => exact ⟨nofun, fun _ hs => (by cases hs), rfl⟩

structure SettleInvariant (w : World) : Prop where
  safe : TimerSafe w.past
  good : (∀ t, t ≠ .timer → valveCall t w.past ≠ .dead) → w.settleView.Good
  fresh : timerPhase w.past ≠ .idle → acquiredSinceExpiry w.past = false

namespace SettleInvariant
variable {w : World}

theorem call {t : Tid} {β : Type} {a : Act β} {e : Input} {q : ValveCall} (hI : SettleInvariant w)
    (hC : settleOrder.allows t a e w) (hs : CallStep w t a e q) :
    SettleInvariant (w.did t a e) := by
  have hgood := hI.good hs.alive
  have hcall : w.settleView.call t = valveCall t w.past := by
    simp only [World.settleView, hs.notTimer, if_false]
  obtain ⟨hstarts, hlowers, hexpires⟩ := ValveMove.event hs.move t w.mem
  refine ⟨⟨⟨?_, ?_, ?_⟩, hI.safe⟩, ?_, ?_⟩
  · intro hev
    have harming : w.settleView.Any ValveCall.arming := ⟨t, hcall ▸ hstarts hev⟩
    exact (hgood.arming harming).2.1
  · intro s _ hev hpending
    have hcancelled : w.settleView.Any ValveCall.cancels := by
      refine ⟨t, ?_⟩
      rw [hcall, (hlowers s hev).2]
      rfl
    exact (World.any_settleView rfl).mp ((hgood.cancels hcancelled).2 hpending)
  · intro hev
    exact absurd (hlowers .timer hev).1.symm hs.notTimer
  · intro halive
    rcases hs.takes hC hgood with hdead | htakes | hsame
    · exact absurd (hs.self.trans hdead) (halive t hs.notTimer)
    · exact hgood.call htakes
    · rw [hsame]
      exact hgood
  · rw [hs.timer]
    intro hcallback
    have hacquires : (Event.did t a (a.run e w.mem).1 w.mem).acquiresValve = none := by
      induction a with
      | casValveIsSettling =>
        have hC : (w.mem.valveIsSettling ||
            (timerPhase w.past = .idle && !anyCall ValveCall.cancels w.past)) = true := hC
        have hsettling : w.mem.valveIsSettling = true := by simpa [hcallback] using hC
        simp [Act.run, hsettling, Event.acquiresValve]
      | _ => rfl
    simp [acquiredSinceExpiry, hacquires, hI.fresh hcallback]

theorem timer {β : Type} {a : Act β} {e : Input} {q : TimerPhase} (hI : SettleInvariant w)
    (hs : TimerStep w a e q) : SettleInvariant (w.did .timer a e) := by
  have hgood := hI.good hs.alive
  have hafter := hgood.timer (hs.takes fun hp => hgood.created (.inr hp))
  have hfresh := hI.fresh
  have hmove := hs.move
  have hq := hs.timer
  generalize hp : timerPhase w.past = p at hmove hfresh
  generalize hb : (a.run e w.mem).1 = b at hmove
  refine ⟨⟨?_, hI.safe⟩, fun _ => hafter, ?_⟩
  · rw [hb]
    induction hmove with
    | clear => exact ⟨nofun, fun t ht h => absurd (Option.some.inj h).symm ht, fun _ => hfresh nofun⟩
    | _ => exact ⟨nofun, nofun, nofun⟩
  · rw [hq, World.did_past, hb]
    intro hcallback
    induction hmove with
    | wait | disarm => exact absurd rfl hcallback
    | expire => rfl
    | announce | clear => exact hfresh nofun

end SettleInvariant

theorem Boot.settleView_good (b : Boot) : b.world.settleView.Good := by
  have hoff : b.world.settleView.pending = false ∧ b.world.settleView.armed = false ∧
      b.world.settleView.callback = .idle := ⟨rfl, rfl, rfl⟩
  obtain ⟨hpending, harmed, hidle⟩ := hoff
  have hnone : ∀ f : ValveCall → Bool, f .outside = false → ¬ b.world.settleView.Any f := by
    intro f hf
    rw [World.any_settleView hf]
    simp [anyCall, Boot.world, hf]
  constructor
  case alone =>
    intro s t hs
    exact absurd ⟨s, hs⟩ (hnone ValveCall.arming rfl)
  all_goals
    simp [hpending, harmed, hidle, hnone ValveCall.cancels rfl, hnone ValveCall.arming rfl,
      hnone ValveCall.rearms rfl, hnone ValveCall.knows rfl]

/-- In a run in which the parties keep the order of the protocol, the timer runs at rest exactly if
it is marked as armed, is never started twice and never lowers the flag of a later request. -/
theorem settlesProperly_of_settleOrder {b : Boot} {c : Config Act Tid World}
    (h : Steps settleOrder.assumption b.config c) : SettlesProperly c.shared := by
  have hI : SettleInvariant c.shared := by
    refine valve_invariant h ⟨trivial, fun _ => b.settleView_good, fun h => absurd rfl h⟩ ?_ ?_ ?_
    · intro w t β a e q hI hC hs
      exact hI.call hC hs
    · intro w β a e q hI _ hs
      exact hI.timer hs
    · intro w h m hI _ hm
      obtain ⟨hsettling, harmed, hpending, harg⟩ := Happening.run_valve hm
      have hsame : World.settleView ⟨m, .happened h w.mem :: w.past⟩ = w.settleView := by
        simp only [World.settleView, hsettling, harmed, hpending, harg]
        rfl
      refine ⟨⟨⟨nofun, fun _ _ h => (by cases h), nofun⟩, hI.safe⟩, ?_, hI.fresh⟩
      rw [hsame]
      exact hI.good
  refine ⟨fun hrest => (hI.good ?_).consistent hrest, hI.safe⟩
  intro t ht hdead
  have hcalm := hrest.2 t
  simp [World.settleView, ht, hdead, ValveCall.calm] at hcalm

/-- The timer of the first request runs out before the request returns; a second one follows. -/
def Script.secondPosition : Script :=
  boot ++ turns .http 1 ++ request .http { type := .valveSetPosition, valvePos := some .output } 7 ++
    turns .timer 1 ++ [.thread .timer (.value 0)] ++ turns .timer 3 ++ turns .http 4 ++
    request .http { type := .valveSetPosition, valvePos := some .input } 8

theorem settles_after_secondPosition : ∃ c, Steps settleOrder.assumption (Boot.config {}) c ∧
    c.shared.mem.timerPending = true ∧ SettlesProperly c.shared := by
  have hrun : (device.run settleOrder Script.secondPosition (Boot.config {})).any
      (fun c => c.shared.mem.timerPending) = true := rfl
  obtain ⟨c, hsteps, hc⟩ := Machine.exists_of_run hrun
  exact ⟨c, hsteps, hc, settlesProperly_of_settleOrder hsteps⟩

/-- The first request returns while its timer runs. -/
def Script.firstPosition : Script :=
  boot ++ turns .http 1 ++ request .http { type := .valveSetPosition, valvePos := some .output } 8

/-- At rest the timer runs and is not marked as armed. -/
theorem firstPosition_uncovered : ∃ c, Reachable {} c ∧ ¬ SettlesProperly c.shared := by
  have hrun : (device.run (Guard.any device) Script.firstPosition (Boot.config {})).any
      (fun c => timerPhase c.shared.past = .idle && !anyCall (fun p => !p.calm) c.shared.past &&
        c.shared.mem.timerPending && !c.shared.mem.valveTimerArmed) = true := rfl
  obtain ⟨c, hsteps, hc⟩ := Machine.exists_of_run hrun
  simp only [Bool.and_eq_true, decide_eq_true_eq, Bool.not_eq_true'] at hc
  obtain ⟨⟨⟨hidle, hcalm⟩, hpending⟩, harmed⟩ := hc
  refine ⟨c, hsteps.weaken, ?_⟩
  intro h
  have hrest : c.shared.settleView.AtRest := by
    refine ⟨hidle, ?_⟩
    intro t
    by_contra ht
    have hany : c.shared.settleView.Any (fun p => !p.calm) := ⟨t, by simp [ht]⟩
    rw [World.any_settleView rfl, hcalm] at hany
    cases hany
  have heq : c.shared.mem.timerPending = c.shared.mem.valveTimerArmed := (h.1 hrest).1
  rw [hpending, harmed] at heq
  cases heq

end Ecotiter
