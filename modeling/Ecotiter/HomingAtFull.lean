import Ecotiter.HomingEnds

/-!
# Homing at the FULL switch

A homing that reads its flag as set has met the FULL switch, unless an emergency stop was requested
meanwhile. A homing that runs out of time leaves the position alone and returns to idle; one in which
the driver fails does neither.
-/

namespace Ecotiter
open Interleaving

def Event.beginsHoming : Event → Bool
  | .did .motor (.store .buretteState .homing) _ _ => true
  | _ => false

def Event.isFullInterrupt : Event → Bool
  | .happened (.interrupt .full) _ => true
  | _ => false

/-- The request for an emergency stop raises the flag that homing polls. -/
def Event.raisesFull : Event → Bool
  | .did t (.storeStop .stopFull true) _ _ => t.isClient
  | _ => false

/-- Some event of this kind has happened since the current homing began. -/
def sinceHoming (p : Event → Bool) : List Event → Bool
  | [] => false
  | ev :: past => !ev.beginsHoming && (p ev || sinceHoming p past)

def Event.resetsPosition : Event → Bool
  | .did .motor (.positionStore _) _ _ => true
  | _ => false

def Event.restoresIdle : Event → Bool
  | .did .motor (.store .buretteState .idle) _ _ => true
  | _ => false

/-- The FULL switch is met, or an emergency stop requested, since the current homing began. -/
def flagRaised (past : List Event) : Bool :=
  sinceHoming Event.isFullInterrupt past || sinceHoming Event.raisesFull past

/-- The position is reset, and idle is written by a homing, only after the FULL switch was met. -/
def HomesOnlyAtFull : List Event → Prop :=
  Throughout fun ev past =>
    ev.resetsPosition ∨ ev.restoresIdle ∧ homing past ≠ .outside →
      sinceHoming Event.isFullInterrupt past

instance : DecidablePred HomesOnlyAtFull := decidableThroughout _

/-- The position is reset only by a homing that has read its flag as set, the flag having been
raised since the homing began. A homing writes idle only if it has read the flag as set or its time
is over. -/
def HomesAtFull : List Event → Prop :=
  Throughout fun ev past =>
    (ev.resetsPosition → homing past = .found ∧ flagRaised past) ∧
      (ev.restoresIdle → homing past = .outside ∨ homing past = .found ∨ homing past = .timedOut)

/-- The flag is lowered and the switch not yet met. -/
def HomingPhase.looks : HomingPhase → Bool
  | .cleared | .searching _ _ => true
  | _ => false

section Steps
variable {β : Type} {a : Act β} {b : β} {p q : HomingPhase}

theorem HomingPhase.onClock_looks {now : ℕ} (hq : (p.onClock now).looks) : p.looks := by
  cases p <;> first | rfl | cases hq

theorem HomingPhase.onDriver_looks {o' : Outcome → Outcome} (hq : (p.onDriver o').looks) :
    p.looks := by
  cases p <;> first | rfl | cases hq

theorem HomingPhase.found_of_onDriver {o' : Outcome → Outcome} (h : p.onDriver o' = .found) :
    p = .found := by
  cases p with
  | found => rfl
  | searching start o =>
    rw [HomingPhase.onDriver] at h
    split at h <;> cases h
  | _ => cases h

/-- While the switch is searched for the flag is left alone, once it has been lowered. -/
theorem HomingPhase.looks_next (h : p.next a b = some q) (hq : q.looks) :
    (⟨β, a⟩ : Σ β, Act β) = ⟨_, .storeStop .stopFull false⟩ ∨
      p.looks ∧ a.writes (.flag .stopFull) = false := by
  induction a with
  | store v x =>
    right
    induction v with
    | buretteState =>
      have hnext : p.onStoreState x = some q := h
      refine ⟨?_, rfl⟩
      cases p <;> cases x <;> first | rfl | cases hnext <;> cases hq
    | _ =>
      obtain rfl : p = q := Option.some.inj h
      exact ⟨hq, rfl⟩
  | storeStop flag up =>
    have hnext : p.onStoreStop flag up = some q := h
    cases up with
    | true => cases p <;> cases hnext; cases hq
    | false =>
      cases flag with
      | stopFull => exact .inl rfl
      | stopEmpty =>
        right
        refine ⟨?_, rfl⟩
        cases p <;> cases hnext <;> first | rfl | cases hq
  | xTaskGetTickCount =>
    cases h
    exact .inr ⟨HomingPhase.onClock_looks hq, rfl⟩
  | poll site flag =>
    right
    have hnext : p.onPoll site flag b = some q := h
    refine ⟨?_, rfl⟩
    cases p <;> first | rfl | (cases hnext; cases hq)
  | rmtTransmit symbols =>
    cases h
    exact .inr ⟨HomingPhase.onDriver_looks hq, rfl⟩
  | rmtTxWaitAllDone ms =>
    cases h
    exact .inr ⟨HomingPhase.onDriver_looks hq, rfl⟩
  | positionStore n =>
    have hnext : p.onReset = some q := h
    cases p <;> cases hnext
    cases hq
  | xQueueReceive =>
    cases b with
    | some cmd =>
      cases h
      cases hq
    | none =>
      cases h
      exact .inr ⟨hq, rfl⟩
  | gpioSetLevel pin level =>
    cases h
    exact .inr ⟨hq, by cases pin <;> rfl⟩
  | _ =>
    obtain rfl : p = q := Option.some.inj h
    exact .inr ⟨hq, rfl⟩

/-- The flag has been read as set. -/
theorem HomingPhase.found_next (h : p.next a b = some .found) :
    p = .found ∨
      p.looks ∧ ∃ site, (⟨β, a, b⟩ : Σ β, Act β × β) = ⟨_, .poll site .stopFull, true⟩ := by
  induction a with
  | store v x =>
    left
    induction v with
    | buretteState =>
      have hnext : p.onStoreState x = some .found := h
      cases p <;> cases x <;> first | rfl | cases hnext
    | _ => exact Option.some.inj h
  | storeStop flag up =>
    left
    have hnext : p.onStoreStop flag up = some .found := h
    cases p <;> cases up <;> cases flag <;> first | rfl | cases hnext
  | xTaskGetTickCount =>
    left
    have hnext : p.onClock b = .found := Option.some.inj h
    cases p with
    | found => rfl
    | searching start o =>
      rw [HomingPhase.onClock] at hnext
      split at hnext <;> cases hnext
    | _ => cases hnext
  | poll site flag =>
    have hnext : p.onPoll site flag b = some .found := h
    cases p with
    | found => exact .inl rfl
    | searching start o =>
      right
      rw [HomingPhase.onPoll] at hnext
      split at hnext
      case isTrue hflag =>
        cases b with
        | true => exact ⟨rfl, site, by rw [hflag]⟩
        | false => cases hnext
      case isFalse => cases hnext
    | _ => cases hnext
  | rmtTransmit symbols => exact .inl (HomingPhase.found_of_onDriver (Option.some.inj h))
  | rmtTxWaitAllDone ms => exact .inl (HomingPhase.found_of_onDriver (Option.some.inj h))
  | positionStore n =>
    have hnext : p.onReset = some .found := h
    cases p <;> first | exact .inl rfl | cases hnext
  | xQueueReceive =>
    cases b with
    | some cmd => cases h
    | none =>
      cases h
      exact .inl rfl
  | _ => exact .inl (Option.some.inj h)

end Steps

section Runs

theorem sinceHoming_mono {p : Event → Bool} {ev : Event} {past : List Event}
    (hev : ev.beginsHoming = false) (h : sinceHoming p past) : sinceHoming p (ev :: past) := by
  rw [sinceHoming, hev, h, Bool.or_true]
  rfl

theorem flagRaised_mono {ev : Event} {past : List Event} (hev : ev.beginsHoming = false)
    (h : flagRaised past) : flagRaised (ev :: past) := by
  rcases Bool.or_eq_true_iff.mp h with h | h
  · exact Bool.or_eq_true_iff.mpr (.inl (sinceHoming_mono hev h))
  · exact Bool.or_eq_true_iff.mpr (.inr (sinceHoming_mono hev h))

structure HomingInvariant (w : World) : Prop where
  atFull : HomesAtFull w.past
  looks : (homing w.past).looks → w.mem.stopFull → flagRaised w.past
  found : homing w.past = .found → flagRaised w.past

/-- Another task, and what happens at the switches. -/
theorem HomingInvariant.other {w w' : World} {ev : Event} (hI : HomingInvariant w)
    (hpast : w'.past = ev :: w.past) (hreset : ev.resetsPosition = false)
    (hidle : ev.restoresIdle = false) (hbegins : ev.beginsHoming = false)
    (hphase : homing w'.past = homing w.past)
    (hflag : w'.mem.stopFull → w.mem.stopFull ∨ flagRaised (ev :: w.past)) : HomingInvariant w' := by
  refine ⟨?_, fun hlooks hup => ?_, fun hfound => ?_⟩
  · rw [hpast]
    refine ⟨⟨fun h => ?_, fun h => ?_⟩, hI.atFull⟩
    · rw [hreset] at h
      cases h
    · rw [hidle] at h
      cases h
  · rw [hphase] at hlooks
    rw [hpast]
    rcases hflag hup with hbefore | hraised
    · exact flagRaised_mono hbegins (hI.looks hlooks hbefore)
    · exact hraised
  · rw [hphase] at hfound
    rw [hpast]
    exact flagRaised_mono hbegins (hI.found hfound)

theorem Act.beginsHoming_next {p q : HomingPhase} {β : Type} {a : Act β} {b : β} {m : Mem}
    (h : p.next a b = some q) (hbegins : (Event.did .motor a b m).beginsHoming) : q = .opened := by
  induction a with
  | store v x =>
    induction v with
    | buretteState =>
      cases x <;> first | cases hbegins; done | skip
      cases h
      rfl
    | _ => cases hbegins
  | _ => cases hbegins

theorem HomingInvariant.motor {w : World} {β : Type} {a : Act β} {e : Input} {q : MotorPhase}
    {r : HomingPhase} (hI : HomingInvariant w)
    (hs : LayerStep homingProtocol .outside w a e q r) : HomingInvariant (w.did .motor a e) := by
  have hnext : (homing w.past).next a (a.run e w.mem).1 = some r := hs.next
  have hafter : homing (w.did .motor a e).past = r := hs.after
  have hbegins : r ≠ .opened → (Event.did .motor a (a.run e w.mem).1 w.mem).beginsHoming = false := by
    intro hr
    rw [Bool.eq_false_iff]
    intro hbegins
    exact hr (Act.beginsHoming_next hnext hbegins)
  refine ⟨⟨⟨fun hreset => ?_, fun hidle => ?_⟩, hI.atFull⟩, fun hlooks hup => ?_, fun hfound => ?_⟩
  · have hfound : homing w.past = .found := by
      induction a with
      | positionStore n =>
        have hnext : (homing w.past).onReset = some r := hnext
        generalize homing w.past = p at hnext ⊢
        cases p <;> first | rfl | cases hnext
      | _ => cases hreset
    exact ⟨hfound, hI.found hfound⟩
  · induction a with
    | store v x =>
      induction v with
      | buretteState =>
        cases x <;> first | cases hidle; done | skip
        have hnext : (homing w.past).onStoreState .idle = some r := hnext
        generalize homing w.past = p at hnext ⊢
        cases p <;> first | cases hnext; done | simp
      | _ => cases hidle
    | _ => cases hidle
  · rw [hafter] at hlooks
    have hlater : (Event.did .motor a (a.run e w.mem).1 w.mem).beginsHoming = false :=
      hbegins (by rintro rfl; cases hlooks)
    rcases HomingPhase.looks_next hnext hlooks with ha | ⟨hbefore, hkeep⟩
    · cases ha
      cases hup
    · have hsame : (a.run e w.mem).2.flag .stopFull = w.mem.flag .stopFull :=
        Act.run_same hkeep e w.mem
      exact flagRaised_mono hlater (hI.looks hbefore (hsame.symm.trans hup))
  · rw [hafter] at hfound
    have hlater : (Event.did .motor a (a.run e w.mem).1 w.mem).beginsHoming = false :=
      hbegins (by rw [hfound]; exact nofun)
    rw [hfound] at hnext
    rcases HomingPhase.found_next hnext with hbefore | ⟨hbefore, site, ha⟩
    · exact flagRaised_mono hlater (hI.found hbefore)
    · have hseen : w.mem.stopFull = true := by
        generalize hb : (a.run e w.mem).1 = b at ha
        cases ha
        exact hb
      exact flagRaised_mono hlater (hI.looks hbefore hseen)

theorem Event.homing_other {t : Tid} (ht : t ≠ .motor) {β : Type} (a : Act β) (b : β) (m : Mem) :
    (Event.did t a b m).resetsPosition = false ∧ (Event.did t a b m).restoresIdle = false ∧
      (Event.did t a b m).beginsHoming = false := by
  cases t with
  | motor => exact absurd rfl ht
  | main | http | timer => exact ⟨rfl, rfl, rfl⟩

/-- A client raises the flag only to request an emergency stop. -/
theorem Act.raisesFull {t : Tid} (ht : t.isClient) {β : Type} {a : Act β} {e : Input} {m : Mem}
    (hup : (a.run e m).2.stopFull) :
    m.stopFull ∨ (Event.did t a (a.run e m).1 m).raisesFull := by
  cases hw : a.writes (.flag .stopFull) with
  | false =>
    have hsame : (a.run e m).2.flag .stopFull = m.flag .stopFull := Act.run_same hw e m
    exact .inl (hsame.symm.trans hup)
  | true =>
    induction a with
    | storeStop flag b =>
      cases flag with
      | stopEmpty => cases hw
      | stopFull =>
        have hb : b = true := hup
        rw [hb]
        exact .inr ht
    | store v x => induction v <;> cases hw
    | gpioSetLevel pin level => cases pin <;> cases hw
    | _ => cases hw

/-- Homing meets the FULL switch, or an emergency stop, before it resets the position; one that runs
out of time only returns to idle, and one that fails does not even that. -/
theorem homesAtFull {b : Boot} {c : Config Act Tid World} (h : Reachable b c) :
    HomesAtFull c.shared.past := by
  have h0 : HomingInvariant b.world := by
    have hphase : homing b.world.past = .outside := rfl
    refine ⟨trivial, fun hlooks => ?_, fun hfound => ?_⟩
    · rw [hphase] at hlooks
      cases hlooks
    · rw [hphase] at hfound
      cases hfound
  suffices hI : HomingInvariant c.shared from hI.atFull
  refine layered_invariant homes_motorTaskEntry h h0 ?_ ?_ ?_ ?_
  · intro w β a e q r hI _ hs
    exact hI.motor hs
  · intro w t β a e q hI _ ht hs hphase
    obtain ⟨hreset, hidle, hbegins⟩ :=
      Event.homing_other (Tid.ne_motor_of_isClient ht) a (a.run e w.mem).1 w.mem
    refine hI.other rfl hreset hidle hbegins hphase fun hup => ?_
    refine (Act.raisesFull ht hup).imp_right fun hraises => ?_
    rw [flagRaised, sinceHoming, sinceHoming, hbegins, hraises]
    simp
  · intro w β a e hI _ hs hphase
    obtain ⟨hreset, hidle, hbegins⟩ :=
      Event.homing_other Tid.timer_ne_motor a (a.run e w.mem).1 w.mem
    have hsame : (w.did .timer a e).mem.flag .stopFull = w.mem.flag .stopFull :=
      hs.same (.flag .stopFull)
    exact hI.other rfl hreset hidle hbegins hphase fun hup => .inl (hsame.symm.trans hup)
  · intro w h m hI _ hm
    refine hI.other rfl rfl rfl rfl rfl fun hup => ?_
    by_cases hfull : h = .interrupt .full
    · rw [hfull]
      exact .inr rfl
    · have hsame : m.flag .stopFull = w.mem.flag .stopFull := by
        cases h with
        | level s active =>
          cases hm
          cases s <;> rfl
        | interrupt s =>
          cases s with
          | full => exact absurd rfl hfull
          | empty =>
            simp only [Happening.run] at hm
            split at hm <;> cases hm
            rfl
      exact .inl (hsame.symm.trans hup)

/-- A homing that times out at once writes idle. -/
theorem boot_idleWithoutFull : ∃ c, Reachable {} c ∧ ¬ HomesOnlyAtFull c.shared.past := by
  have hrun : (device.run (Guard.any device) Script.boot (Boot.config {})).any
      (fun c => decide (¬ HomesOnlyAtFull c.shared.past)) = true := rfl
  obtain ⟨c, hsteps, hc⟩ := Machine.exists_of_run hrun
  exact ⟨c, hsteps.weaken, of_decide_eq_true hc⟩

theorem homesAtFull_in_homed :
    ∃ c, Reachable {} c ∧ c.shared.past.any Event.resetsPosition = true ∧
      HomesAtFull c.shared.past := by
  have hrun : (device.run (Guard.any device) Script.homed (Boot.config {})).any
      (fun c => c.shared.past.any Event.resetsPosition) = true := rfl
  obtain ⟨c, hsteps, hc⟩ := Machine.exists_of_run hrun
  exact ⟨c, hsteps.weaken, hc, homesAtFull hsteps.weaken⟩

end Runs
end Ecotiter
