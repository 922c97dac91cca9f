import Ecotiter.ValveRuns

/-!
# Mutual exclusion of valve and burette requests

A burette handler reads `gValveIsSettling` before it claims the burette, `handleSetPosition` reads
the state before it raises `gValveIsSettling`. Reading and claiming are two steps: the requests
exclude each other except when the claim of one falls between the two steps of the other.
-/

namespace Ecotiter
open Interleaving

/-- The states the handlers that start an operation claim. -/
def BuretteState.operates : BuretteState → Bool
  | .filling | .emptying | .dosing | .rinsing => true
  | _ => false

namespace Event

/-- The task whose burette request claims the state with this event. -/
def claimsBurette : Event → Option Tid
  | .did t (.casBuretteState desired) true _ => if desired.operates then some t else none
  | _ => none

/-- The task whose valve request raises `gValveIsSettling` with this event. -/
def acquiresValve : Event → Option Tid
  | .did t .casValveIsSettling true _ => some t
  | _ => none

def readsSettling : Event → Option Tid
  | .did t (.load .valveIsSettling) _ _ => some t
  | _ => none

def readsState : Event → Option Tid
  | .did t (.load .buretteState) _ _ => some t
  | _ => none

end Event

/-- A burette request was accepted and the state has not been idle since. -/
def operationActive : List Event → Bool
  | [] => false
  | ev :: past => ev.claimsBurette.isSome || (operationActive past && ev.setsState ≠ some .idle)

/-- No burette request is accepted while the valve settles and no valve request while an operation
is active. -/
def Exclusive : List Event → Prop :=
  Throughout fun ev past =>
    (ev.claimsBurette.isSome → ev.before.valveIsSettling = false) ∧
      (ev.acquiresValve.isSome → operationActive past = false)

instance : DecidablePred Exclusive := decidableThroughout _

/-- A valve request was accepted since the task read `gValveIsSettling`. -/
def acquiredSinceCheck (t : Tid) : List Event → Bool
  | [] => false
  | ev :: past =>
    ev.acquiresValve.isSome || (ev.readsSettling ≠ some t && acquiredSinceCheck t past)

/-- A burette request was accepted since the task read the state. -/
def claimedSinceCheck (t : Tid) : List Event → Bool
  | [] => false
  | ev :: past => ev.claimsBurette.isSome || (ev.readsState ≠ some t && claimedSinceCheck t past)

/-- Where the requests do not exclude each other, the one that was accepted first was accepted
between the two steps of the other. -/
def ExclusiveButForRaces : List Event → Prop :=
  Throughout fun ev past =>
    (∀ t, ev.claimsBurette = some t → ev.before.valveIsSettling → acquiredSinceCheck t past) ∧
      ∀ t, ev.acquiresValve = some t → operationActive past → claimedSinceCheck t past

/-- What a neutral action is not. -/
theorem Event.of_valveNeutral {β : Type} {a : Act β} (ha : a.valveNeutral) (t : Tid) (b : β)
    (m : Mem) :
    (Event.did t a b m).claimsBurette = none ∧ (Event.did t a b m).acquiresValve = none ∧
      (Event.did t a b m).readsSettling = none ∧ (Event.did t a b m).readsState = none := by
  induction a with
  | load v => induction v <;> first | exact ⟨rfl, rfl, rfl, rfl⟩ | cases ha
  | _ => first | exact ⟨rfl, rfl, rfl, rfl⟩ | cases ha

/-- An event concerns its own task. -/
theorem Event.own (t : Tid) {β : Type} (a : Act β) (b : β) (m : Mem) :
    (∀ s, (Event.did t a b m).claimsBurette = some s → s = t) ∧
      (∀ s, (Event.did t a b m).acquiresValve = some s → s = t) ∧
      (∀ s, (Event.did t a b m).readsSettling = some s → s = t) ∧
      ∀ s, (Event.did t a b m).readsState = some s → s = t := by
  induction a with
  | load v => induction v <;> simp [claimsBurette, acquiresValve, readsSettling, readsState]
  | casBuretteState desired =>
    cases b <;> simp [claimsBurette, acquiresValve, readsSettling, readsState]
  | casValveIsSettling => cases b <;> simp [claimsBurette, acquiresValve, readsSettling, readsState]
  | _ => simp [claimsBurette, acquiresValve, readsSettling, readsState]

namespace ValveMove
variable {p q : ValveCall} {β : Type} {a : Act β} {b : β}

/-- A call that has read the flag clear has just done so or has not read it again. -/
theorem clear (h : ValveMove a b p q) (hq : q = .valveClear) :
    (p = .valveClear ∧ ∀ t m, (Event.did t a b m).readsSettling = none) ∨
      ∀ e m, (a.run e m).1 = b → (a.run e m).2.valveIsSettling = false := by
  induction h with
  | @readSettling settling =>
    refine .inr fun e m hb => ?_
    have hclear : settling = false := by grind -ring -linarith -ac
    exact hb.trans hclear
  | readStateToo => exact .inl ⟨rfl, fun _ _ => rfl⟩
  | readState | cancel => split at hq <;> cases hq
  | stop herr hp => grind -ring -linarith -ac
  | _ => cases hq

/-- A call that has read the state idle has just done so or has not read it again. -/
theorem idle (h : ValveMove a b p q) (hq : q = .stateIdle) :
    ∀ e m, (a.run e m).1 = b → (a.run e m).2.buretteState = .idle := by
  intro e m hb
  induction h with
  | @readState state =>
    have hidle : state = .idle := by grind -ring -linarith -ac
    exact hb.trans hidle
  | readSettling | cancel => split at hq <;> cases hq
  | stop herr hp => grind -ring -linarith -ac
  | _ => cases hq

/-- A burette request is accepted in a call that has read the flag clear. -/
theorem claims (h : ValveMove a b p q) {t s : Tid} {m : Mem}
    (hev : (Event.did t a b m).claimsBurette = some s) : p = .valveClear := by
  induction h with
  | claim => rfl
  | @casError ok => cases ok <;> cases hev
  | _ => cases hev

/-- A valve request is accepted in a call that has read the state idle. -/
theorem acquires (h : ValveMove a b p q) {t s : Tid} {m : Mem}
    (hev : (Event.did t a b m).acquiresValve = some s) : p = .stateIdle := by
  induction h with
  | acquire => rfl
  | _ => cases hev

end ValveMove

theorem operationActive_cons {ev : Event} {past : List Event} {m m' : Mem}
    (h : operationActive past → m.buretteState ≠ .idle)
    (hm : m'.buretteState = ev.setsState.getD m.buretteState)
    (hclaim : ∀ t, ev.claimsBurette = some t → m'.buretteState ≠ .idle) :
    operationActive (ev :: past) → m'.buretteState ≠ .idle := by
  intro hactive
  rw [operationActive, Bool.or_eq_true, Bool.and_eq_true] at hactive
  rcases hactive with hnow | ⟨hbefore, hset⟩
  · obtain ⟨t, ht⟩ := Option.isSome_iff_exists.mp hnow
    exact hclaim t ht
  · rw [hm]
    cases hsets : ev.setsState with
    | none => exact h hbefore
    | some x =>
      rw [hsets] at hset
      exact fun hx => by simp_all

theorem Event.claims_busy {t s : Tid} {β : Type} {a : Act β} {e : Input} {m : Mem}
    (h : (Event.did t a (a.run e m).1 m).claimsBurette = some s) :
    (a.run e m).2.buretteState ≠ .idle := by
  induction a with
  | casBuretteState desired =>
    cases hb : ((Act.casBuretteState desired).run e m).1 with
    | false =>
      rw [hb] at h
      cases h
    | true =>
      rw [(Act.run_cas hb).2]
      rw [hb] at h
      rintro rfl
      cases h
  | _ => cases h

theorem acquiredSinceCheck_cons {s : Tid} {ev : Event} {past : List Event} {m m' : Mem}
    (h : m.valveIsSettling → acquiredSinceCheck s past)
    (hm : m'.valveIsSettling = ev.setsSettling.getD m.valveIsSettling)
    (hraise : ev.setsSettling = some true → ev.acquiresValve.isSome)
    (hreads : ev.readsSettling ≠ some s) :
    m'.valveIsSettling → acquiredSinceCheck s (ev :: past) := by
  intro hsettling
  rw [acquiredSinceCheck, Bool.or_eq_true, Bool.and_eq_true]
  by_cases hacquires : ev.acquiresValve.isSome
  · exact .inl hacquires
  · refine .inr ⟨decide_eq_true hreads, h ?_⟩
    rw [hm] at hsettling
    cases hsets : ev.setsSettling with
    | none => rwa [hsets] at hsettling
    | some x =>
      rw [hsets, Option.getD_some] at hsettling
      rw [hsettling] at hsets
      exact absurd (hraise hsets) hacquires

theorem claimedSinceCheck_cons {s : Tid} {ev : Event} {past : List Event}
    (h : operationActive past → claimedSinceCheck s past) (hreads : ev.readsState ≠ some s) :
    operationActive (ev :: past) → claimedSinceCheck s (ev :: past) := by
  intro hactive
  rw [operationActive, Bool.or_eq_true, Bool.and_eq_true] at hactive
  rw [claimedSinceCheck, Bool.or_eq_true, Bool.and_eq_true]
  rcases hactive with hnow | ⟨hbefore, -⟩
  · exact .inl hnow
  · exact .inr ⟨decide_eq_true hreads, h hbefore⟩

/-- The flag is raised only by an accepted valve request. -/
theorem ValveMove.raises {p q : ValveCall} {β : Type} {a : Act β} {b : β}
    (h : a.valveNeutral ∧ q = p ∨ ValveMove a b p q) {t : Tid} {m : Mem}
    (hev : (Event.did t a b m).setsSettling = some true) :
    (Event.did t a b m).acquiresValve.isSome := by
  rcases h with ⟨ha, -⟩ | hmove
  · induction a with
    | store v x =>
      induction v with
      | valveIsSettling => cases ha
      | _ => cases hev
    | casValveIsSettling => cases ha
    | _ => cases hev
  · induction hmove <;> first | rfl | cases hev

structure ExclusionInvariant (w : World) : Prop where
  races : ExclusiveButForRaces w.past
  active : operationActive w.past → w.mem.buretteState ≠ .idle
  clear : ∀ t, t ≠ .timer → valveCall t w.past = .valveClear → w.mem.valveIsSettling →
    acquiredSinceCheck t w.past
  idle : ∀ t, t ≠ .timer → valveCall t w.past = .stateIdle → operationActive w.past →
    claimedSinceCheck t w.past

namespace ExclusionInvariant
variable {w : World}

theorem call {t : Tid} {β : Type} {a : Act β} {e : Input} {q : ValveCall}
    (hI : ExclusionInvariant w) (hs : CallStep w t a e q) : ExclusionInvariant (w.did t a e) := by
  obtain ⟨ht, -, hmove, hself, hother, -⟩ := hs
  obtain ⟨hownClaims, hownAcquires, hownSettling, hownState⟩ :=
    Event.own t a (a.run e w.mem).1 w.mem
  have hactive : operationActive (w.did t a e).past → (w.did t a e).mem.buretteState ≠ .idle :=
    operationActive_cons hI.active (Act.state_after t a e w.mem) fun s hs => Event.claims_busy hs
  refine ⟨⟨⟨?_, ?_⟩, hI.races⟩, hactive, ?_, ?_⟩
  · intro s hclaims hsettling
    have hst := hownClaims s hclaims
    subst hst
    rcases hmove with ⟨ha, -⟩ | hmove
    · rw [(Event.of_valveNeutral ha s _ w.mem).1] at hclaims
      cases hclaims
    · exact hI.clear s ht (hmove.claims hclaims) hsettling
  · intro s hacquires hbusy
    have hst := hownAcquires s hacquires
    subst hst
    rcases hmove with ⟨ha, -⟩ | hmove
    · rw [(Event.of_valveNeutral ha s _ w.mem).2.1] at hacquires
      cases hacquires
    · exact hI.idle s ht (hmove.acquires hacquires) hbusy
  · intro s hs hcall
    have hkeep : valveCall s w.past = .valveClear →
        (Event.did t a (a.run e w.mem).1 w.mem).readsSettling ≠ some s →
        (w.did t a e).mem.valveIsSettling → acquiredSinceCheck s (w.did t a e).past :=
      fun hcall => acquiredSinceCheck_cons (hI.clear s hs hcall) (Act.settling_after t a e w.mem)
        (ValveMove.raises hmove)
    by_cases hst : s = t
    · subst hst
      have hq : q = .valveClear := hself.symm.trans hcall
      rcases hmove with ⟨ha, hp⟩ | hmove
      · have hreads := (Event.of_valveNeutral ha s (a.run e w.mem).1 w.mem).2.2.1
        exact hkeep (hp.symm.trans hq) (by simp [hreads])
      · rcases hmove.clear hq with ⟨hp, hreads⟩ | hclear
        · exact hkeep hp (by simp [hreads])
        · intro hsettling
          rw [World.did_mem, hclear e w.mem rfl] at hsettling
          cases hsettling
    · have hreads : (Event.did t a (a.run e w.mem).1 w.mem).readsSettling ≠ some s :=
        fun h => hst (hownSettling s h)
      rw [hother s hst] at hcall
      exact hkeep hcall hreads
  · intro s hs hcall
    by_cases hst : s = t
    · subst hst
      have hq : q = .stateIdle := hself.symm.trans hcall
      rcases hmove with ⟨ha, hp⟩ | hmove
      · have hreads := (Event.of_valveNeutral ha s (a.run e w.mem).1 w.mem).2.2.2
        exact claimedSinceCheck_cons (hI.idle s hs (hp.symm.trans hq)) (by simp [hreads])
      · intro hbusy
        exact absurd (hmove.idle hq e w.mem rfl) (hactive hbusy)
    · have hreads : (Event.did t a (a.run e w.mem).1 w.mem).readsState ≠ some s :=
        fun h => hst (hownState s h)
      rw [hother s hst] at hcall
      exact claimedSinceCheck_cons (hI.idle s hs hcall) hreads

/-- A step with no request in it that raises nothing and writes no state keeps the invariant. -/
theorem other {w' : World} {ev : Event} (hI : ExclusionInvariant w) (hpast : w'.past = ev :: w.past)
    (hclaims : ev.claimsBurette = none) (hacquires : ev.acquiresValve = none)
    (hreads : ev.readsSettling = none ∧ ev.readsState = none)
    (hstate : w'.mem.buretteState = ev.setsState.getD w.mem.buretteState)
    (hsettling : w'.mem.valveIsSettling → w.mem.valveIsSettling)
    (hcall : ∀ s, s ≠ .timer → valveCall s w'.past = valveCall s w.past) :
    ExclusionInvariant w' := by
  refine ⟨?_, ?_, ?_, ?_⟩
  · rw [hpast]
    refine ⟨⟨?_, ?_⟩, hI.races⟩
    · intro s hs
      rw [hclaims] at hs
      cases hs
    · intro s hs
      rw [hacquires] at hs
      cases hs
  · rw [hpast]
    refine operationActive_cons hI.active hstate ?_
    intro s hs
    rw [hclaims] at hs
    cases hs
  · intro s hs hclear hsets
    rw [hcall s hs] at hclear
    rw [hpast, acquiredSinceCheck, hreads.1]
    simp [hI.clear s hs hclear (hsettling hsets)]
  · intro s hs hidle
    rw [hcall s hs] at hidle
    rw [hpast]
    exact claimedSinceCheck_cons (hI.idle s hs hidle) (by simp [hreads.2])

theorem timer {β : Type} {a : Act β} {e : Input} {q : TimerPhase} (hI : ExclusionInvariant w)
    (hs : TimerStep w a e q) : ExclusionInvariant (w.did .timer a e) := by
  obtain ⟨-, hmove, -, hcall⟩ := hs
  have hstate := Act.state_after .timer a e w.mem
  have hsettling := Act.settling_after .timer a e w.mem
  generalize timerPhase w.past = p at hmove
  generalize hb : (a.run e w.mem).1 = b at hmove
  induction hmove with
  | clear => exact hI.other rfl rfl rfl ⟨rfl, rfl⟩ hstate nofun hcall
  | _ =>
    refine hI.other rfl rfl rfl ⟨rfl, rfl⟩ hstate ?_ hcall
    intro h
    rwa [World.did_mem, hsettling] at h

end ExclusionInvariant

/-- A fill is requested and accepted on the serial line while a valve request of the HTTP client,
which has read the state idle, goes on to be accepted. -/
def Script.valveDuringFill : Script :=
  boot ++ turns .http 2 ++
    request .http { type := .valveSetPosition, valvePos := some .output } 1 ++
    turns .main 2 ++ request .main { type := .fill } 10 ++ turns .http 7

end Ecotiter
