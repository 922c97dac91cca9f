import Ecotiter.ValveConformance
import Ecotiter.ClientPhases

/-!
# The protocol of the settle timer

`gValveIsSettling`, `s_valveTimerArmed` and the one-shot timer are changed one after the other by
`handleSetPosition`, by the emergency stops and by the callback of the timer. `SettleView` is what
these parties see, `CallTakes` and `TimerTakes` are their steps when they stay out of each other's
sections, and `Good` is what these steps preserve. At rest it says that the timer runs exactly if it
is marked as armed.
-/

namespace Ecotiter
open Interleaving

namespace ValveCall

/-- The flag is raised and the timer is not started yet. -/
def arming : ValveCall → Bool
  | .acquired | .existing | .missing | .rearming _ | .created | .failing => true
  | _ => false

/-- An emergency stop is about to stop the timer. -/
def stops : ValveCall → Bool
  | .cancelling | .stopping => true
  | _ => false

/-- An emergency stop has lowered `s_valveTimerArmed` and not yet `gValveIsSettling`. -/
def cancels : ValveCall → Bool
  | .cancelling | .stopping | .cancelled => true
  | _ => false

/-- The timer was created and started by this call. -/
def fresh : ValveCall → Bool
  | .started true => true
  | _ => false

/-- The timer is marked as armed and may have to be stopped. -/
def rearms : ValveCall → Bool
  | .rearming _ => true
  | _ => false

/-- The phases in which the timer is known to exist. -/
def knows : ValveCall → Bool
  | .existing | .rearming _ | .created | .started _ | .stopping => true
  | _ => false

theorem calm_or_started {p : ValveCall} (hp : p.answers) :
    p.calm ∨ ∃ first, p = .started first := by
  cases p with
  | started first => exact .inr ⟨first, rfl⟩
  | _ => first | exact .inl rfl | cases hp

theorem cancels_of_stops {p : ValveCall} (hp : p.stops) : p.cancels := by
  cases p <;> first | rfl | cases hp

theorem arming_of_rearms {p : ValveCall} (hp : p.rearms) : p.arming := by
  cases p <;> first | rfl | cases hp

theorem none_of_calm {p : ValveCall} (hp : p.calm) :
    p.arming = false ∧ p.stops = false ∧ p.cancels = false ∧ p.rearms = false ∧ p.knows = false ∧
      p.fresh = false := by
  cases p <;> first | exact ⟨rfl, rfl, rfl, rfl, rfl, rfl⟩ | cases hp

end ValveCall

structure SettleView where
  settling : Bool
  armed : Bool
  pending : Bool
  created : Bool
  callback : TimerPhase
  call : Tid → ValveCall

namespace SettleView

/-- Some call is in one of these phases. -/
def Any (v : SettleView) (f : ValveCall → Bool) : Prop := ∃ t, f (v.call t)

structure Good (v : SettleView) : Prop where
  pendingArmed : v.pending → v.armed ∨ v.Any ValveCall.stops ∨ v.Any ValveCall.fresh
  armedPending : v.armed → v.pending ∨ v.callback ≠ .idle ∨ v.Any ValveCall.arming
  pendingSettling : v.pending → v.settling ∨ v.Any ValveCall.cancels
  cancels : v.Any ValveCall.cancels → v.armed = false ∧ (v.pending → v.Any ValveCall.stops)
  callback : v.callback ≠ .idle → v.pending = false
  arming : v.Any ValveCall.arming → v.settling ∧ v.pending = false ∧ v.callback = .idle ∧
    ¬ v.Any ValveCall.cancels
  alone : ∀ s t, (v.call s).arming → (v.call t).arming → s = t
  rearming : v.Any ValveCall.rearms → v.armed
  created : v.armed ∨ v.pending → v.created
  knows : v.Any ValveCall.knows → v.created

/-- No party is in the middle of a call. -/
def AtRest (v : SettleView) : Prop := v.callback = .idle ∧ ∀ t, (v.call t).calm

/-- The timer runs exactly if it is marked as armed, and then the valve counts as settling. -/
def Consistent (v : SettleView) : Prop := v.pending = v.armed ∧ (v.pending → v.settling)

theorem Good.consistent {v : SettleView} (h : v.Good) (hrest : v.AtRest) : v.Consistent := by
  obtain ⟨hidle, hcalm⟩ := hrest
  have hnone : ∀ f : ValveCall → Bool, (∀ p, p.calm → f p = false) → ¬ v.Any f := by
    rintro f hf ⟨t, ht⟩
    rw [hf _ (hcalm t)] at ht
    cases ht
  have hstops : ¬ v.Any ValveCall.stops := hnone _ fun p hp => by cases p <;> first | rfl | cases hp
  have hfirst : ¬ v.Any ValveCall.fresh :=
    hnone _ fun p hp => by cases p <;> first | rfl | cases hp
  have hcancels : ¬ v.Any ValveCall.cancels :=
    hnone _ fun p hp => by cases p <;> first | rfl | cases hp
  have harming : ¬ v.Any ValveCall.arming :=
    hnone _ fun p hp => by cases p <;> first | rfl | cases hp
  refine ⟨Bool.eq_iff_iff.mpr ⟨fun hp => ?_, fun ha => ?_⟩, fun hp => ?_⟩
  · have hp := h.pendingArmed hp
    tauto
  · have ha := h.armedPending ha
    tauto
  · have hp := h.pendingSettling hp
    tauto

/-- A running timer is marked as armed or about to be stopped. -/
def Covered (v : SettleView) : Prop := v.pending → v.armed ∨ v.Any ValveCall.stops

/-- The steps of a call, and the order in which the calls take them: a request is accepted only when
no emergency stop and no callback is under way, an emergency stop begins only when no request is
being accepted, and neither an emergency stop begins nor the first request returns with a timer that
is not covered. -/
inductive CallTakes (v : SettleView) (t : Tid) : SettleView → Prop
  | leave {q : ValveCall} (hp : (v.call t).calm ∨ ∃ first, v.call t = .started first) (hq : q.calm)
      (hcovered : (v.call t).fresh → v.Covered) :
      CallTakes v t { v with call := Function.update v.call t q }
  | acquire (hp : v.call t = .stateIdle) (hsettling : v.settling = false)
      (hidle : v.callback = .idle) (hcancels : ¬ v.Any ValveCall.cancels) :
      CallTakes v t { v with settling := true, call := Function.update v.call t .acquired }
  | found (hp : v.call t = .acquired) (hcreated : v.created) :
      CallTakes v t { v with call := Function.update v.call t .existing }
  | missed (hp : v.call t = .acquired) :
      CallTakes v t { v with call := Function.update v.call t .missing }
  | rearm (hp : v.call t = .existing) :
      CallTakes v t
        { v with armed := true, call := Function.update v.call t (.rearming v.armed) }
  | stopArmed (hp : v.call t = .rearming true) :
      CallTakes v t { v with pending := false, call := Function.update v.call t (.rearming false) }
  | create (hp : v.call t = .missing) :
      CallTakes v t { v with created := true, call := Function.update v.call t .created }
  | createFails (hp : v.call t = .missing) :
      CallTakes v t { v with call := Function.update v.call t .failing }
  | start {first : Bool}
      (hp : v.call t = .rearming false ∧ first = false ∨ v.call t = .created ∧ first = true) :
      CallTakes v t { v with pending := true, call := Function.update v.call t (.started first) }
  | cancel (hp : (v.call t).calm) (harming : ¬ v.Any ValveCall.arming) (hcovered : v.Covered) :
      CallTakes v t
        { v with armed := false
                 call := Function.update v.call t (if v.armed then .cancelling else .cancelled) }
  | cancelFound (hp : v.call t = .cancelling) (hcreated : v.created) :
      CallTakes v t { v with call := Function.update v.call t .stopping }
  | cancelMissed (hp : v.call t = .cancelling) (hcreated : v.created = false) :
      CallTakes v t { v with call := Function.update v.call t .cancelled }
  | stop (hp : v.call t = .stopping) :
      CallTakes v t { v with pending := false, call := Function.update v.call t .cancelled }
  | lower (hp : v.call t = .cancelled) :
      CallTakes v t { v with settling := false, call := Function.update v.call t .outside }

/-- The steps of the timer. -/
inductive TimerTakes (v : SettleView) : SettleView → Prop
  | wait : TimerTakes v v
  | expire {pos : ValvePosition} (hpending : v.pending) :
      TimerTakes v { v with pending := false, callback := .fired pos }
  | announce {pos : ValvePosition} (hcallback : v.callback = .fired pos) :
      TimerTakes v { v with callback := .announced }
  | clear (hcallback : v.callback = .announced) :
      TimerTakes v { v with settling := false, callback := .cleared }
  | disarm (hcallback : v.callback = .cleared) :
      TimerTakes v { v with armed := false, callback := .idle }

section
variable {v v' : SettleView} {t : Tid}

/-- Some call other than that of `t` is in one of these phases. -/
def Others (v : SettleView) (t : Tid) (f : ValveCall → Bool) : Prop :=
  ∃ s, s ≠ t ∧ f (v.call s)

theorem any_iff (t : Tid) {f : ValveCall → Bool} : v.Any f ↔ f (v.call t) ∨ v.Others t f := by
  constructor
  · rintro ⟨s, hs⟩
    by_cases h : s = t
    · exact .inl (h ▸ hs)
    · exact .inr ⟨s, h, hs⟩
  · rintro (h | ⟨s, -, hs⟩)
    · exact ⟨t, h⟩
    · exact ⟨s, hs⟩

theorem any_update {settling armed pending created : Bool} {callback : TimerPhase}
    {q : ValveCall} {f : ValveCall → Bool} :
    (Any ⟨settling, armed, pending, created, callback, Function.update v.call t q⟩ f) ↔
      f q ∨ v.Others t f :=
  Function.exists_update_iff v.call fun _ p => f p = true

theorem alone_update {q : ValveCall}
    (h : ∀ s s', (v.call s).arming → (v.call s').arming → s = s')
    (hq : q.arming → ¬ v.Others t ValveCall.arming) (s s' : Tid)
    (hs : (Function.update v.call t q s).arming) (hs' : (Function.update v.call t q s').arming) :
    s = s' := by
  simp only [Function.update_apply] at hs hs'
  grind -ring -linarith -ac [Others]

theorem Good.leave (h : v.Good) {q : ValveCall}
    (hp : (v.call t).calm ∨ ∃ first, v.call t = .started first) (hq : q.calm)
    (hcovered : (v.call t).fresh → v.Covered) :
    Good { v with call := Function.update v.call t q } := by
  obtain ⟨h1, h2, h3, h4, h5, h6, h7, h8, h9, h10⟩ := h
  obtain ⟨hq1, hq2, hq3, hq4, hq5, hq6⟩ := ValveCall.none_of_calm hq
  have hnone : (v.call t).arming = false ∧ (v.call t).stops = false ∧ (v.call t).cancels = false ∧
      (v.call t).rearms = false := by
    rcases hp with hp | ⟨first, hp⟩
    · exact ⟨(ValveCall.none_of_calm hp).1, (ValveCall.none_of_calm hp).2.1,
        (ValveCall.none_of_calm hp).2.2.1, (ValveCall.none_of_calm hp).2.2.2.1⟩
    · rw [hp]
      exact ⟨rfl, rfl, rfl, rfl⟩
  obtain ⟨hp1, hp2, hp3, hp4⟩ := hnone
  simp only [Covered, any_iff t, hp1, hp2, hp3, hp4, Bool.false_eq_true, false_or]
    at h1 h2 h3 h4 h6 h8 h10 hcovered
  constructor
  case alone => exact alone_update h7 (by simp [hq1])
  all_goals
    simp only [any_update, hq1, hq2, hq3, hq4, hq5, hq6, Bool.false_eq_true, false_or]
    grind -ring -linarith -ac

theorem Others.mono {f g : ValveCall → Bool} (h : v.Others t f) (hfg : ∀ p, f p → g p) :
    v.Others t g := by
  obtain ⟨s, hst, hs⟩ := h
  exact ⟨s, hst, hfg _ hs⟩

theorem Good.call (h : v.Good) (hstep : CallTakes v t v') : v'.Good := by
  have halone : (v.call t).arming → ¬ v.Others t ValveCall.arming := by
    rintro ht ⟨s, hst, hs⟩
    exact hst (h.alone s t hs ht)
  have hstops : v.Others t ValveCall.stops → v.Others t ValveCall.cancels :=
    fun h => h.mono fun _ => ValveCall.cancels_of_stops
  have hrearms : v.Others t ValveCall.rearms → v.Others t ValveCall.arming :=
    fun h => h.mono fun _ => ValveCall.arming_of_rearms
  obtain ⟨h1, h2, h3, h4, h5, h6, h7, h8, h9, h10⟩ := h
  induction hstep with
  | leave hp hq hcovered => exact leave ⟨h1, h2, h3, h4, h5, h6, h7, h8, h9, h10⟩ hp hq hcovered
  | cancel hp harming hcovered =>
    obtain ⟨hp1, hp2, hp3, hp4, hp5, hp6⟩ := ValveCall.none_of_calm hp
    simp only [Covered, any_iff t, hp1, hp2, hp3, hp4, hp5, hp6, Bool.false_eq_true, false_or]
      at h1 h2 h3 h4 h6 h8 h10 harming hcovered
    by_cases harmed : v.armed
    all_goals
      simp only [harmed, if_true, if_false, Bool.false_eq_true]
      constructor
      case alone => exact alone_update h7 nofun
      all_goals
        simp only [any_update, ValveCall.arming, ValveCall.stops, ValveCall.cancels,
          ValveCall.knows, ValveCall.rearms, ValveCall.fresh, Bool.false_eq_true, false_or, true_or]
        grind -ring -linarith -ac
  | start hp =>
    obtain ⟨hp, rfl⟩ | ⟨hp, rfl⟩ := hp
    all_goals
      simp only [any_iff t, hp, ValveCall.arming, ValveCall.stops, ValveCall.cancels,
        ValveCall.knows, ValveCall.rearms, ValveCall.fresh, Bool.false_eq_true, false_or, true_or]
        at h1 h2 h3 h4 h6 h8 h10 halone
      constructor
      case alone => exact alone_update h7 nofun
      all_goals
        simp only [any_update, ValveCall.arming, ValveCall.stops, ValveCall.cancels,
          ValveCall.knows, ValveCall.rearms, ValveCall.fresh, Bool.false_eq_true, false_or, true_or]
        grind -ring -linarith -ac
  | acquire hp | found hp | missed hp | rearm hp | stopArmed hp | create hp | createFails hp
  | cancelFound hp | cancelMissed hp | stop hp | lower hp =>
    simp only [any_iff t, hp, ValveCall.arming, ValveCall.stops, ValveCall.cancels,
      ValveCall.knows, ValveCall.rearms, ValveCall.fresh, Bool.false_eq_true, false_or, true_or] at *
    constructor
    case alone =>
      refine alone_update h7 ?_
      grind -ring -linarith -ac [ValveCall.arming]
    all_goals
      simp only [any_update, ValveCall.arming, ValveCall.stops, ValveCall.cancels,
        ValveCall.knows, ValveCall.rearms, ValveCall.fresh, Bool.false_eq_true, false_or, true_or]
      grind -ring -linarith -ac

theorem Good.timer (h : v.Good) (hstep : TimerTakes v v') : v'.Good := by
  have hstops : v.Any ValveCall.stops → v.Any ValveCall.cancels := by
    rintro ⟨s, hs⟩
    exact ⟨s, ValveCall.cancels_of_stops hs⟩
  have hrearms : v.Any ValveCall.rearms → v.Any ValveCall.arming := by
    rintro ⟨s, hs⟩
    exact ⟨s, ValveCall.arming_of_rearms hs⟩
  obtain ⟨h1, h2, h3, h4, h5, h6, h7, h8, h9, h10⟩ := h
  cases hstep with
  | wait => exact ⟨h1, h2, h3, h4, h5, h6, h7, h8, h9, h10⟩
  | _ =>
    constructor
    case alone => exact h7
    all_goals
      simp only [Any] at *
      grind -ring -linarith -ac

end

end SettleView
end Ecotiter
