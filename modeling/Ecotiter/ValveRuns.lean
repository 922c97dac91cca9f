import Ecotiter.Histories
import Ecotiter.ValveConformance

/-!
# Runs of the device and calls that concern the valve

Along every run the clients and the motor task keep to the phases of valve calls and the timer task
to its own. `gValveIsSettling`, `s_valveTimerArmed` and the timer change only as the latest event
says.
-/

namespace Ecotiter
open Interleaving

/-- Where a task is in its valve call. -/
def valveCall (t : Tid) (past : List Event) : ValveCall :=
  phaseAfter valveProtocol .outside t past

@[simp] theorem valveCall_nil (t : Tid) : valveCall t [] = .outside := rfl

@[simp] theorem valveCall_happened (t : Tid) (h : Happening) (m : Mem) (past : List Event) :
    valveCall t (.happened h m :: past) = valveCall t past := rfl

theorem valveCall_did {t : Tid} {w : World} {β : Type} {a : Act β} {e : Input} {q : ValveCall}
    (h : (valveCall t w.past).next a (a.run e w.mem).1 = some q) :
    valveCall t (w.did t a e).past = q :=
  phaseAfter_self h

/-- The phase of a task in the protocols of the valve. -/
def CallPhase : Tid → Type
  | .main | .http | .motor => ValveCall
  | .timer => TimerPhase

def callProtocol : ∀ t, Protocol Act (CallPhase t)
  | .main | .http | .motor => valveProtocol
  | .timer => timerProtocol

def callPhase : ∀ t, World → CallPhase t
  | .main, w => valveCall .main w.past
  | .http, w => valveCall .http w.past
  | .motor, w => valveCall .motor w.past
  | .timer, w => timerPhase w.past

theorem tracks_callPhase : Tracks device callProtocol callPhase where
  own t β a e w p hp := by
    cases t with
    | main | http | motor => exact valveCall_did hp
    | timer =>
      have hp : (timerPhase w.past).next a (a.run e w.mem).1 = some p := hp
      have htimer : timerPhase (w.did .timer a e).past =
          ((timerPhase w.past).next a (a.run e w.mem).1).getD (timerPhase w.past) := rfl
      rw [hp] at htimer
      exact htimer
  other i j β a e w hj := by
    cases j with
    | main | http | motor => exact phaseAfter_other hj.symm a (a.run e w.mem).1 w.mem w.past
    | timer => exact timerPhase_other hj.symm a (a.run e w.mem).1 w.mem w.past
  env j h w w' hw := by
    obtain ⟨m, -, rfl⟩ := device_env hw
    cases j <;> rfl

theorem Boot.obeysCalls (b : Boot) : b.config.Obeys callProtocol callPhase := by
  intro t
  cases t with
  | main => exact ValveCall.follows_appMain.mono fun _ _ _ => trivial
  | http => exact ValveCall.follows_serve.mono fun _ _ _ => trivial
  | motor => exact ValveCall.follows_motorTaskEntry.mono fun _ _ _ => trivial
  | timer => exact ClientPhase.follows_timerTask

/-- What a step of a valve call can be. -/
inductive ValveMove : {β : Type} → Act β → β → ValveCall → ValveCall → Prop
  | readSettling {settling : Bool} {p : ValveCall} (hp : p.calm) :
      ValveMove (.load .valveIsSettling) settling p (if settling then .outside else .valveClear)
  | readState {state : BuretteState} {p : ValveCall} (hp : p.calm) (hclear : p ≠ .valveClear) :
      ValveMove (.load .buretteState) state p (if state = .idle then .stateIdle else .outside)
  | readStateToo {state : BuretteState} :
      ValveMove (.load .buretteState) state .valveClear .valveClear
  | claim {desired : BuretteState} {ok : Bool} :
      ValveMove (.casBuretteState desired) ok .valveClear .outside
  | casError {ok : Bool} : ValveMove (.casBuretteState .error) ok .outside .outside
  | acquire : ValveMove .casValveIsSettling true .stateIdle .acquired
  | acquireFails : ValveMove .casValveIsSettling false .stateIdle .outside
  | found : ValveMove .espTimerIsCreated true .acquired .existing
  | missed : ValveMove .espTimerIsCreated false .acquired .missing
  | cancelFound : ValveMove .espTimerIsCreated true .cancelling .stopping
  | cancelMissed : ValveMove .espTimerIsCreated false .cancelling .cancelled
  | rearm {before : Bool} : ValveMove (.exchangeTimerArmed true) before .existing (.rearming before)
  | cancel {before : Bool} {p : ValveCall} (hp : p.calm) :
      ValveMove (.exchangeTimerArmed false) before p (if before then .cancelling else .cancelled)
  | create {arg : ValvePosition} : ValveMove (.espTimerCreate arg) .ok .missing .created
  | createFails {arg : ValvePosition} {err : EspErr} (herr : err ≠ .ok) :
      ValveMove (.espTimerCreate arg) err .missing .failing
  | stop {err : EspErr} {p q : ValveCall} (herr : err = .ok ∨ err = .invalidState)
      (hp : p = .rearming true ∧ q = .rearming false ∨ p = .stopping ∧ q = .cancelled) :
      ValveMove .espTimerStop err p q
  | stopFails {err : EspErr} {p : ValveCall} (herr : err ≠ .ok ∧ err ≠ .invalidState)
      (hp : p = .rearming true ∨ p = .stopping) : ValveMove .espTimerStop err p .failing
  | start {p : ValveCall} {first : Bool}
      (hp : p = .rearming false ∧ first = false ∨ p = .created ∧ first = true) :
      ValveMove .espTimerStartOnce .ok p (.started first)
  | startFails {err : EspErr} {p : ValveCall} (herr : err ≠ .ok)
      (hp : p = .rearming false ∨ p = .created) : ValveMove .espTimerStartOnce err p .failing
  | lower : ValveMove (.store .valveIsSettling false) () .cancelled .outside
  | receive {source : Source} {req : Option Request} {p : ValveCall} (hp : p.calm) :
      ValveMove (.receiveRequest source) req p .outside
  | respond {rsp : CommandResponse} {p : ValveCall} (hp : p.answers) :
      ValveMove (.respond rsp) () p .outside
  | abort {p : ValveCall} : ValveMove .abort () p .dead

namespace ValveCall
variable {p q : ValveCall}

theorem moves_onLoadState {state : BuretteState} (h : onLoadState state p = some q) :
    ValveMove (.load .buretteState) state p q := by
  unfold onLoadState at h
  by_cases hclear : p = .valveClear
  · rw [if_pos hclear] at h
    cases h
    subst hclear
    exact .readStateToo
  · rw [if_neg hclear] at h
    by_cases hp : p.calm
    · rw [if_pos hp] at h
      cases h
      exact .readState hp hclear
    · rw [if_neg hp] at h
      cases h

theorem moves_onExchange {armed before : Bool} (h : onExchange armed before p = some q) :
    ValveMove (.exchangeTimerArmed armed) before p q := by
  cases armed with
  | true =>
    simp only [onExchange, if_true, Option.ite_none_right_eq_some, Option.some.injEq] at h
    obtain ⟨rfl, rfl⟩ := h
    exact .rearm
  | false =>
    simp only [onExchange, Bool.false_eq_true, if_false, Option.ite_none_right_eq_some,
      Option.some.injEq] at h
    obtain ⟨hp, rfl⟩ := h
    exact .cancel hp

theorem moves_onStop {err : EspErr} (h : onStop err p = some q) :
    ValveMove .espTimerStop err p q := by
  by_cases herr : err = .ok ∨ err = .invalidState
  · refine .stop herr ?_
    unfold onStop at h
    split at h <;> simp_all
  · have hq : q = .failing ∧ (p = .rearming true ∨ p = .stopping) := by
      unfold onStop at h
      split at h <;> simp_all
    rw [hq.1]
    exact .stopFails (not_or.mp herr) hq.2

theorem moves_onStart {err : EspErr} (h : onStart err p = some q) :
    ValveMove .espTimerStartOnce err p q := by
  by_cases herr : err = .ok
  · subst herr
    unfold onStart at h
    split at h
    · cases h
      exact .start (.inl ⟨rfl, rfl⟩)
    · cases h
      exact .start (.inr ⟨rfl, rfl⟩)
    · cases h
  · have hq : q = .failing ∧ (p = .rearming false ∨ p = .created) := by
      unfold onStart at h
      split at h <;> simp_all
    rw [hq.1]
    exact .startFails herr hq.2

/-- A step of a call is neutral or one of the moves. -/
theorem moves {β : Type} {a : Act β} {b : β} (h : p.next a b = some q) (hp : p ≠ .dead) :
    a.valveNeutral ∧ q = p ∨ ValveMove a b p q := by
  have hneutral : a.valveNeutral → a.valveNeutral ∧ q = p ∨ ValveMove a b p q := by
    intro ha
    rw [next_neutral p a b ha] at h
    cases h
    exact .inl ⟨ha, rfl⟩
  induction a with
  | load v =>
    induction v with
    | valveIsSettling =>
      simp only [next, if_neg hp, onLoadSettling, Option.ite_none_right_eq_some,
        Option.some.injEq] at h
      obtain ⟨hcalm, rfl⟩ := h
      exact .inr (.readSettling hcalm)
    | buretteState =>
      simp only [next, if_neg hp] at h
      exact .inr (moves_onLoadState h)
    | _ => exact hneutral rfl
  | store v x =>
    induction v with
    | valveIsSettling =>
      simp only [next, if_neg hp] at h
      unfold onStoreSettling at h
      split at h
      · cases x with
        | true => cases h
        | false =>
          cases h
          exact .inr .lower
      · cases h
    | valveTimerArmed =>
      simp only [next, if_neg hp] at h
      cases h
    | _ => exact hneutral rfl
  | casBuretteState desired =>
    simp only [next, if_neg hp] at h
    unfold onCas at h
    split at h
    · cases h
      exact .inr .claim
    · simp only [Option.ite_none_right_eq_some, Option.some.injEq] at h
      obtain ⟨rfl, rfl⟩ := h
      exact .inr .casError
    · cases h
  | casValveIsSettling =>
    simp only [next, if_neg hp] at h
    unfold onAcquire at h
    split at h
    · cases b <;> cases h
      · exact .inr .acquireFails
      · exact .inr .acquire
    · cases h
  | espTimerIsCreated =>
    simp only [next, if_neg hp] at h
    unfold onIsCreated at h
    split at h
    · cases b <;> cases h
      · exact .inr .missed
      · exact .inr .found
    · cases b <;> cases h
      · exact .inr .cancelMissed
      · exact .inr .cancelFound
    · cases h
  | exchangeTimerArmed armed =>
    simp only [next, if_neg hp] at h
    exact .inr (moves_onExchange h)
  | espTimerCreate arg =>
    simp only [next, if_neg hp] at h
    unfold onCreate at h
    split at h
    · by_cases herr : b = .ok
      · subst herr
        cases h
        exact .inr .create
      · rw [if_neg herr] at h
        cases h
        exact .inr (.createFails herr)
    · cases h
  | espTimerStop =>
    simp only [next, if_neg hp] at h
    exact .inr (moves_onStop h)
  | espTimerStartOnce =>
    simp only [next, if_neg hp] at h
    exact .inr (moves_onStart h)
  | espTimerExpired =>
    simp only [next, if_neg hp] at h
    cases h
  | receiveRequest source =>
    simp only [next, if_neg hp, onReceive, Option.ite_none_right_eq_some, Option.some.injEq] at h
    obtain ⟨hcalm, rfl⟩ := h
    exact .inr (.receive hcalm)
  | respond rsp =>
    simp only [next, if_neg hp, onRespond, Option.ite_none_right_eq_some, Option.some.injEq] at h
    obtain ⟨hanswers, rfl⟩ := h
    exact .inr (.respond hanswers)
  | abort =>
    cases h
    exact .inr .abort
  | _ => exact hneutral rfl

/-- A call that the platform has refused stops the device. -/
theorem aborts_of_next {β : Type} {a : Act β} {b : β} (h : p.next a b = some .dead)
    (hp : p ≠ .dead) (e : Input) (m : Mem) : (a.run e m).2.aborted = true := by
  rcases moves h hp with ⟨-, hq⟩ | hmove
  · exact absurd hq.symm hp
  · generalize hq : ValveCall.dead = q at hmove
    induction hmove with
    | abort => rfl
    | readSettling | readState | cancel => split at hq <;> cases hq
    | stop herr hs => grind -ring -linarith -ac
    | _ => cases hq

end ValveCall

/-- What a step of the timer task can be. -/
inductive TimerMove : {β : Type} → Act β → β → TimerPhase → TimerPhase → Prop
  | wait : TimerMove .espTimerExpired none .idle .idle
  | expire {pos : ValvePosition} : TimerMove .espTimerExpired (some pos) .idle (.fired pos)
  | announce {pos : ValvePosition} :
      TimerMove (.wsBroadcast (.valveSettled pos)) () (.fired pos) .announced
  | clear : TimerMove (.store .valveIsSettling false) () .announced .cleared
  | disarm : TimerMove (.store .valveTimerArmed false) () .cleared .idle

theorem TimerPhase.moves {p q : TimerPhase} {β : Type} {a : Act β} {b : β}
    (h : p.next a b = some q) : TimerMove a b p q := by
  induction a with
  | espTimerExpired =>
    cases p with
    | idle =>
      cases b <;> cases h
      · exact .wait
      · exact .expire
    | _ => cases h
  | wsBroadcast event =>
    cases p with
    | fired pos =>
      simp only [next, onBroadcast, Option.ite_none_right_eq_some, Option.some.injEq] at h
      obtain ⟨rfl, rfl⟩ := h
      exact .announce
    | _ => cases h
  | store v x =>
    induction v with
    | valveIsSettling =>
      simp only [next, onStore, Option.ite_none_right_eq_some, Option.some.injEq] at h
      obtain ⟨⟨rfl, rfl⟩, rfl⟩ := h
      exact .clear
    | valveTimerArmed =>
      simp only [next, onStore, Option.ite_none_right_eq_some, Option.some.injEq] at h
      obtain ⟨⟨rfl, rfl⟩, rfl⟩ := h
      exact .disarm
    | _ => cases h
  | _ => cases h

/-- An action of a client or of the motor task that the phases of valve calls admit. -/
structure CallStep (w : World) (t : Tid) {β : Type} (a : Act β) (e : Input) (q : ValveCall) :
    Prop where
  notTimer : t ≠ .timer
  alive : ∀ s, s ≠ .timer → valveCall s w.past ≠ .dead
  move : a.valveNeutral ∧ q = valveCall t w.past ∨
    ValveMove a (a.run e w.mem).1 (valveCall t w.past) q
  self : valveCall t (w.did t a e).past = q
  other : ∀ s, s ≠ t → valveCall s (w.did t a e).past = valveCall s w.past
  timer : timerPhase (w.did t a e).past = timerPhase w.past

/-- An action of the timer task. -/
structure TimerStep (w : World) {β : Type} (a : Act β) (e : Input) (q : TimerPhase) : Prop where
  alive : ∀ s, s ≠ .timer → valveCall s w.past ≠ .dead
  move : TimerMove a (a.run e w.mem).1 (timerPhase w.past) q
  timer : timerPhase (w.did .timer a e).past = q
  call : ∀ s, s ≠ .timer → valveCall s (w.did .timer a e).past = valveCall s w.past

/-- What the actions the phases admit and what happens at the switches preserve holds at the end of
every run from power-up. -/
theorem valve_invariant {C : Assumption device} {I : World → Prop} {b : Boot}
    {c : Config Act Tid World} (h : Steps C b.config c) (h0 : I b.world)
    (hcall : ∀ w t {β : Type} (a : Act β) e q, I w → C.allows t a e w → CallStep w t a e q →
      I (w.did t a e))
    (htimer : ∀ w {β : Type} (a : Act β) e q, I w → C.allows .timer a e w → TimerStep w a e q →
      I (w.did .timer a e))
    (henv : ∀ w h m, I w → C.allowsEnv h w → h.run w.mem = some m →
      I ⟨m, .happened h w.mem :: w.past⟩) : I c.shared := by
  let J : World → Prop := fun w => I w ∧
    ∀ t, t ≠ .timer → valveCall t w.past = .dead → w.mem.aborted
  have halive : ∀ w : World, J w → device.running w → ∀ t, t ≠ .timer →
      valveCall t w.past ≠ .dead := by
    intro w hJ hrun t ht hd
    have haborted := hJ.2 t ht hd
    simp [device, haborted] at hrun
  have hJ : J c.shared := by
    refine Steps.invariant (h.obeying tracks_callPhase b.obeysCalls).1 ⟨h0, nofun⟩ ?_ ?_
    · intro t β a e w hJ hrun hallows
      obtain ⟨hC, q, hnext, hafter⟩ := hallows
      have hother : ∀ s, s ≠ t → valveCall s (w.did t a e).past = valveCall s w.past :=
        fun s hs => phaseAfter_other hs.symm a (a.run e w.mem).1 w.mem w.past
      have hkeeps : t ≠ .timer → timerPhase (w.did t a e).past = timerPhase w.past :=
        fun ht => timerPhase_other ht a (a.run e w.mem).1 w.mem w.past
      have hcalls : ∀ q : ValveCall, t ≠ .timer →
          (valveCall t w.past).next a (a.run e w.mem).1 = some q →
          valveCall t (w.did t a e).past = q → J (w.did t a e) := by
        intro q ht hnext hafter
        have hlive := halive w hJ hrun
        have hmove := ValveCall.moves hnext (hlive t ht)
        refine ⟨hcall w t a e q hJ.1 hC ⟨ht, hlive, hmove, hafter, hother, hkeeps ht⟩, ?_⟩
        intro s hs hd
        by_cases hst : s = t
        · rw [hst, hafter] at hd
          exact ValveCall.aborts_of_next (hd ▸ hnext) (hlive t ht) e w.mem
        · exact absurd ((hother s hst).symm.trans hd) (hlive s hs)
      cases t with
      | main | http | motor => exact hcalls q (by decide) hnext hafter
      | timer =>
        have hlive := halive w hJ hrun
        refine ⟨htimer w a e q hJ.1 hC ⟨hlive, TimerPhase.moves hnext, hafter, hother⟩, ?_⟩
        intro s hs hd
        exact absurd ((hother s hs).symm.trans hd) (hlive s hs)
    · intro h w w' hJ hrun hC hw
      obtain ⟨m, hm, rfl⟩ := device_env hw
      refine ⟨henv w h m hJ.1 hC hm, ?_⟩
      intro s hs hd
      exact absurd hd (halive w hJ hrun s hs)
  exact hJ.1

namespace Event

/-- The value an event gives `gValveIsSettling`. -/
def setsSettling : Event → Option Bool
  | .did _ (.store .valveIsSettling b) _ _ => some b
  | .did _ .casValveIsSettling true _ => some true
  | _ => none

/-- The value an event gives `s_valveTimerArmed`. -/
def setsArmed : Event → Option Bool
  | .did _ (.store .valveTimerArmed b) _ _ => some b
  | .did _ (.exchangeTimerArmed b) _ _ => some b
  | _ => none

/-- An event creates the settle timer. -/
def setsCreated : Event → Option Bool
  | .did _ (.espTimerCreate _) .ok _ => some true
  | _ => none

/-- Whether the event leaves the settle timer running. -/
def setsPending : Event → Option Bool
  | .did _ .espTimerStop _ _ => some false
  | .did _ .espTimerStartOnce _ _ => some true
  | .did _ .espTimerExpired (some _) _ => some false
  | _ => none

end Event

section
variable (t : Tid) {β : Type} (a : Act β) (e : Input) (m : Mem)

theorem Act.settling_after :
    (a.run e m).2.valveIsSettling =
      ((Event.did t a (a.run e m).1 m).setsSettling).getD m.valveIsSettling := by
  induction a with
  | store v x => induction v <;> rfl
  | storeStop f b => cases f <;> rfl
  | gpioSetLevel pin level => cases pin <;> rfl
  | gpioIsrHandlerAdd s => cases s <;> rfl
  | casValveIsSettling => simp only [Act.run]; split <;> simp_all [Event.setsSettling]
  | casBuretteState desired => simp only [Act.run]; split <;> rfl
  | createMotorCmdQueue | xQueueSend | xQueueReceive | nvsSet | espTimerCreate | espTimerStop
  | espTimerStartOnce | espTimerExpired =>
    simp only [Act.run, Event.setsSettling, Option.getD_none]
    repeat' split
    all_goals rfl
  | _ => rfl

theorem Act.armed_after :
    (a.run e m).2.valveTimerArmed =
      ((Event.did t a (a.run e m).1 m).setsArmed).getD m.valveTimerArmed := by
  induction a with
  | store v x => induction v <;> rfl
  | storeStop f b => cases f <;> rfl
  | gpioSetLevel pin level => cases pin <;> rfl
  | gpioIsrHandlerAdd s => cases s <;> rfl
  | casBuretteState | casValveIsSettling | createMotorCmdQueue | xQueueSend | xQueueReceive | nvsSet
  | espTimerCreate | espTimerStop | espTimerStartOnce | espTimerExpired =>
    simp only [Act.run, Event.setsArmed, Option.getD_none]
    repeat' split
    all_goals rfl
  | _ => rfl

theorem Act.created_after :
    (a.run e m).2.timerArg.isSome =
      ((Event.did t a (a.run e m).1 m).setsCreated).getD m.timerArg.isSome := by
  induction a with
  | store v x => induction v <;> rfl
  | storeStop f b => cases f <;> rfl
  | gpioSetLevel pin level => cases pin <;> rfl
  | gpioIsrHandlerAdd s => cases s <;> rfl
  | espTimerCreate arg =>
    simp only [Act.run]
    split
    case isTrue => rfl
    case isFalse herr =>
      cases hans : e.espErr <;> simp_all [Event.setsCreated]
  | casBuretteState | casValveIsSettling | createMotorCmdQueue | xQueueSend | xQueueReceive | nvsSet
  | espTimerStop | espTimerStartOnce | espTimerExpired =>
    simp only [Act.run, Event.setsCreated, Option.getD_none]
    repeat' split
    all_goals rfl
  | _ => rfl

theorem Act.timerPending_after (harg : m.timerPending → m.timerArg.isSome) :
    (a.run e m).2.timerPending =
      ((Event.did t a (a.run e m).1 m).setsPending).getD m.timerPending := by
  induction a with
  | store v x => induction v <;> rfl
  | storeStop f b => cases f <;> rfl
  | gpioSetLevel pin level => cases pin <;> rfl
  | gpioIsrHandlerAdd s => cases s <;> rfl
  | espTimerStop | espTimerStartOnce =>
    simp only [Act.run]
    split <;> simp_all [Event.setsPending]
  | espTimerExpired =>
    simp only [Act.run]
    split
    case isTrue h =>
      obtain ⟨pos, hpos⟩ := Option.isSome_iff_exists.mp (harg h.1)
      simp [hpos, Event.setsPending]
    case isFalse => rfl
  | casBuretteState | casValveIsSettling | createMotorCmdQueue | xQueueSend | xQueueReceive | nvsSet
  | espTimerCreate =>
    simp only [Act.run, Event.setsPending, Option.getD_none]
    repeat' split
    all_goals rfl
  | _ => rfl

end

/-- The switches have nothing to do with the valve. -/
theorem Happening.run_valve {h : Happening} {m m' : Mem} (hr : h.run m = some m') :
    m'.valveIsSettling = m.valveIsSettling ∧ m'.valveTimerArmed = m.valveTimerArmed ∧
      m'.timerPending = m.timerPending ∧ m'.timerArg = m.timerArg := by
  cases h with
  | level e active =>
    cases hr
    cases e <;> exact ⟨rfl, rfl, rfl, rfl⟩
  | interrupt e =>
    simp only [Happening.run, Option.ite_none_right_eq_some, Option.some.injEq] at hr
    rw [← hr.2]
    cases e <;> exact ⟨rfl, rfl, rfl, rfl⟩

end Ecotiter
