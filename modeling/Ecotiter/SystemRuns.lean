import Ecotiter.TaskMoves
import Ecotiter.MotorTaskConformance
import Ecotiter.ClientConformance

/-!
# Runs of the device

Along every run each task keeps to its phases, so an invariant of the device only has to be checked
for the moves of the tasks, for quiet actions and for what happens at the switches.
-/

namespace Ecotiter
open Interleaving

/-- The phase a task is in. -/
def TaskPhase : Tid → Type
  | .main | .http => ClientPhase
  | .motor => MotorPhase
  | .timer => TimerPhase

def taskProtocol : ∀ t, Protocol Act (TaskPhase t)
  | .main => clientProtocol true
  | .http => clientProtocol false
  | .motor => motorProtocol
  | .timer => timerProtocol

def taskPhase : ∀ t, World → TaskPhase t
  | .main, w => clientPhase .main w.past
  | .http, w => clientPhase .http w.past
  | .motor, w => motorPhase w.past
  | .timer, w => timerPhase w.past

theorem tracks_taskPhase : Tracks device taskProtocol taskPhase where
  own t β a e w p hp := by
    cases t <;> simp only [taskPhase, taskProtocol, clientProtocol, motorProtocol, timerProtocol,
      device_exec_fst, device_exec_snd, World.did_past, clientPhase_self, motorPhase_motor,
      timerPhase, decide_true, reduceCtorEq, decide_false] at hp ⊢ <;> rw [hp] <;> rfl
  other i j β a e w hj := by
    cases j with
    | main => exact clientPhase_other hj.symm a (a.run e w.mem).1 w.mem w.past
    | http => exact clientPhase_other hj.symm a (a.run e w.mem).1 w.mem w.past
    | motor => exact motorPhase_other hj.symm a (a.run e w.mem).1 w.mem w.past
    | timer => exact timerPhase_other hj.symm a (a.run e w.mem).1 w.mem w.past
  env j h w w' hw := by
    obtain ⟨m, -, rfl⟩ := device_env hw
    cases j <;> rfl

theorem Boot.obeys (b : Boot) : b.config.Obeys taskProtocol taskPhase := by
  intro t
  cases t with
  | main => exact ClientPhase.follows_appMain
  | http => exact ClientPhase.follows_serve
  | motor => exact follows_motorTaskEntry
  | timer => exact ClientPhase.follows_timerTask

def Tid.isClient : Tid → Bool
  | .main | .http => true
  | .motor | .timer => false

theorem Tid.ne_motor_of_isClient {t : Tid} (h : t.isClient) : t ≠ .motor := by
  intro ht
  rw [ht] at h
  cases h

theorem Tid.ne_timer_of_isClient {t : Tid} (h : t.isClient) : t ≠ .timer := by
  intro ht
  rw [ht] at h
  cases h

theorem Tid.timer_ne_motor : Tid.timer ≠ .motor := nofun

/-- A quiet action of some task. -/
structure QuietStep (w : World) (t : Tid) {β : Type} (a : Act β) (e : Input) : Prop where
  quiet : a.quiet
  motor : motorPhase (w.did t a e).past = motorPhase w.past
  client : ∀ s : Tid, s.isClient → clientPhase s (w.did t a e).past = clientPhase s w.past
  same : ∀ f : Field, f.Same w.mem (w.did t a e).mem

/-- An action of the motor task that its phase admits. -/
structure MotorStep (w : World) {β : Type} (a : Act β) (e : Input) (q : MotorPhase) : Prop where
  move : MotorMove a (a.run e w.mem).1 (motorPhase w.past) q
  motor : motorPhase (w.did .motor a e).past = q
  client : ∀ s : Tid, s.isClient → clientPhase s (w.did .motor a e).past = clientPhase s w.past

/-- An action of a client that its phase admits. -/
structure ClientStep (w : World) (t : Tid) {β : Type} (a : Act β) (e : Input)
    (q : ClientPhase) : Prop where
  isClient : t.isClient
  move : ClientMove (t = .main) a (a.run e w.mem).1 (clientPhase t w.past) q
  self : clientPhase t (w.did t a e).past = q
  other : ∀ s, s ≠ t → clientPhase s (w.did t a e).past = clientPhase s w.past
  motor : motorPhase (w.did t a e).past = motorPhase w.past

/-- What an action of a client is, from what its protocol says. -/
theorem World.client_cases {w : World} {t : Tid} (ht : t.isClient) {β : Type} {a : Act β}
    {e : Input} {q : ClientPhase}
    (h : (clientPhase t w.past).next (t = .main) a (a.run e w.mem).1 = some q) :
    QuietStep w t a e ∨ ClientStep w t a e q := by
  have hself : clientPhase t (w.did t a e).past = q := by
    rw [World.did_past, clientPhase_self, h, Option.getD_some]
  have hother : ∀ s, s ≠ t → clientPhase s (w.did t a e).past = clientPhase s w.past :=
    fun s hs => clientPhase_other hs.symm a (a.run e w.mem).1 w.mem w.past
  have hmotor : motorPhase (w.did t a e).past = motorPhase w.past :=
    motorPhase_other (Tid.ne_motor_of_isClient ht) a (a.run e w.mem).1 w.mem w.past
  rcases ClientPhase.moves h with ⟨hquiet, hq⟩ | hmove
  · refine .inl ⟨hquiet, hmotor, fun s _ => ?_, Act.same_of_quiet hquiet e w.mem⟩
    by_cases hs : s = t
    · rw [hs, hself, hq]
    · exact hother s hs
  · exact .inr ⟨ht, hmove, hself, hother, hmotor⟩

theorem World.motor_cases {w : World} {β : Type} {a : Act β} {e : Input} {q : MotorPhase}
    (h : (motorPhase w.past).next a (a.run e w.mem).1 = some q) :
    QuietStep w .motor a e ∨ MotorStep w a e q := by
  have hmotor : motorPhase (w.did .motor a e).past = q := by
    rw [World.did_past, motorPhase_motor, h, Option.getD_some]
  have hclient : ∀ s : Tid, s.isClient →
      clientPhase s (w.did .motor a e).past = clientPhase s w.past :=
    fun s hs => clientPhase_other (Tid.ne_motor_of_isClient hs).symm a (a.run e w.mem).1 w.mem w.past
  rcases MotorPhase.moves h with ⟨hquiet, hq⟩ | hmove
  · exact .inl ⟨hquiet, hmotor.trans hq, hclient, Act.same_of_quiet hquiet e w.mem⟩
  · exact .inr ⟨hmove, hmotor, hclient⟩

theorem World.timer_cases {w : World} {β : Type} {a : Act β} {e : Input} {q : TimerPhase}
    (h : (timerPhase w.past).next a (a.run e w.mem).1 = some q) : QuietStep w .timer a e := by
  have hquiet := TimerPhase.quiet_of_next h
  refine ⟨hquiet, ?_, fun s hs => ?_, Act.same_of_quiet hquiet e w.mem⟩
  · exact motorPhase_other (by decide) a (a.run e w.mem).1 w.mem w.past
  · exact clientPhase_other (Tid.ne_timer_of_isClient hs).symm a (a.run e w.mem).1 w.mem w.past

section Invariants
variable {C : Assumption device} {I : World → Prop}

/-- What the actions the phases admit, quiet actions and what happens at the switches preserve holds
at the end of every run in which the tasks keep to their phases. -/
theorem run_invariant {c c' : Config Act Tid World} (h : Steps C c c')
    (hc : c.Obeys taskProtocol taskPhase) (h0 : I c.shared)
    (hquiet : ∀ w t {β : Type} (a : Act β) e, I w → QuietStep w t a e → I (w.did t a e))
    (hmotor : ∀ w {β : Type} (a : Act β) e q, I w → C.allows .motor a e w → MotorStep w a e q →
      I (w.did .motor a e))
    (hclient : ∀ w t {β : Type} (a : Act β) e q, I w → C.allows t a e w → ClientStep w t a e q →
      I (w.did t a e))
    (henv : ∀ w h m, I w → C.allowsEnv h w → h.run w.mem = some m →
      I ⟨m, .happened h w.mem :: w.past⟩) : I c'.shared := by
  refine Steps.invariant (h.obeying tracks_taskPhase hc).1 h0 ?_ ?_
  · intro t β a e w hI _ hallows
    obtain ⟨hC, q, hnext, -⟩ := hallows
    cases t with
    | main =>
      rcases World.client_cases rfl hnext with hs | hs
      · exact hquiet w .main a e hI hs
      · exact hclient w .main a e q hI hC hs
    | http =>
      rcases World.client_cases rfl hnext with hs | hs
      · exact hquiet w .http a e hI hs
      · exact hclient w .http a e q hI hC hs
    | motor =>
      rcases World.motor_cases hnext with hs | hs
      · exact hquiet w .motor a e hI hs
      · exact hmotor w a e q hI hC hs
    | timer => exact hquiet w .timer a e hI (World.timer_cases hnext)
  · intro h w w' hI _ hC hw
    obtain ⟨m, hm, rfl⟩ := device_env hw
    exact henv w h m hI hC hm

/-- An invariant of the device: it holds at power-up and is preserved. -/
theorem system_invariant {b : Boot} {c : Config Act Tid World} (h : Steps C b.config c)
    (h0 : I b.world)
    (hquiet : ∀ w t {β : Type} (a : Act β) e, I w → QuietStep w t a e → I (w.did t a e))
    (hmotor : ∀ w {β : Type} (a : Act β) e q, I w → C.allows .motor a e w → MotorStep w a e q →
      I (w.did .motor a e))
    (hclient : ∀ w t {β : Type} (a : Act β) e q, I w → C.allows t a e w → ClientStep w t a e q →
      I (w.did t a e))
    (henv : ∀ w h m, I w → C.allowsEnv h w → h.run w.mem = some m →
      I ⟨m, .happened h w.mem :: w.past⟩) : I c.shared :=
  run_invariant h b.obeys h0 hquiet hmotor hclient henv

theorem Reachable.obeys {b : Boot} {c : Config Act Tid World} (h : Reachable b c) :
    c.Obeys taskProtocol taskPhase :=
  (Steps.obeying tracks_taskPhase h b.obeys).2

end Invariants
end Ecotiter
