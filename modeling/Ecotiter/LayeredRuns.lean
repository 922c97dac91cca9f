import Ecotiter.Histories
import Ecotiter.HistoryPhases

/-!
# Runs with a second protocol of the motor task

A property may need more of the motor task than its phases say. Any protocol that the task follows
from power-up on can be laid over them: along every run each of its actions is then one that both
admit.
-/

namespace Ecotiter
open Interleaving

/-- The protocol that says nothing. -/
def freeProtocol : Protocol Act Unit := ⟨fun _ _ _ _ => some ()⟩

theorem conforms_freeProtocol {α : Type} (prog : Firmware α) :
    freeProtocol.Conforms (fun _ _ => True) prog () :=
  (Protocol.conforms_of_absorbing (fun _ _ => rfl) prog).mono fun _ _ _ => trivial

section
variable {φ : Type} (P : Protocol Act φ) (p0 : φ)

def LayerPhase (φ : Type) : Tid → Type
  | .motor => φ
  | _ => Unit

def layerProtocol : ∀ t, Protocol Act (LayerPhase φ t)
  | .motor => P
  | .main | .http | .timer => freeProtocol

def layerStart : ∀ t, LayerPhase φ t
  | .motor => p0
  | .main | .http | .timer => ()

end

/-- A step of the motor task in a run with a second protocol. -/
structure LayerStep {φ : Type} (P : Protocol Act φ) (p0 : φ) (w : World) {β : Type} (a : Act β)
    (e : Input) (q : MotorPhase) (r : φ) : Prop where
  step : QuietStep w .motor a e ∨ MotorStep w a e q
  next : P.next (phaseAfter P p0 .motor w.past) a (a.run e w.mem).1 = some r
  after : phaseAfter P p0 .motor (w.did .motor a e).past = r

/-- An invariant of the device in the phases of the tasks and in those of a second protocol of the
motor task. -/
theorem layered_invariant {φ : Type} {P : Protocol Act φ} {p0 : φ} {C : Assumption device}
    {I : World → Prop} {b : Boot} {c : Config Act Tid World}
    (hP : P.Conforms (fun _ _ => True) MotorTask.motorTaskEntry p0) (h : Steps C b.config c)
    (h0 : I b.world)
    (hmotor : ∀ w {β : Type} (a : Act β) e q r, I w → C.allows .motor a e w →
      LayerStep P p0 w a e q r → I (w.did .motor a e))
    (hclient : ∀ w t {β : Type} (a : Act β) e q, I w → C.allows t a e w → t.isClient →
      (QuietStep w t a e ∨ ClientStep w t a e q) →
      phaseAfter P p0 .motor (w.did t a e).past = phaseAfter P p0 .motor w.past →
      I (w.did t a e))
    (htimer : ∀ w {β : Type} (a : Act β) e, I w → C.allows .timer a e w → QuietStep w .timer a e →
      phaseAfter P p0 .motor (w.did .timer a e).past = phaseAfter P p0 .motor w.past →
      I (w.did .timer a e))
    (henv : ∀ w h m, I w → C.allowsEnv h w → h.run w.mem = some m →
      I ⟨m, .happened h w.mem :: w.past⟩) : I c.shared := by
  have hlayer : b.config.Obeys (layerProtocol P)
      (fun t w => phaseAfter (layerProtocol P t) (layerStart p0 t) t w.past) := by
    intro t
    cases t with
    | motor => exact hP
    | main | http | timer => exact conforms_freeProtocol _
  have hsteps := (h.obeying (tracks_phaseAfter (layerProtocol P) (layerStart p0)) hlayer).1
  refine Steps.invariant (hsteps.obeying tracks_taskPhase b.obeys).1 h0 ?_ ?_
  · intro t β a e w hI _ hallows
    obtain ⟨⟨hC, r, hr, hafter⟩, q, hq, -⟩ := hallows
    have hother : t ≠ .motor →
        phaseAfter P p0 .motor (w.did t a e).past = phaseAfter P p0 .motor w.past :=
      fun ht => phaseAfter_other ht a (a.run e w.mem).1 w.mem w.past
    cases t with
    | motor => exact hmotor w a e q r hI hC ⟨World.motor_cases hq, hr, hafter⟩
    | main => exact hclient w .main a e q hI hC rfl (World.client_cases rfl hq) (hother nofun)
    | http => exact hclient w .http a e q hI hC rfl (World.client_cases rfl hq) (hother nofun)
    | timer => exact htimer w a e hI hC (World.timer_cases hq) (hother nofun)
  · intro h w w' hI _ hC hw
    obtain ⟨m, hm, rfl⟩ := device_env hw
    exact henv w h m hI hC hm

end Ecotiter
