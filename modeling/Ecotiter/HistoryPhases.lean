import Ecotiter.DeviceSystem
import Ecotiter.ProgramProtocol

/-!
# Phases read off a history

The phase a task has reached under a protocol is a function of the history alone. Any family of
protocols is tracked by these functions, so that a property of runs may use as many protocols for
the same tasks as it needs.
-/

namespace Ecotiter
open Interleaving

variable {φ : Type}

/-- The phase of a task after a history. -/
def phaseAfter (P : Protocol Act φ) (p0 : φ) (t : Tid) : List Event → φ
  | [] => p0
  | .did t' a b _ :: past =>
    if t' = t then (P.next (phaseAfter P p0 t past) a b).getD (phaseAfter P p0 t past)
    else phaseAfter P p0 t past
  | .happened _ _ :: past => phaseAfter P p0 t past

section Lemmas
variable {P : Protocol Act φ} {p0 : φ}

theorem phaseAfter_self {t : Tid} {β : Type} {a : Act β} {b : β} {m : Mem} {past : List Event}
    {q : φ} (h : P.next (phaseAfter P p0 t past) a b = some q) :
    phaseAfter P p0 t (.did t a b m :: past) = q := by
  rw [phaseAfter, if_pos rfl, h, Option.getD_some]

theorem phaseAfter_other {t t' : Tid} (h : t' ≠ t) {β : Type} (a : Act β) (b : β) (m : Mem)
    (past : List Event) :
    phaseAfter P p0 t (.did t' a b m :: past) = phaseAfter P p0 t past := by
  rw [phaseAfter, if_neg h]

@[simp] theorem phaseAfter_happened (t : Tid) (h : Happening) (m : Mem) (past : List Event) :
    phaseAfter P p0 t (.happened h m :: past) = phaseAfter P p0 t past := rfl

end Lemmas

/-- The history determines the phases of all tasks. -/
theorem tracks_phaseAfter {Φ : Tid → Type} (P : ∀ t, Protocol Act (Φ t)) (p0 : ∀ t, Φ t) :
    Tracks device P (fun t w => phaseAfter (P t) (p0 t) t w.past) where
  own _ _ _ _ _ _ hq := phaseAfter_self hq
  other _ _ _ a e w hj := phaseAfter_other (Ne.symm hj) a (a.run e w.mem).1 w.mem w.past
  env _ _ _ _ hw := by
    obtain ⟨m, -, rfl⟩ := device_env hw
    rfl

end Ecotiter
