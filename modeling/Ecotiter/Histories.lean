import Ecotiter.SystemRuns

/-!
# Histories

A safety property of the device is a property of all events of its history, each seen with the
history before it. Scripts are the labels of concrete runs.
-/

namespace Ecotiter
open Interleaving

/-- `P` holds of every event of the history with what happened before it. -/
def Throughout (P : Event → List Event → Prop) : List Event → Prop
  | [] => True
  | ev :: past => P ev past ∧ Throughout P past

theorem throughout_iff {P : Event → List Event → Prop} {history : List Event} :
    Throughout P history ↔ ∀ ev past, ev :: past <:+ history → P ev past := by
  induction history with
  | nil => simp [Throughout]
  | cons x l ih =>
    simp only [Throughout, ih, List.suffix_cons_iff, List.cons.injEq]
    constructor
    · rintro ⟨hx, hl⟩ ev past (⟨rfl, rfl⟩ | h)
      · exact hx
      · exact hl ev past h
    · intro h
      exact ⟨h x l (.inl ⟨rfl, rfl⟩), fun ev past hs => h ev past (.inr hs)⟩

instance decidableThroughout (P : Event → List Event → Prop) [∀ ev past, Decidable (P ev past)] :
    DecidablePred (Throughout P)
  | [] => .isTrue trivial
  | ev :: past =>
    haveI := decidableThroughout P past
    inferInstanceAs (Decidable (P ev past ∧ Throughout P past))

namespace Event

/-- The memory in which something was done or happened. -/
def before : Event → Mem
  | .did _ _ _ m => m
  | .happened _ m => m

/-- A call of `rmt_transmit`. -/
def transmits : Event → Bool
  | .did _ (.rmtTransmit _) _ _ => true
  | _ => false

/-- The state an event writes. -/
def setsState : Event → Option BuretteState
  | .did _ (.store .buretteState x) _ _ => some x
  | .did _ (.casBuretteState desired) true _ => some desired
  | _ => none

theorem transmits_of_quiet {t : Tid} {β : Type} {a : Act β} (ha : a.quiet) (b : β) (m : Mem) :
    (Event.did t a b m).transmits = false := by
  induction a <;> first | rfl | cases ha

end Event

/-- The state changes only as the event says. -/
theorem Act.state_after (t : Tid) {β : Type} (a : Act β) (e : Input) (m : Mem) :
    (a.run e m).2.buretteState =
      ((Event.did t a (a.run e m).1 m).setsState).getD m.buretteState := by
  have hkeep : a.writes .buretteState = false →
      (a.run e m).2.buretteState = m.buretteState := fun hw => Act.run_same hw e m
  induction a with
  | store v x => induction v <;> rfl
  | casBuretteState desired =>
    cases hb : ((Act.casBuretteState desired).run e m).1 with
    | true => exact (Act.run_cas hb).2
    | false => rw [Act.run_casFails hb]; rfl
  | gpioSetLevel pin level => cases pin <;> rfl
  | _ => exact hkeep rfl

/-- Only the motor task drives the peripheral and the pins of the driver. -/
theorem ClientMove.not_driver {isMain : Bool} {β : Type} {a : Act β} {b : β} {p q : ClientPhase}
    (h : ClientMove isMain a b p q) :
    a.writes .enPin = false ∧ a.writes .dirPin = false ∧
      ∀ t m, (Event.did t a b m).transmits = false := by
  induction h <;> exact ⟨rfl, rfl, fun _ _ => rfl⟩

theorem ClientMove.queue_none {isMain : Bool} {β : Type} {a : Act β} {b : β} {p q : ClientPhase}
    (h : ClientMove isMain a b p q) (e : Input) {m : Mem} (hm : m.motorCmdQueue = none) :
    (a.run e m).2.motorCmdQueue = none := by
  have hkeep : a.writes .motorCmdQueue = false →
      (a.run e m).2.motorCmdQueue = m.motorCmdQueue := fun hw => Act.run_same hw e m
  induction h with
  | handOver | handOverFails | send => simp [Act.run, hm]
  | _ => exact (hkeep rfl).trans hm

/-- The command a client is serving. -/
def serving (t : Tid) : List Event → Option Command
  | [] => none
  | .did t' (.receiveRequest source) req _ :: past =>
    if t' = t then req.bind (dispatched source) else serving t past
  | .did t' (.respond _) _ _ :: past => if t' = t then none else serving t past
  | _ :: past => serving t past

theorem serving_other {t t' : Tid} (h : t' ≠ t) {β : Type} (a : Act β) (b : β) (m : Mem)
    (past : List Event) : serving t (.did t' a b m :: past) = serving t past := by
  induction a <;> simp only [serving, h, if_false]

/-- The motor task is executing a command of this type. -/
def MotorPhase.executes (t : MotorCommandType) : MotorPhase → Bool
  | .running op _ => op.hasType t
  | _ => false

abbrev Script := List (Label Tid Input Happening)

/-- `n` steps of a task with nothing from outside. -/
def Script.turns (t : Tid) (n : ℕ) : Script := List.replicate n (.thread t .nothing)

/-- The motor task from power-up to the loop that executes commands; homing times out at once. -/
def Script.boot : Script := turns .motor 21 ++ [.thread .motor (.value 2000)] ++ turns .motor 7

/-- The same, but the FULL switch is reached while the motor task homes. -/
def Script.homed : Script :=
  turns .motor 18 ++ [.env (.level .full true), .env (.interrupt .full)] ++ turns .motor 11

/-- A client receives a request and serves it in `n` more steps. -/
def Script.request (t : Tid) (cmd : Command) (n : ℕ) : Script :=
  .thread t (.request (.command cmd)) :: turns t n

end Ecotiter
