import Ecotiter.Histories

/-!
# Where the commands of the motor task come from

The queue of the motor task delivers its commands in the order in which they were sent, so the
request behind the command that is being executed can be read off the history.
-/

namespace Ecotiter
open Interleaving

/-- A command in the queue and the request it was sent for. -/
structure Order where
  cmd : MotorCommand
  request : Option Command

/-- The order an event puts into the queue. -/
def Event.order (past : List Event) : Event → Option Order
  | .did t (.xQueueSend mc) true _ => some ⟨mc, serving t past⟩
  | _ => none

/-- The command the motor task takes out of the queue. -/
def Event.received : Event → Option MotorCommand
  | .did _ .xQueueReceive cmd _ => cmd
  | _ => none

def Event.receives (ev : Event) : Bool := ev.received.isSome

/-- The orders in the queue, oldest first. -/
def pendingOrders : List Event → List Order
  | [] => []
  | ev :: past =>
    if ev.receives then (pendingOrders past).tail
    else pendingOrders past ++ (ev.order past).toList

/-- The order that was taken out of the queue last. -/
def currentOrder : List Event → Option Order
  | [] => none
  | ev :: past => if ev.receives then (pendingOrders past).head? else currentOrder past

section
variable {ev : Event} {past : List Event}

theorem pendingOrders_same (hr : ev.receives = false) (ho : ev.order past = none) :
    pendingOrders (ev :: past) = pendingOrders past := by
  rw [pendingOrders, hr, ho]
  simp

theorem currentOrder_same (hr : ev.receives = false) :
    currentOrder (ev :: past) = currentOrder past := by
  rw [currentOrder, hr]
  simp

theorem Event.receives_of_quiet {t : Tid} {β : Type} {a : Act β} (ha : a.quiet) (b : β) (m : Mem) :
    (Event.did t a b m).receives = false := by
  induction a <;> first | rfl | cases ha

theorem Event.order_of_quiet {t : Tid} {β : Type} {a : Act β} (ha : a.quiet) (b : β) (m : Mem) :
    (Event.did t a b m).order past = none := by
  induction a <;> first | rfl | cases ha

end

/-- The history agrees with the queue, and with the motor task on the command it executes. -/
structure Orderly (w : World) : Prop where
  unborn : motorPhase w.past = .unborn → w.mem.motorCmdQueue = none
  queue : (pendingOrders w.past).map Order.cmd = w.mem.motorCmdQueue.getD []
  current : ∀ cmd s, motorPhase w.past = .running (.command cmd) s →
    (currentOrder w.past).map Order.cmd = some cmd

/-- The action that creates the queue. -/
def Act.createsQueue : {β : Type} → Act β → Bool
  | _, .createMotorCmdQueue => true
  | _, _ => false

/-- Every action keeps the history in agreement with the queue. -/
theorem Act.pending_after (t : Tid) {β : Type} (a : Act β) (e : Input) {m : Mem} {past : List Event}
    (h : (pendingOrders past).map Order.cmd = m.motorCmdQueue.getD [])
    (hcreate : m.motorCmdQueue.isSome → a.createsQueue = false) :
    (pendingOrders (.did t a (a.run e m).1 m :: past)).map Order.cmd =
      (a.run e m).2.motorCmdQueue.getD [] := by
  have hkeep : a.writes .motorCmdQueue = false →
      (a.run e m).2.motorCmdQueue = m.motorCmdQueue := fun hw => Act.run_same hw e m
  induction a with
  | xQueueSend mc =>
    cases hb : ((Act.xQueueSend mc).run e m).1 with
    | true =>
      obtain ⟨q, hq, hafter⟩ := Act.run_send hb
      rw [hq] at h
      rw [hafter, pendingOrders]
      simp only [Event.receives, Event.received, Event.order, Option.isSome_none,
        Bool.false_eq_true, if_false, Option.toList_some,
        List.map_append, h, List.map_cons, List.map_nil, Option.getD_some]
    | false =>
      rw [pendingOrders_same rfl rfl, Act.run_sendFails hb, h]
  | xQueueReceive =>
    cases hb : ((Act.xQueueReceive).run e m).1 with
    | some cmd =>
      obtain ⟨q, hq, hafter⟩ := Act.run_receive hb
      rw [hq] at h
      rw [hafter, pendingOrders]
      simp only [Event.receives, Event.received, Option.isSome_some, if_true, List.map_tail, h,
        Option.getD_some, List.tail_cons]
    | none => rw [pendingOrders_same rfl rfl, Act.run_receiveNone hb, h]
  | createMotorCmdQueue =>
    cases hq : m.motorCmdQueue with
    | some q =>
      have hnot : (Act.createMotorCmdQueue).createsQueue = false := hcreate (by rw [hq]; rfl)
      cases hnot
    | none =>
      rw [pendingOrders_same rfl rfl, h, hq]
      simp only [Act.run]
      split
      · rfl
      · rw [hq]
  | store v x =>
    rw [pendingOrders_same rfl rfl, h]
    induction v <;> rfl
  | gpioSetLevel pin level =>
    rw [pendingOrders_same rfl rfl, h]
    cases pin <;> rfl
  | _ => rw [pendingOrders_same rfl rfl, h, hkeep rfl]

/-- A command that is received was sent with the oldest order. -/
theorem Orderly.received {w : World} (h : Orderly w) {t : Tid} {β : Type} {a : Act β} {e : Input}
    {cmd : MotorCommand} (hcmd : (Event.did t a (a.run e w.mem).1 w.mem).received = some cmd) :
    (currentOrder (w.did t a e).past).map Order.cmd = some cmd := by
  induction a with
  | xQueueReceive =>
    have hcmd : ((Act.xQueueReceive).run e w.mem).1 = some cmd := hcmd
    obtain ⟨rest, hrest, -⟩ := Act.run_receive hcmd
    have hqueue := h.queue
    rw [hrest] at hqueue
    rw [World.did_past, currentOrder, hcmd]
    simp only [Event.receives, Event.received, Option.isSome_some, if_true, ← List.head?_map,
      hqueue, Option.getD_some, List.head?_cons]
  | _ => cases hcmd

theorem Orderly.motor {w : World} {β : Type} {a : Act β} {e : Input} {q : MotorPhase}
    (hI : Orderly w) (hs : MotorStep w a e q) : Orderly (w.did .motor a e) := by
  obtain ⟨hunborn, hqueue, hcurrent⟩ := id hI
  obtain ⟨hmove, hq, -⟩ := hs
  refine ⟨fun h => ?_, ?_, fun cmd s h => ?_⟩
  · rw [hq] at h
    rw [World.did_mem]
    generalize hb : (a.run e w.mem).1 = b at hmove
    generalize hp : motorPhase w.past = p at hmove
    induction hmove with
    | createFails =>
      have hfails : (if e.espErr = .ok then (true, { w.mem with motorCmdQueue := some [] })
          else (false, w.mem)).1 = false := hb
      simp only [Act.run]
      split at hfails
      case isTrue => cases hfails
      case isFalse hne =>
        rw [if_neg hne]
        exact hunborn hp
    | _ => cases h
  · refine Act.pending_after .motor a e hqueue fun hsome => ?_
    cases hc : a.createsQueue with
    | false => rfl
    | true =>
      have hp : motorPhase w.past = .unborn := by
        generalize (a.run e w.mem).1 = b at hmove
        generalize motorPhase w.past = p at hmove ⊢
        induction hmove <;> first | rfl | cases hc
      rw [hunborn hp] at hsome
      cases hsome
  · rw [hq] at h
    rw [World.did_past]
    generalize hb : (a.run e w.mem).1 = b at hmove
    generalize hp : motorPhase w.past = p at hmove
    induction hmove with
    | receive =>
      cases h
      have hcmd : (Event.did .motor .xQueueReceive (Act.xQueueReceive.run e w.mem).1 w.mem).received =
          some cmd := hb
      have horder := hI.received hcmd
      rw [World.did_past, hb] at horder
      exact horder
    | _ =>
      first
      | cases h; done
      | (cases h
         rw [currentOrder_same rfl]
         exact hcurrent _ _ hp)

/-- Other tasks do not take commands out of the queue. -/
theorem Orderly.other {w : World} {t : Tid} {β : Type} {a : Act β} {e : Input} (hI : Orderly w)
    (hmotor : motorPhase (w.did t a e).past = motorPhase w.past)
    (hreceives : (Event.did t a (a.run e w.mem).1 w.mem).receives = false)
    (hcreate : a.createsQueue = false)
    (hnone : w.mem.motorCmdQueue = none → (a.run e w.mem).2.motorCmdQueue = none) :
    Orderly (w.did t a e) := by
  obtain ⟨hunborn, hqueue, hcurrent⟩ := hI
  refine ⟨fun h => ?_, Act.pending_after t a e hqueue fun _ => hcreate, fun cmd s h => ?_⟩
  · rw [hmotor] at h
    exact hnone (hunborn h)
  · rw [hmotor] at h
    rw [World.did_past, currentOrder_same hreceives]
    exact hcurrent cmd s h

theorem ClientMove.not_owner {isMain : Bool} {β : Type} {a : Act β} {b : β} {p q : ClientPhase}
    (h : ClientMove isMain a b p q) (t : Tid) (m : Mem) :
    (Event.did t a b m).receives = false ∧ a.createsQueue = false := by
  induction h <;> exact ⟨rfl, rfl⟩

/-- In every run the history agrees with the queue. -/
theorem orderly_of_steps {C : Assumption device} {b : Boot} {c : Config Act Tid World}
    (h : Steps C b.config c) : Orderly c.shared := by
  have h0 : Orderly b.world := by
    have hphase : motorPhase b.world.past = .unborn := rfl
    refine ⟨fun _ => rfl, rfl, fun cmd s hs => ?_⟩
    rw [hphase] at hs
    cases hs
  refine system_invariant h h0 ?_ ?_ ?_ ?_
  · intro w t β a e hI hs
    have hsame : (a.run e w.mem).2.motorCmdQueue = w.mem.motorCmdQueue := hs.same .motorCmdQueue
    have hcreate : a.createsQueue = false := by
      have hquiet := hs.quiet
      induction a <;> first | rfl | cases hquiet
    exact hI.other hs.motor (Event.receives_of_quiet hs.quiet _ _) hcreate hsame.trans
  · intro w β a e q hI _ hs
    exact hI.motor hs
  · intro w t β a e q hI _ hs
    obtain ⟨hreceives, hcreate⟩ := hs.move.not_owner t w.mem
    exact hI.other hs.motor hreceives hcreate (hs.move.queue_none e)
  · intro w h m hI _ hm
    obtain ⟨hunborn, hqueue, hcurrent⟩ := hI
    have hsame : Field.motorCmdQueue.Same w.mem m := Happening.run_internal hm rfl
    refine ⟨fun hu => Eq.trans hsame (hunborn hu), ?_, hcurrent⟩
    rw [pendingOrders_same rfl rfl, hqueue]
    exact congrArg (Option.getD · []) (Eq.symm hsame)

end Ecotiter
