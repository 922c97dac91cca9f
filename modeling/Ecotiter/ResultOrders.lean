import Ecotiter.RequestCommands
import Ecotiter.ResultQueue

/-!
# The orders behind the results

An order that was accepted is in the command queue, executed by the motor task, behind the unread
result or behind the result the main loop is writing a line for. These places are read off the
history, and the tasks agree with them.
-/

namespace Ecotiter
open Interleaving

/-- The execution of the order ends with a result. -/
def Order.producesResult (o : Order) : Bool := o.cmd.type.producesResult

/-- The id of the result line an event writes. -/
def Event.line : Event → Option ℕ
  | .did _ (.resultLine id _ _) _ _ => some id
  | _ => none

/-- The order a result is awaited of. -/
def executingOrder : List Event → Option Order
  | [] => none
  | ev :: past =>
    if ev.receives then (pendingOrders past).head?.filter Order.producesResult
    else if ev.publishes.isSome then none
    else executingOrder past

/-- The order the unread result is of. -/
def unreadOrder : List Event → Option Order
  | [] => none
  | ev :: past =>
    if ev.publishes.isSome then executingOrder past
    else if ev.drains then none
    else unreadOrder past

/-- The order the drained result is of. -/
def drainingOrder : List Event → Option Order
  | [] => none
  | ev :: past =>
    if ev.drains then unreadOrder past
    else if ev.line.isSome then none
    else drainingOrder past

/-- The orders no line was written for, oldest first. -/
def outstandingOrders (past : List Event) : List Order :=
  (drainingOrder past).toList ++ (unreadOrder past).toList ++ (executingOrder past).toList ++
    (pendingOrders past).filter Order.producesResult

/-- The orders that were accepted. -/
def acceptedOrders : List Event → List Order
  | [] => []
  | ev :: past => acceptedOrders past ++ (ev.order past).toList.filter Order.producesResult

/-- The orders the lines are of. -/
def answeredOrders : List Event → List Order
  | [] => []
  | ev :: past =>
    answeredOrders past ++ if ev.line.isSome then (drainingOrder past).toList else []

/-- The event moves no order from one place to the next. -/
structure Event.Unrelated (ev : Event) : Prop where
  receives : ev.receives = false
  publishes : ev.publishes = none
  drains : ev.drains = false
  line : ev.line = none

section Places
variable {ev : Event} {past : List Event} {o : Order}

theorem executingOrder_same (h : ev.Unrelated) :
    executingOrder (ev :: past) = executingOrder past := by
  rw [executingOrder, h.receives, h.publishes]
  rfl

theorem unreadOrder_same (h : ev.Unrelated) : unreadOrder (ev :: past) = unreadOrder past := by
  rw [unreadOrder, h.publishes, h.drains]
  rfl

theorem drainingOrder_same (h : ev.Unrelated) :
    drainingOrder (ev :: past) = drainingOrder past := by
  rw [drainingOrder, h.drains, h.line]
  rfl

theorem answeredOrders_same (h : ev.line = none) :
    answeredOrders (ev :: past) = answeredOrders past := by
  rw [answeredOrders, h]
  exact List.append_nil _

theorem acceptedOrders_same (h : ev.order past = none) :
    acceptedOrders (ev :: past) = acceptedOrders past := by
  rw [acceptedOrders, h]
  exact List.append_nil _

/-- An event that moves no order adds the order it puts into the queue. -/
theorem outstandingOrders_same (h : ev.Unrelated) :
    outstandingOrders (ev :: past) =
      outstandingOrders past ++ (ev.order past).toList.filter Order.producesResult := by
  have hpending : pendingOrders (ev :: past) = pendingOrders past ++ (ev.order past).toList := by
    rw [pendingOrders, h.receives]
    rfl
  rw [outstandingOrders, drainingOrder_same h, unreadOrder_same h, executingOrder_same h, hpending,
    List.filter_append, ← List.append_assoc]
  rfl

/-- Nothing is being executed when the motor task takes a command. -/
theorem outstandingOrders_receive (hr : ev.receives) (hp : ev.publishes = none)
    (hd : ev.drains = false) (hl : ev.line = none) (hfree : executingOrder past = none) :
    outstandingOrders (ev :: past) = outstandingOrders past := by
  have hexec : executingOrder (ev :: past) =
      (pendingOrders past).head?.filter Order.producesResult := by rw [executingOrder, if_pos hr]
  have hpending : pendingOrders (ev :: past) = (pendingOrders past).tail := by
    rw [pendingOrders, if_pos hr]
  have hunread : unreadOrder (ev :: past) = unreadOrder past := by
    rw [unreadOrder, hp, hd]
    rfl
  have hdraining : drainingOrder (ev :: past) = drainingOrder past := by
    rw [drainingOrder, hd, hl]
    rfl
  rw [outstandingOrders, outstandingOrders, hdraining, hunread, hexec, hpending, hfree,
    Option.toList_none, List.append_nil, List.append_assoc]
  congr 1
  cases pendingOrders past with
  | nil => rfl
  | cons o rest =>
    cases hprod : o.producesResult with
    | true => simp [Option.filter, hprod]
    | false => simp [Option.filter, hprod]

/-- A result that is published into the empty queue loses none. -/
theorem outstandingOrders_publish (hp : ev.publishes.isSome) (hr : ev.receives = false)
    (hd : ev.drains = false) (hl : ev.line = none) (ho : ev.order past = none)
    (hempty : unreadOrder past = none) :
    outstandingOrders (ev :: past) = outstandingOrders past := by
  have hexec : executingOrder (ev :: past) = none := by
    rw [executingOrder, hr, hp]
    rfl
  have hunread : unreadOrder (ev :: past) = executingOrder past := by rw [unreadOrder, if_pos hp]
  have hdraining : drainingOrder (ev :: past) = drainingOrder past := by
    rw [drainingOrder, hd, hl]
    rfl
  rw [outstandingOrders, outstandingOrders, pendingOrders_same hr ho, hexec, hunread, hdraining,
    hempty]
  simp only [Option.toList_none, List.append_nil]

theorem outstandingOrders_drain (hd : ev.drains) (hr : ev.receives = false)
    (hp : ev.publishes = none) (ho : ev.order past = none) (hnone : drainingOrder past = none) :
    outstandingOrders (ev :: past) = outstandingOrders past := by
  have hexec : executingOrder (ev :: past) = executingOrder past := by
    rw [executingOrder, hr, hp]
    rfl
  have hunread : unreadOrder (ev :: past) = none := by
    rw [unreadOrder, hp, hd]
    rfl
  have hdraining : drainingOrder (ev :: past) = unreadOrder past := by rw [drainingOrder, if_pos hd]
  rw [outstandingOrders, outstandingOrders, pendingOrders_same hr ho, hexec, hunread, hdraining,
    hnone]
  simp only [Option.toList_none, List.append_nil, List.nil_append]

/-- A line takes the oldest order off. -/
theorem outstandingOrders_line (hl : ev.line.isSome) (hd : ev.drains = false)
    (hr : ev.receives = false) (hp : ev.publishes = none) (ho : ev.order past = none) :
    outstandingOrders past = (drainingOrder past).toList ++ outstandingOrders (ev :: past) := by
  have hexec : executingOrder (ev :: past) = executingOrder past := by
    rw [executingOrder, hr, hp]
    rfl
  have hunread : unreadOrder (ev :: past) = unreadOrder past := by
    rw [unreadOrder, hp, hd]
    rfl
  have hdraining : drainingOrder (ev :: past) = none := by
    rw [drainingOrder, hd, hl]
    rfl
  rw [outstandingOrders, outstandingOrders, pendingOrders_same hr ho, hexec, hunread, hdraining]
  simp only [Option.toList_none, List.nil_append, List.append_assoc]

theorem Event.unrelated_of_quiet {t : Tid} {β : Type} {a : Act β} (ha : a.quiet) (b : β) (m : Mem) :
    (Event.did t a b m).Unrelated := by
  obtain ⟨hpublishes, hdrains⟩ := Act.notResults (Act.writes_of_quiet ha .smResultQueue) t b m
  refine ⟨receives_of_quiet ha b m, hpublishes, hdrains, ?_⟩
  induction a <;> first | rfl | cases ha

end Places

/-! ## The tasks agree with the places -/

namespace MotorPhase

/-- The operation under way has still to publish its result. -/
def awaits : MotorPhase → Bool
  | .running _ .published | .running _ .done | .running _ (.moving _ .faulted) => false
  | .running op _ => op.produces
  | _ => false

theorem awaits_moving {op : Op} {m : Motion} {p : Place} (hp : p ≠ .faulted) :
    (running op (.moving m p)).awaits = op.produces := by
  cases p with
  | faulted => exact absurd rfl hp
  | _ => rfl

end MotorPhase

theorem Op.produces_of_homes {op : Op} (h : op.homes) : op.produces = false := by
  cases op with
  | homing => rfl
  | command cmd =>
    have ht : cmd.type = .home := of_decide_eq_true h
    rw [Op.produces, ht]
    rfl

theorem Op.produces_of_moveSteps {op : Op} (h : op.hasType .moveSteps) : op.produces := by
  cases op with
  | homing => cases h
  | command cmd =>
    have ht : cmd.type = .moveSteps := of_decide_eq_true h
    rw [Op.produces, ht]
    rfl

theorem Op.produces_of_restores {op : Op} (h : op.restores = false) : op.produces = false := by
  by_contra hp
  rw [Bool.not_eq_false] at hp
  cases op with
  | homing => cases hp
  | command cmd =>
    have hr : cmd.type.restoresIdle := MotorCommandType.restoresIdle_of_producesResult hp
    rw [Op.restores, hr] at h
    cases h

section Moves
variable {β : Type} {a : Act β} {b : β} {p q : MotorPhase}

theorem MotorMove.not_client (h : MotorMove a b p q) (t : Tid) (m : Mem) :
    (Event.did t a b m).drains = false ∧ (Event.did t a b m).line = none := by
  induction h <;> exact ⟨rfl, rfl⟩

theorem MotorMove.awaits_publish (h : MotorMove a b p q) {t : Tid} {m : Mem}
    (hp : (Event.did t a b m).publishes.isSome) :
    p.awaits ∧ q.awaits = false ∧ p.hasResults ∧ (Event.did t a b m).receives = false := by
  induction h with
  | publish hop => exact ⟨hop, rfl, rfl, rfl⟩
  | @publishSteps op m p r hop hplace =>
    refine ⟨?_, rfl, rfl, rfl⟩
    cases p <;> first | exact Op.produces_of_moveSteps hop | cases hplace
  | _ => cases hp

theorem MotorMove.awaits_receive (h : MotorMove a b p q) {t : Tid} {m : Mem} {cmd : MotorCommand}
    (hr : (Event.did t a b m).received = some cmd) :
    p.awaits = false ∧ q.awaits = cmd.type.producesResult := by
  induction h with
  | receive =>
    cases hr
    exact ⟨rfl, rfl⟩
  | _ => cases hr

theorem MotorMove.awaits_same (h : MotorMove a b p q) {t : Tid} {m : Mem}
    (hp : (Event.did t a b m).publishes = none) (hr : (Event.did t a b m).receives = false) :
    q.awaits = p.awaits := by
  induction h with
  | publish | publishSteps => cases hp
  | receive => cases hr
  | finishReady hop => exact (Op.produces_of_restores hop).symm
  | restore hop hprod => exact hprod.symm
  | latchError hop => exact (Op.produces_of_restores hop).symm
  | @fault op m p hop hplace =>
    have hprod := Op.produces_of_homes hop
    cases p <;> first | exact hprod.symm | cases hplace
  | @headClear op m p hplace | @headSeen op m p _ hplace | @innerSeen op m p _ hplace
  | @chunkClear op m p hplace | @disable op m p hplace =>
    have hleft : p ≠ .faulted := by
      rintro rfl
      simp [Place.leaves] at hplace
    exact (MotorPhase.awaits_moving (by decide)).trans (MotorPhase.awaits_moving hleft).symm
  | @transmit op m symbols err hm => cases err <;> rfl
  | @await op m ms err => cases err <;> rfl
  | _ => rfl

end Moves

def ClientPhase.drains : ClientPhase → Bool
  | .draining _ _ => true
  | _ => false

section Moves
variable {isMain : Bool} {β : Type} {a : Act β} {b : β} {p q : ClientPhase}

theorem ClientMove.not_motor (h : ClientMove isMain a b p q) (t : Tid) (m : Mem) :
    (Event.did t a b m).receives = false ∧ (Event.did t a b m).publishes = none := by
  induction h <;> exact ⟨rfl, rfl⟩

theorem ClientMove.drains_same (h : ClientMove isMain a b p q) {t : Tid} {m : Mem}
    (hd : (Event.did t a b m).drains = false) (hl : (Event.did t a b m).line = none) :
    q.drains = p.drains ∧ a.writes .smResultQueue = false := by
  induction h with
  | waitNone | takeResult => cases hd
  | resultLine => cases hl
  | @receive source req =>
    cases dispatched source req <;> exact ⟨rfl, rfl⟩
  | _ => exact ⟨rfl, rfl⟩

theorem ClientMove.line_cases (h : ClientMove isMain a b p q) {t : Tid} {m : Mem} {id : ℕ}
    (hl : (Event.did t a b m).line = some id) :
    ∃ r, p = .draining r (some id) ∧ q = .waiting := by
  induction h with
  | resultLine =>
    cases hl
    exact ⟨_, rfl, rfl⟩
  | _ => cases hl

end Moves

/-- An order is in its place exactly while the task concerned is busy with it. -/
structure OrdersPlaced (w : World) : Prop where
  executing : (executingOrder w.past).isSome = (motorPhase w.past).awaits
  unread : (unreadOrder w.past).isSome = w.mem.smResultQueue.join.isSome
  draining : (drainingOrder w.past).isSome = (clientPhase .main w.past).drains
  http : (clientPhase .http w.past).drains = false

theorem unreadOrder_of_unpublished {past : List Event} (h : published past = none) :
    unreadOrder past = none := by
  induction past with
  | nil => rfl
  | cons ev past ih =>
    have hnone : ev.publishes = none ∧ published past = none := by simpa [published] using h
    rw [unreadOrder, hnone.1, ih hnone.2]
    exact ite_self _

namespace OrdersPlaced
variable {w : World} {t : Tid} {β : Type} {a : Act β} {e : Input}

/-- What moves no order keeps the agreement. -/
theorem same {w' : World} {ev : Event} (h : OrdersPlaced w) (hpast : w'.past = ev :: w.past)
    (hev : ev.Unrelated)
    (hmotor : (motorPhase w'.past).awaits = (motorPhase w.past).awaits)
    (hqueue : w'.mem.smResultQueue = w.mem.smResultQueue)
    (hclient : ∀ s : Tid, s.isClient →
      (clientPhase s w'.past).drains = (clientPhase s w.past).drains) :
    OrdersPlaced w' := by
  refine ⟨?_, ?_, ?_, (hclient .http rfl).trans h.http⟩
  · rw [hmotor, hpast, executingOrder_same hev, h.executing]
  · rw [hqueue, hpast, unreadOrder_same hev, h.unread]
  · rw [hclient .main rfl, hpast, drainingOrder_same hev, h.draining]

/-- The command that is taken is the one of the oldest order. -/
theorem executing_receive {cmd : MotorCommand} (hO : Orderly w)
    (hcmd : (Event.did t a (a.run e w.mem).1 w.mem).received = some cmd) :
    (executingOrder (w.did t a e).past).isSome = cmd.type.producesResult := by
  have hcurrent := hO.received hcmd
  have hreceives : (Event.did t a (a.run e w.mem).1 w.mem).receives := by
    rw [Event.receives, hcmd]
    rfl
  rw [World.did_past, currentOrder, if_pos hreceives] at hcurrent
  rw [World.did_past, executingOrder, if_pos hreceives]
  obtain ⟨o, ho, rfl⟩ := Option.map_eq_some_iff.mp hcurrent
  rw [ho, Option.isSome_filter]
  rfl

theorem publish {q : MotorPhase} (h : OrdersPlaced w) (hR : ResultsKept w)
    (hs : MotorStep w a e q)
    (hpublishes : (Event.did .motor a (a.run e w.mem).1 w.mem).publishes.isSome) :
    OrdersPlaced (w.did .motor a e) := by
  obtain ⟨hbefore, hafter, hresults, hreceives⟩ := hs.move.awaits_publish hpublishes
  obtain ⟨hdrains, hline⟩ := hs.move.not_client .motor w.mem
  refine ⟨?_, ?_, ?_, by rw [hs.client .http rfl, h.http]⟩
  · rw [hs.motor, hafter, World.did_past, executingOrder, hreceives, hpublishes]
    rfl
  · rw [World.did_past, unreadOrder, if_pos hpublishes, h.executing, hbefore]
    induction a with
    | xQueueOverwrite r =>
      rw [World.did_mem]
      simp [Act.run, hR.holds hresults]
    | _ => cases hpublishes
  · rw [hs.client .main rfl, World.did_past, drainingOrder, hdrains, hline, ← h.draining]
    rfl

theorem receive {q : MotorPhase} {cmd : MotorCommand} (h : OrdersPlaced w) (hO : Orderly w)
    (hs : MotorStep w a e q)
    (hcmd : (Event.did .motor a (a.run e w.mem).1 w.mem).received = some cmd) :
    OrdersPlaced (w.did .motor a e) := by
  obtain ⟨-, hafter⟩ := hs.move.awaits_receive hcmd
  obtain ⟨hdrains, hline⟩ := hs.move.not_client .motor w.mem
  have hqueue : (w.did .motor a e).mem.smResultQueue = w.mem.smResultQueue ∧
      (Event.did .motor a (a.run e w.mem).1 w.mem).publishes = none := by
    induction a with
    | xQueueReceive => exact ⟨Act.run_same (f := .smResultQueue) rfl e w.mem, rfl⟩
    | _ => cases hcmd
  refine ⟨?_, ?_, ?_, by rw [hs.client .http rfl, h.http]⟩
  · rw [executing_receive hO hcmd, hs.motor, hafter]
  · rw [hqueue.1, World.did_past, unreadOrder, hqueue.2, hdrains, ← h.unread]
    rfl
  · rw [hs.client .main rfl, World.did_past, drainingOrder, hdrains, hline, ← h.draining]
    rfl

theorem motor {q : MotorPhase} (h : OrdersPlaced w) (hO : Orderly w) (hR : ResultsKept w)
    (hs : MotorStep w a e q) : OrdersPlaced (w.did .motor a e) := by
  obtain ⟨hdrains, hline⟩ := hs.move.not_client .motor w.mem
  cases hpub : (Event.did .motor a (a.run e w.mem).1 w.mem).publishes with
  | some r => exact h.publish hR hs (by rw [hpub]; rfl)
  | none =>
    cases hrec : (Event.did .motor a (a.run e w.mem).1 w.mem).received with
    | some cmd => exact h.receive hO hs hrec
    | none =>
      have hreceives : (Event.did .motor a (a.run e w.mem).1 w.mem).receives = false := by
        rw [Event.receives, hrec]
        rfl
      have hunrelated : (Event.did .motor a (a.run e w.mem).1 w.mem).Unrelated :=
        ⟨hreceives, hpub, hdrains, hline⟩
      have hawaits := hs.move.awaits_same hpub hreceives
      by_cases hw : a.writes .smResultQueue = false
      · exact h.same rfl hunrelated (by rw [hs.motor, hawaits])
          (Act.run_same hw e w.mem) fun s hclient => by rw [hs.client s hclient]
      · have hmove := hs.move
        generalize hb : (a.run e w.mem).1 = b at hmove
        generalize hp : motorPhase w.past = p at hmove
        induction hmove with
        | createResults =>
          have hnone : unreadOrder w.past = none :=
            unreadOrder_of_unpublished (hR.absent (by rw [hp]; rfl))
          refine ⟨?_, ?_, ?_, by rw [hs.client .http rfl, h.http]⟩
          · rw [hs.motor, hawaits, World.did_past, executingOrder_same hunrelated, h.executing]
          · rw [World.did_past, unreadOrder_same hunrelated, hnone]
            rfl
          · rw [hs.client .main rfl, World.did_past, drainingOrder_same hunrelated, h.draining]
        | publish | publishSteps => cases hpub
        | _ => exact absurd rfl hw

/-- Looking into the queue takes the unread result out of it, if there is one. -/
theorem drained (h : OrdersPlaced w) {q : ClientPhase}
    (hmotor : motorPhase (w.did .main .waitResult e).past = motorPhase w.past)
    (hself : clientPhase .main (w.did .main .waitResult e).past = q)
    (hhttp : clientPhase .http (w.did .main .waitResult e).past = clientPhase .http w.past)
    (hq : q.drains = w.mem.smResultQueue.join.isSome) :
    OrdersPlaced (w.did .main .waitResult e) := by
  refine ⟨?_, ?_, ?_, by rw [hhttp, h.http]⟩
  · rw [hmotor]
    exact h.executing
  · rw [World.did_mem]
    simp only [Act.run]
    cases w.mem.smResultQueue <;> rfl
  · rw [hself, hq]
    exact h.unread

theorem drain {q : ClientPhase} (h : OrdersPlaced w) (hs : ClientStep w t a e q)
    (hd : (Event.did t a (a.run e w.mem).1 w.mem).drains) : OrdersPlaced (w.did t a e) := by
  have hmove := hs.move
  generalize hb : (a.run e w.mem).1 = b at hmove
  generalize hp : clientPhase t w.past = p at hmove
  induction hmove with
  | waitNone hmain | takeResult hmain =>
    obtain rfl : t = .main := of_decide_eq_true hmain
    have hjoin : w.mem.smResultQueue.join = _ := hb
    exact h.drained hs.motor hs.self (hs.other .http (by decide)) (by rw [hjoin]; rfl)
  | _ => cases hd

/-- Only the main loop drains results. -/
theorem main_of_draining (h : OrdersPlaced w) (ht : t.isClient)
    (hp : (clientPhase t w.past).drains) : t = .main := by
  cases t with
  | main => rfl
  | http =>
    rw [h.http] at hp
    cases hp
  | motor | timer => cases ht

theorem line {q : ClientPhase} {id : ℕ} (h : OrdersPlaced w) (hs : ClientStep w t a e q)
    (hl : (Event.did t a (a.run e w.mem).1 w.mem).line = some id) :
    OrdersPlaced (w.did t a e) := by
  obtain ⟨r, hp, rfl⟩ := hs.move.line_cases hl
  have hmain : t = .main := h.main_of_draining hs.isClient (by rw [hp]; rfl)
  subst hmain
  induction a with
  | resultLine =>
    refine ⟨?_, ?_, ?_, ?_⟩
    · rw [hs.motor]
      exact h.executing
    · rw [World.did_mem, Act.run_same (f := .smResultQueue) rfl e w.mem]
      exact h.unread
    · rw [hs.self]
      rfl
    · rw [hs.other .http (by decide), h.http]
  | _ => cases hl

theorem client {q : ClientPhase} (h : OrdersPlaced w) (hs : ClientStep w t a e q) :
    OrdersPlaced (w.did t a e) := by
  obtain ⟨hreceives, hpub⟩ := hs.move.not_motor t w.mem
  cases hd : (Event.did t a (a.run e w.mem).1 w.mem).drains with
  | true => exact h.drain hs hd
  | false =>
    cases hl : (Event.did t a (a.run e w.mem).1 w.mem).line with
    | some id => exact h.line hs hl
    | none =>
      obtain ⟨hdrains, hw⟩ := hs.move.drains_same hd hl
      refine h.same rfl ⟨hreceives, hpub, hd, hl⟩ (by rw [hs.motor])
        (Act.run_same hw e w.mem) fun s _ => ?_
      by_cases hst : s = t
      · rw [hst, hs.self, hdrains]
      · rw [hs.other s hst]

end OrdersPlaced

/-- In every run the tasks agree with the places of the orders. -/
theorem ordersPlaced_of_steps {C : Assumption device} {b : Boot} {c : Config Act Tid World}
    (h : Steps C b.config c) : OrdersPlaced c.shared := by
  have hsteps : Steps (C.within fun w => Orderly w ∧ ResultsKept w) b.config c :=
    h.within fun d hd => ⟨orderly_of_steps hd, resultsKept hd.weaken⟩
  refine system_invariant hsteps ⟨rfl, rfl, rfl, rfl⟩ ?_ ?_ ?_ ?_
  · intro w t β a e hI hs
    exact hI.same rfl (Event.unrelated_of_quiet hs.quiet _ _) (by rw [hs.motor])
      (hs.same .smResultQueue) fun s hclient => by rw [hs.client s hclient]
  · intro w β a e q hI hC hs
    exact hI.motor hC.2.1.1 hC.2.1.2 hs
  · intro w t β a e q hI _ hs
    exact hI.client hs
  · intro w h m hI _ hm
    exact hI.same rfl ⟨rfl, rfl, rfl, rfl⟩ rfl
      (Happening.run_internal (f := .smResultQueue) hm rfl) fun _ _ => rfl

end Ecotiter
