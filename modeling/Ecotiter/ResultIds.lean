import Ecotiter.ResultOrders

/-!
# The ids of the result lines

The main loop writes the id in `gLastCmdId` into every result line. It is the id of the command
behind the result only while all commands that wait for a line have the same id, and a command gets
its line only if its result is not overwritten in the queue.
-/

namespace Ecotiter
open Interleaving Firmware

/-- The id of the request an order is for. -/
def Order.id (o : Order) : Option ℕ := o.request.map Command.id

/-- The order a client has sent for the request it is serving. -/
def handedOrder (t : Tid) : List Event → Option Order
  | [] => none
  | .did t' (.receiveRequest _) _ _ :: past => if t' = t then none else handedOrder t past
  | .did t' (.respond _) _ _ :: past => if t' = t then none else handedOrder t past
  | .did t' (.xQueueSend mc) ok _ :: past =>
    if t' = t ∧ ok then some ⟨mc, serving t past⟩ else handedOrder t past
  | _ :: past => handedOrder t past

/-- The client and the response of an answer. -/
def Event.answer : Event → Option (Tid × CommandResponse)
  | .did t (.respond rsp) _ _ => some (t, rsp)
  | _ => none

/-- Every result line carries the id of the command its result is of. -/
def LinesCorrect : List Event → Prop :=
  Throughout fun ev past => ∀ id ∈ ev.line, (drainingOrder past).bind Order.id = some id

instance : DecidablePred LinesCorrect := decidableThroughout _

/-- A command is answered with `AckThen` exactly if an order that produces a result was sent for
it. -/
def Acknowledged : List Event → Prop :=
  Throughout fun ev past => ∀ t rsp cmd, ev.answer = some (t, rsp) → serving t past = some cmd →
    (rsp.kind = .ackThen ↔ ∃ o ∈ handedOrder t past, o.producesResult ∧ o.request = some cmd)

/-- Nothing is queued, executed, published or being written. -/
structure ResultsAtRest (w : World) : Prop where
  queue : w.mem.motorCmdQueue.getD [] = []
  motor : (motorPhase w.past).awaits = false
  result : w.mem.smResultQueue.join = none
  main : (clientPhase .main w.past).drains = false

/-- The result lines answer the accepted orders, each once and in order, under their own ids. -/
structure ResultsCorrelated (w : World) : Prop where
  acknowledged : Acknowledged w.past
  lines : LinesCorrect w.past
  ledger : acceptedOrders w.past = answeredOrders w.past ++ outstandingOrders w.past
  settled : ResultsAtRest w → acceptedOrders w.past = answeredOrders w.past

/-- At rest nothing is outstanding. -/
theorem OrdersPlaced.outstanding_resultsAtRest {w : World} (h : OrdersPlaced w) (hO : Orderly w)
    (hrest : ResultsAtRest w) : outstandingOrders w.past = [] := by
  have hpending : pendingOrders w.past = [] := by
    have hqueue := hO.queue
    rw [hrest.queue] at hqueue
    exact List.map_eq_nil_iff.mp hqueue
  have hexec : executingOrder w.past = none := by
    rw [← Option.isNone_iff_eq_none, ← Option.not_isSome, h.executing, hrest.motor]
    rfl
  have hunread : unreadOrder w.past = none := by
    rw [← Option.isNone_iff_eq_none, ← Option.not_isSome, h.unread, hrest.result]
    rfl
  have hdraining : drainingOrder w.past = none := by
    rw [← Option.isNone_iff_eq_none, ← Option.not_isSome, h.draining, hrest.main]
    rfl
  rw [outstandingOrders, hpending, hexec, hunread, hdraining]
  rfl

section Requests

theorem handedOrder_other {t t' : Tid} (h : t' ≠ t) {β : Type} (a : Act β) (b : β) (m : Mem)
    (past : List Event) : handedOrder t (.did t' a b m :: past) = handedOrder t past := by
  induction a <;> simp only [handedOrder, h, if_false, false_and]

theorem serving_of_quiet {s t : Tid} {β : Type} {a : Act β} (ha : a.quiet) (b : β) (m : Mem)
    (past : List Event) : serving s (.did t a b m :: past) = serving s past := by
  induction a <;> first | rfl | cases ha

theorem handedOrder_of_quiet {s t : Tid} {β : Type} {a : Act β} (ha : a.quiet) (b : β) (m : Mem)
    (past : List Event) : handedOrder s (.did t a b m :: past) = handedOrder s past := by
  induction a <;> first | rfl | cases ha

theorem Event.answer_of_quiet {t : Tid} {β : Type} {a : Act β} (ha : a.quiet) (b : β) (m : Mem) :
    (Event.did t a b m).answer = none := by
  induction a <;> first | rfl | cases ha

theorem MotorMove.no_answer {t : Tid} {β : Type} {a : Act β} {b : β} {m : Mem} {p q : MotorPhase}
    (h : MotorMove a b p q) : (Event.did t a b m).answer = none := by
  induction h <;> rfl

/-- What a client has done for the request it is serving. -/
def ClientPhase.Records (req : Option Command) (o : Option Order) : ClientPhase → Prop
  | .handling cmd (.queued mc) => req = some cmd ∧ o = some ⟨mc, some cmd⟩
  | .handling cmd (.noted mc) =>
    req = some cmd ∧ o = some ⟨mc, some cmd⟩ ∧ mc.type.producesResult
  | .handling cmd _ => req = some cmd ∧ ∀ o' ∈ o, o'.producesResult = false
  | _ => req = none ∧ o = none

theorem MotorCommandType.producesResult_of_restoresIdle {t : MotorCommandType}
    (h : t.restoresIdle = false) : t.producesResult = false := by
  cases t <;> first | rfl | cases h

theorem ClientMove.records {isMain : Bool} {t : Tid} {β : Type} {a : Act β} {b : β} {m : Mem}
    {p q : ClientPhase} {past : List Event} (h : ClientMove isMain a b p q)
    (hp : p.Records (serving t past) (handedOrder t past)) :
    q.Records (serving t (.did t a b m :: past)) (handedOrder t (.did t a b m :: past)) := by
  have hserving : ∀ mc ok, serving t (.did t (.xQueueSend mc) ok m :: past) = serving t past :=
    fun _ _ => rfl
  induction h with
  | @handOver cmd mc =>
    obtain ⟨hreq, -⟩ := hp
    have hhanded : handedOrder t (.did t (.xQueueSend mc) true m :: past) =
        some ⟨mc, serving t past⟩ := if_pos ⟨rfl, rfl⟩
    exact ⟨hreq, by rw [hhanded, hreq]⟩
  | @handOverFails cmd mc =>
    have hhanded : handedOrder t (.did t (.xQueueSend mc) false m :: past) = handedOrder t past :=
      if_neg fun h => absurd h.2 Bool.false_ne_true
    rw [hserving, hhanded]
    exact hp
  | @send cmd mc ok hmc =>
    obtain ⟨hreq, hnone⟩ := hp
    refine ⟨hreq, fun o ho => ?_⟩
    by_cases hok : t = t ∧ ok
    · have hhanded : handedOrder t (.did t (.xQueueSend mc) ok m :: past) =
          some ⟨mc, serving t past⟩ := if_pos hok
      rw [hhanded, Option.mem_some_iff] at ho
      rw [← ho]
      exact MotorCommandType.producesResult_of_restoresIdle hmc
    · have hhanded : handedOrder t (.did t (.xQueueSend mc) ok m :: past) = handedOrder t past :=
        if_neg hok
      rw [hhanded] at ho
      exact hnone o ho
  | storeId hmain hmc =>
    obtain ⟨hreq, ho⟩ := hp
    exact ⟨hreq, ho, hmc⟩
  | @receiveNone source =>
    have hserving : serving t (.did t (.receiveRequest source) none m :: past) = none := if_pos rfl
    have hhanded : handedOrder t (.did t (.receiveRequest source) none m :: past) = none :=
      if_pos rfl
    exact ⟨hserving, hhanded⟩
  | @receive source req =>
    have hserving : serving t (.did t (.receiveRequest source) (some req) m :: past) =
        dispatched source req := if_pos rfl
    have hhanded : handedOrder t (.did t (.receiveRequest source) (some req) m :: past) = none :=
      if_pos rfl
    rw [hserving, hhanded]
    cases dispatched source req with
    | none => exact ⟨rfl, rfl⟩
    | some cmd => exact ⟨rfl, fun o ho => by cases ho⟩
  | @refuse rsp | @answer cmd s rsp =>
    have hserving : serving t (.did t (.respond rsp) () m :: past) = none := if_pos rfl
    have hhanded : handedOrder t (.did t (.respond rsp) () m :: past) = none := if_pos rfl
    exact ⟨hserving, hhanded⟩
  | _ => exact hp

/-- The stages in which a request is accepted are those in which an order with a result was
sent. -/
theorem ClientPhase.Records.accepted {req : Option Command} {o : Option Order} {cmd : Command}
    {s : ClaimStage} (h : (ClientPhase.handling cmd s).Records req o) :
    s.accepted ↔ ∃ o' ∈ o, o'.producesResult ∧ o'.request = some cmd := by
  have hnone : s.accepted = false → (∀ o' ∈ o, o'.producesResult = false) →
      (s.accepted ↔ ∃ o' ∈ o, o'.producesResult ∧ o'.request = some cmd) := by
    intro hs ho
    rw [hs]
    refine iff_of_false Bool.false_ne_true ?_
    rintro ⟨o', ho', hprod, -⟩
    rw [ho o' ho'] at hprod
    cases hprod
  cases s with
  | queued mc =>
    obtain ⟨-, rfl⟩ := h
    simp [ClaimStage.accepted, Order.producesResult]
  | noted mc =>
    obtain ⟨-, rfl, hmc⟩ := h
    simp [ClaimStage.accepted, Order.producesResult, hmc]
  | _ => exact hnone rfl h.2

/-- The history agrees with the clients on what they are serving. -/
structure RequestsFollowed (w : World) : Prop where
  records : ∀ t : Tid, t.isClient →
    (clientPhase t w.past).Records (serving t w.past) (handedOrder t w.past)
  acknowledged : Acknowledged w.past

theorem requestsFollowed_of_steps {C : Assumption device} {b : Boot} {c : Config Act Tid World}
    (h : Steps C b.config c) : RequestsFollowed c.shared := by
  have hkeep : ∀ {w w' : World} {ev : Event}, RequestsFollowed w → w'.past = ev :: w.past →
      ev.answer = none → (∀ t : Tid, t.isClient →
        clientPhase t w'.past = clientPhase t w.past ∧ serving t w'.past = serving t w.past ∧
          handedOrder t w'.past = handedOrder t w.past) → RequestsFollowed w' := by
    intro w w' ev hI hpast hanswer hsame
    refine ⟨fun t ht => ?_, ?_⟩
    · obtain ⟨hphase, hserving, hhanded⟩ := hsame t ht
      rw [hphase, hserving, hhanded]
      exact hI.records t ht
    · rw [hpast]
      refine ⟨fun t rsp cmd h => ?_, hI.acknowledged⟩
      rw [hanswer] at h
      cases h
  have h0 : RequestsFollowed b.world := by
    refine ⟨fun t ht => ?_, trivial⟩
    cases t with
    | main | http => exact ⟨rfl, rfl⟩
    | motor | timer => cases ht
  refine system_invariant h h0 ?_ ?_ ?_ ?_
  · intro w t β a e hI hs
    exact hkeep hI rfl (Event.answer_of_quiet hs.quiet _ _) fun s hclient =>
      ⟨hs.client s hclient, serving_of_quiet hs.quiet _ _ _, handedOrder_of_quiet hs.quiet _ _ _⟩
  · intro w β a e q hI _ hs
    exact hkeep hI rfl hs.move.no_answer fun s hclient =>
      ⟨hs.client s hclient, serving_other (Tid.ne_motor_of_isClient hclient).symm _ _ _ _,
        handedOrder_other (Tid.ne_motor_of_isClient hclient).symm _ _ _ _⟩
  · intro w t β a e q hI _ hs
    have hrecords := hI.records t hs.isClient
    refine ⟨fun s hclient => ?_, ?_, hI.acknowledged⟩
    · by_cases hst : s = t
      · rw [hst, hs.self]
        exact hs.move.records hrecords
      · rw [hs.other s hst, World.did_past, serving_other (Ne.symm hst),
          handedOrder_other (Ne.symm hst)]
        exact hI.records s hclient
    · intro s rsp cmd hanswer hserving
      have hmove := hs.move
      generalize (a.run e w.mem).1 = b at hmove hanswer
      generalize hp : clientPhase t w.past = p at hmove hrecords
      induction hmove with
      | refuse =>
        cases hanswer
        rw [hrecords.1] at hserving
        cases hserving
      | @answer cmd' st rsp' hst hrsp =>
        cases hanswer
        have hreq : serving t w.past = some cmd' := by
          cases st with
          | queued mc | noted mc => exact hrecords.1
          | _ => exact hrecords.1
        obtain rfl : cmd' = cmd := Option.some.inj (hreq.symm.trans hserving)
        exact hrsp.trans hrecords.accepted
      | _ => cases hanswer
  · intro w h m hI _ _
    exact hkeep hI rfl rfl fun _ _ => ⟨rfl, rfl, rfl⟩

end Requests

section Ids

/-- The id the main loop is about to store. -/
def ClientPhase.idToStore : ClientPhase → Option ℕ
  | .handling cmd (.queued mc) => if mc.type.producesResult then some cmd.id else none
  | _ => none

/-- The id the main loop has loaded for the result it is draining. -/
def ClientPhase.loadedId : ClientPhase → Option ℕ
  | .draining _ id => id
  | _ => none

/-- Every order that waits for a line has the id of the request that is served, and if there is none
the line of this request will carry its id. -/
def Correlates (t : Tid) (w : World) : Bool :=
  (outstandingOrders w.past).all (fun o => o.id = (serving t w.past).map Command.id) &&
    (t = .main || !(outstandingOrders w.past).isEmpty ||
      (serving t w.past).map Command.id = some w.mem.lastCmdId)

/-- A command that produces a result is sent only if its result line will carry its id, and a result
is published only when the previous one has been read. -/
def idsAgree : Guard device where
  allows t _ a _ w :=
    match a with
    | .xQueueSend mc => !mc.type.producesResult || !w.mem.motorQueueHasRoom || Correlates t w
    | .xQueueOverwrite _ => w.mem.smResultQueue.join.isNone
    | _ => true
  allowsEnv _ _ := true

theorem Mem.hasRoom_of_send {e : Input} {m : Mem} {mc : MotorCommand}
    (h : ((Act.xQueueSend mc).run e m).1 = true) : m.motorQueueHasRoom := by
  obtain ⟨q, hq, -⟩ := Act.run_send h
  simp only [Act.run, hq] at h
  split at h
  case isTrue hlen => simp [motorQueueHasRoom, hq, hlen]
  case isFalse => cases h

theorem correlates_of_allowed {t : Tid} {e : Input} {w : World} {mc : MotorCommand}
    (h : idsAgree.allows t (.xQueueSend mc) e w) (hroom : w.mem.motorQueueHasRoom)
    (hprod : mc.type.producesResult) : Correlates t w := by
  have h : (!mc.type.producesResult || !w.mem.motorQueueHasRoom || Correlates t w) = true := h
  rw [hprod, hroom] at h
  exact h

/-- The id that `gLastCmdId` has when the main loop drains its next result. -/
def World.currentId (w : World) : ℕ :=
  (clientPhase .main w.past).idToStore.getD w.mem.lastCmdId

theorem ClientMove.loaded {isMain : Bool} {β : Type} {a : Act β} {e : Input} {m : Mem}
    {p q : ClientPhase} (h : ClientMove isMain a (a.run e m).1 p q)
    (hp : ∀ id ∈ p.loadedId, id = m.lastCmdId) : ∀ id ∈ q.loadedId, id = m.lastCmdId := by
  have hnone : ∀ {q : ClientPhase}, q.loadedId = none → ∀ id ∈ q.loadedId, id = m.lastCmdId := by
    intro q hq id hid
    rw [hq] at hid
    cases hid
  generalize hb : (a.run e m).1 = b at h
  induction h with
  | drainId =>
    intro id hid
    exact (Option.some.inj hid).symm.trans hb.symm
  | @receive source req =>
    refine hnone ?_
    cases dispatched source req <;> rfl
  | claim | handOver | storeId | takeResult | refuse | answer | resultLine | release | leak =>
    exact hnone rfl
  | _ => exact hp

/-- Only the sending of a command and the storing of its id change the id to be stored. -/
theorem ClientMove.idToStore_same {isMain : Bool} {t : Tid} {β : Type} {a : Act β} {b : β} {m : Mem}
    {p q : ClientPhase} {past : List Event} (h : ClientMove isMain a b p q) (hmain : isMain)
    (hw : a.writes .lastCmdId = false)
    (ho : ((Event.did t a b m).order past).toList.filter Order.producesResult = []) :
    q.idToStore = p.idToStore := by
  induction h with
  | @handOver cmd mc hmc =>
    have hprod : mc.type.producesResult = false := by
      by_contra hprod
      rw [Bool.not_eq_false] at hprod
      have hfilter := List.filter_eq_nil_iff.mp ho ⟨mc, serving t past⟩ (List.mem_singleton_self _)
      exact hfilter hprod
    simp only [ClientPhase.idToStore, hprod]
    rfl
  | @answer cmd s rsp hs hrsp hnoted =>
    cases s with
    | queued mc =>
      cases hprod : mc.type.producesResult with
      | true =>
        obtain ⟨mc', hmc'⟩ := hnoted hmain hprod
        cases hmc'
      | false =>
        simp only [ClientPhase.idToStore, hprod]
        rfl
    | _ => rfl
  | storeId => cases hw
  | @receive source req =>
    cases dispatched source req <;> rfl
  | _ => rfl

structure IdsKept (w : World) : Prop where
  lines : LinesCorrect w.past
  ledger : acceptedOrders w.past = answeredOrders w.past ++ outstandingOrders w.past
  tagged : ∀ o ∈ outstandingOrders w.past, o.id = some w.currentId
  waited : (clientPhase .main w.past).idToStore.isSome → outstandingOrders w.past ≠ []
  loaded : ∀ id ∈ (clientPhase .main w.past).loadedId, id = w.mem.lastCmdId

namespace IdsKept
variable {w : World} {t : Tid} {β : Type} {a : Act β} {e : Input}

/-- An event that neither writes a line nor changes what is outstanding. -/
theorem keeps {w' : World} {ev : Event} (h : IdsKept w) (hpast : w'.past = ev :: w.past)
    (hline : ev.line = none)
    (haccepted : (ev.order w.past).toList.filter Order.producesResult = [])
    (hout : outstandingOrders w'.past = outstandingOrders w.past)
    (hid : w'.currentId = w.currentId)
    (hstore : (clientPhase .main w'.past).idToStore.isSome →
      (clientPhase .main w.past).idToStore.isSome)
    (hloaded : ∀ id ∈ (clientPhase .main w'.past).loadedId, id = w'.mem.lastCmdId) :
    IdsKept w' := by
  refine ⟨?_, ?_, fun o ho => ?_, fun hs => ?_, hloaded⟩
  · rw [hpast]
    refine ⟨fun id hid => ?_, h.lines⟩
    rw [hline] at hid
    cases hid
  · rw [hout, hpast, acceptedOrders, haccepted, List.append_nil, answeredOrders_same hline]
    exact h.ledger
  · rw [hout] at ho
    rw [hid]
    exact h.tagged o ho
  · rw [hout]
    exact h.waited (hstore hs)

/-- The same where the clients and `gLastCmdId` are not concerned. -/
theorem keepsIds {w' : World} {ev : Event} (h : IdsKept w) (hpast : w'.past = ev :: w.past)
    (hline : ev.line = none)
    (haccepted : (ev.order w.past).toList.filter Order.producesResult = [])
    (hout : outstandingOrders w'.past = outstandingOrders w.past)
    (hmain : clientPhase .main w'.past = clientPhase .main w.past)
    (hid : w'.mem.lastCmdId = w.mem.lastCmdId) : IdsKept w' := by
  refine h.keeps hpast hline haccepted hout ?_ ?_ ?_
  · rw [World.currentId, World.currentId, hmain, hid]
  · rw [hmain]
    exact id
  · rw [hmain, hid]
    exact h.loaded

theorem motor {q : MotorPhase} (h : IdsKept w) (hP : OrdersPlaced w)
    (hC : idsAgree.allows .motor a e w) (hs : MotorStep w a e q) (hid : a.writes .lastCmdId = false) :
    IdsKept (w.did .motor a e) := by
  obtain ⟨hdrains, hline⟩ := hs.move.not_client .motor w.mem
  have horder := hs.move.no_order .motor w.mem w.past
  have haccepted : ((Event.did .motor a (a.run e w.mem).1 w.mem).order w.past).toList.filter
      Order.producesResult = [] := by rw [horder]; rfl
  refine h.keepsIds rfl hline haccepted ?_ (hs.client .main rfl) (Act.run_same hid e w.mem)
  cases hpub : (Event.did .motor a (a.run e w.mem).1 w.mem).publishes with
  | some r =>
    obtain ⟨-, -, -, hreceives⟩ := hs.move.awaits_publish (by rw [hpub]; rfl)
    refine outstandingOrders_publish (by rw [hpub]; rfl) hreceives hdrains hline horder ?_
    have hempty : w.mem.smResultQueue.join.isNone := by
      induction a with
      | xQueueOverwrite r => exact hC
      | _ => cases hpub
    rw [← Option.isNone_iff_eq_none, ← Option.not_isSome, hP.unread, Option.not_isSome]
    exact hempty
  | none =>
    cases hrec : (Event.did .motor a (a.run e w.mem).1 w.mem).received with
    | some cmd =>
      obtain ⟨hfree, -⟩ := hs.move.awaits_receive hrec
      refine outstandingOrders_receive (by rw [Event.receives, hrec]; rfl) hpub hdrains hline ?_
      rw [← Option.isNone_iff_eq_none, ← Option.not_isSome, hP.executing, hfree]
      rfl
    | none =>
      have hunrelated : (Event.did .motor a (a.run e w.mem).1 w.mem).Unrelated :=
        ⟨by rw [Event.receives, hrec]; rfl, hpub, hdrains, hline⟩
      rw [World.did_past, outstandingOrders_same hunrelated, haccepted, List.append_nil]

/-- A client that neither sends, nor drains, nor writes a line, nor stores an id. -/
theorem plain {q : ClientPhase} (h : IdsKept w) (hs : ClientStep w t a e q)
    (hw : a.writes .lastCmdId = false)
    (hline : (Event.did t a (a.run e w.mem).1 w.mem).line = none)
    (haccepted : ((Event.did t a (a.run e w.mem).1 w.mem).order w.past).toList.filter
      Order.producesResult = [])
    (hout : outstandingOrders (w.did t a e).past = outstandingOrders w.past) :
    IdsKept (w.did t a e) := by
  have hid : (w.did t a e).mem.lastCmdId = w.mem.lastCmdId :=
    Act.run_same (f := .lastCmdId) hw e w.mem
  by_cases ht : t = .main
  · subst ht
    have hstore := hs.move.idToStore_same rfl hw haccepted
    rw [← hs.self] at hstore
    refine h.keeps rfl hline haccepted hout ?_ ?_ ?_
    · rw [World.currentId, World.currentId, hstore, hid]
    · rw [hstore]
      exact id
    · rw [hs.self, hid]
      exact hs.move.loaded h.loaded
  · exact h.keepsIds rfl hline haccepted hout (hs.other .main (Ne.symm ht)) hid

theorem store {q : ClientPhase} (h : IdsKept w) (hs : ClientStep w t a e q)
    (hw : a.writes .lastCmdId) : IdsKept (w.did t a e) := by
  have hmove := hs.move
  generalize hb : (a.run e w.mem).1 = b at hmove
  generalize hp : clientPhase t w.past = p at hmove
  induction hmove with
  | @storeId cmd mc hmain hmc =>
    obtain rfl : t = .main := of_decide_eq_true hmain
    have hstore : ClientPhase.idToStore (.handling cmd (.queued mc)) = some cmd.id := if_pos hmc
    have hcurrent : w.currentId = cmd.id := by
      rw [World.currentId, hp, hstore]
      rfl
    refine h.keeps rfl rfl rfl ?_ ?_ ?_ ?_
    · exact (outstandingOrders_same ⟨rfl, rfl, rfl, rfl⟩).trans (List.append_nil _)
    · rw [hcurrent, World.currentId, hs.self]
      rfl
    · rw [hs.self]
      exact fun h => absurd h Bool.false_ne_true
    · rw [hs.self]
      exact fun id hid => absurd hid (Option.not_mem_none id)
  | _ => cases hw

theorem drain {q : ClientPhase} (h : IdsKept w) (hP : OrdersPlaced w) (hs : ClientStep w t a e q)
    (hd : (Event.did t a (a.run e w.mem).1 w.mem).drains) : IdsKept (w.did t a e) := by
  have hmove := hs.move
  generalize hb : (a.run e w.mem).1 = b at hmove
  generalize hp : clientPhase t w.past = p at hmove
  induction hmove with
  | waitNone hmain | takeResult hmain =>
    obtain rfl : t = .main := of_decide_eq_true hmain
    have hnone : drainingOrder w.past = none := by
      rw [← Option.isNone_iff_eq_none, ← Option.not_isSome, hP.draining, hp]
      rfl
    exact h.plain hs rfl rfl rfl (outstandingOrders_drain rfl rfl rfl rfl hnone)
  | _ => cases hd

theorem line {q : ClientPhase} (h : IdsKept w) (hP : OrdersPlaced w) (hs : ClientStep w t a e q)
    {id : ℕ} (hl : (Event.did t a (a.run e w.mem).1 w.mem).line = some id) :
    IdsKept (w.did t a e) := by
  obtain ⟨r, hp, rfl⟩ := hs.move.line_cases hl
  have hmain : t = .main := hP.main_of_draining hs.isClient (by rw [hp]; rfl)
  subst hmain
  obtain ⟨hreceives, hpub⟩ := hs.move.not_motor .main w.mem
  have hkind : (Event.did .main a (a.run e w.mem).1 w.mem).drains = false ∧
      (Event.did .main a (a.run e w.mem).1 w.mem).order w.past = none := by
    induction a with
    | resultLine => exact ⟨rfl, rfl⟩
    | _ => cases hl
  obtain ⟨hdrains, horder⟩ := hkind
  have hsome : (Event.did .main a (a.run e w.mem).1 w.mem).line.isSome := by
    rw [hl]
    rfl
  obtain ⟨o, ho⟩ : ∃ o, drainingOrder w.past = some o := by
    rw [← Option.isSome_iff_exists, hP.draining, hp]
    rfl
  have hsplit : outstandingOrders w.past = o :: outstandingOrders (w.did .main a e).past := by
    rw [outstandingOrders_line hsome hdrains hreceives hpub horder, ho]
    rfl
  have hcurrent : w.currentId = w.mem.lastCmdId := by
    rw [World.currentId, hp]
    rfl
  have hid : id = w.mem.lastCmdId := h.loaded id (by rw [hp]; rfl)
  have htagged := h.tagged
  rw [hsplit, hcurrent] at htagged
  have hkeep : (w.did .main a e).mem.lastCmdId = w.mem.lastCmdId := by
    induction a with
    | resultLine => rfl
    | _ => cases hl
  refine ⟨⟨fun id' hid' => ?_, h.lines⟩, ?_, fun o' ho' => ?_, fun hstore => ?_, fun id' hid' => ?_⟩
  · rw [hl, Option.mem_some_iff] at hid'
    rw [ho, ← hid', hid]
    exact htagged o List.mem_cons_self
  · have hanswered : answeredOrders (w.did .main a e).past = answeredOrders w.past ++ [o] := by
      rw [World.did_past, answeredOrders, if_pos hsome, ho]
      rfl
    rw [hanswered, List.append_assoc, List.singleton_append, ← hsplit, ← h.ledger]
    exact acceptedOrders_same horder
  · rw [World.currentId, hs.self, hkeep]
    exact htagged o' (List.mem_cons_of_mem _ ho')
  · rw [hs.self] at hstore
    cases hstore
  · rw [hs.self] at hid'
    cases hid'

/-- Where the guard lets the HTTP server send, the main loop will store no other id. -/
theorem current_eq {id : ℕ} (h : IdsKept w)
    (hall : ∀ o ∈ outstandingOrders w.past, decide (o.id = some id) = true)
    (hfree : outstandingOrders w.past ≠ [] ∨ id = w.mem.lastCmdId) :
    (clientPhase .main w.past).idToStore.getD w.mem.lastCmdId = id := by
  by_cases hnil : outstandingOrders w.past = []
  · have hstore : (clientPhase .main w.past).idToStore = none := by
      by_contra hstore
      exact h.waited (Option.ne_none_iff_isSome.mp hstore) hnil
    rw [hstore]
    exact (hfree.resolve_left (· hnil)).symm
  · obtain ⟨o, ho⟩ := List.exists_mem_of_ne_nil _ hnil
    have hid : o.id = some id := of_decide_eq_true (hall o ho)
    exact Option.some.inj ((h.tagged o ho).symm.trans hid)

/-- The request that is served is the one the order was sent for. -/
theorem send {q : ClientPhase} (h : IdsKept w) (hR : RequestsFollowed w)
    (hC : idsAgree.allows t a e w) (hs : ClientStep w t a e q) {o : Order}
    (ho : (Event.did t a (a.run e w.mem).1 w.mem).order w.past = some o)
    (hprod : o.producesResult) : IdsKept (w.did t a e) := by
  have hrecords := hR.records t hs.isClient
  have hmove := hs.move
  generalize hb : (a.run e w.mem).1 = b at hmove ho
  generalize hp : clientPhase t w.past = p at hmove hrecords
  induction hmove with
  | @handOver cmd mc hmc =>
    cases ho
    have hserving : serving t w.past = some cmd := hrecords.1
    have hnew : ((Event.did t (.xQueueSend mc) true w.mem).order w.past).toList.filter
        Order.producesResult = [⟨mc, some cmd⟩] := by
      rw [Event.order, hserving]
      exact List.filter_cons_of_pos hprod
    have hC := correlates_of_allowed hC (Mem.hasRoom_of_send hb) hprod
    rw [Correlates, hserving, Bool.and_eq_true, List.all_eq_true] at hC
    obtain ⟨hall, hmain⟩ := hC
    have hout : outstandingOrders (w.did t (.xQueueSend mc) e).past =
        outstandingOrders w.past ++ [⟨mc, some cmd⟩] := by
      rw [World.did_past, hb, outstandingOrders_same ⟨rfl, rfl, rfl, rfl⟩, hnew]
    have haccepted : acceptedOrders (w.did t (.xQueueSend mc) e).past =
        acceptedOrders w.past ++ [⟨mc, some cmd⟩] := by
      rw [World.did_past, hb, acceptedOrders, hnew]
    have hid : (w.did t (.xQueueSend mc) e).mem.lastCmdId = w.mem.lastCmdId :=
      Act.run_same (f := .lastCmdId) rfl e w.mem
    have hcurrent : (w.did t (.xQueueSend mc) e).currentId = cmd.id := by
      rw [World.currentId, hid]
      by_cases ht : t = .main
      · subst ht
        have hstore : ClientPhase.idToStore (.handling cmd (.queued mc)) = some cmd.id :=
          if_pos hprod
        rw [hs.self, hstore]
        rfl
      · rw [hs.other .main (Ne.symm ht)]
        exact h.current_eq hall (by simpa [ht] using hmain)
    refine ⟨⟨fun id hid => absurd hid (Option.not_mem_none id), h.lines⟩, ?_, ?_, fun _ => ?_, ?_⟩
    · have hanswered : answeredOrders (w.did t (.xQueueSend mc) e).past = answeredOrders w.past :=
        answeredOrders_same rfl
      rw [haccepted, hout, hanswered, ← List.append_assoc, h.ledger]
    · intro o ho
      rw [hout, List.mem_append, List.mem_singleton] at ho
      rw [hcurrent]
      rcases ho with ho | rfl
      · exact of_decide_eq_true (hall o ho)
      · rfl
    · rw [hout]
      exact List.append_ne_nil_of_right_ne_nil _ (List.cons_ne_nil _ _)
    · rw [hid]
      by_cases ht : t = .main
      · subst ht
        rw [hs.self]
        exact fun id hid => absurd hid (Option.not_mem_none id)
      · rw [hs.other .main (Ne.symm ht)]
        exact h.loaded
  | @send cmd mc ok hmc =>
    cases ok with
    | true =>
      cases ho
      have hnot := MotorCommandType.producesResult_of_restoresIdle hmc
      rw [Order.producesResult, hnot] at hprod
      cases hprod
    | false => cases ho
  | _ => cases ho

theorem client {q : ClientPhase} (h : IdsKept w) (hP : OrdersPlaced w) (hR : RequestsFollowed w)
    (hC : idsAgree.allows t a e w) (hs : ClientStep w t a e q) : IdsKept (w.did t a e) := by
  obtain ⟨hreceives, hpub⟩ := hs.move.not_motor t w.mem
  cases hd : (Event.did t a (a.run e w.mem).1 w.mem).drains with
  | true => exact h.drain hP hs hd
  | false =>
    cases hl : (Event.did t a (a.run e w.mem).1 w.mem).line with
    | some id => exact h.line hP hs hl
    | none =>
      by_cases hw : a.writes .lastCmdId
      · exact h.store hs hw
      · have hunrelated : (Event.did t a (a.run e w.mem).1 w.mem).Unrelated :=
          ⟨hreceives, hpub, hd, hl⟩
        have hplain : ((Event.did t a (a.run e w.mem).1 w.mem).order w.past).toList.filter
            Order.producesResult = [] → IdsKept (w.did t a e) := by
          intro hnone
          refine h.plain hs (Bool.eq_false_iff.mpr hw) hl hnone ?_
          rw [World.did_past, outstandingOrders_same hunrelated, hnone, List.append_nil]
        cases ho : (Event.did t a (a.run e w.mem).1 w.mem).order w.past with
        | none => exact hplain (by rw [ho]; rfl)
        | some o =>
          by_cases hprod : o.producesResult
          · exact h.send hR hC hs ho hprod
          · exact hplain (by simp [ho, hprod])

end IdsKept

theorem MotorMove.keepsId {β : Type} {a : Act β} {b : β} {p q : MotorPhase}
    (h : MotorMove a b p q) : a.writes .lastCmdId = false := by
  induction h <;> rfl

/-- In a run in which a command that produces a result is sent only if its result line will carry
its id, and a result is published only when the previous one has been read, the result lines answer
the accepted commands, each once, in order and under its own id. -/
theorem resultsCorrelated_of_idsAgree {b : Boot} {c : Config Act Tid World}
    (h : Steps idsAgree.assumption b.config c) : ResultsCorrelated c.shared := by
  have hsteps : Steps (idsAgree.assumption.within fun w => OrdersPlaced w ∧ RequestsFollowed w)
      b.config c :=
    h.within fun d hd => ⟨ordersPlaced_of_steps hd, requestsFollowed_of_steps hd⟩
  have h0 : IdsKept b.world := by
    refine ⟨trivial, rfl, fun o ho => ?_, fun hs => ?_, fun id hid => ?_⟩
    · cases ho
    · cases hs
    · cases hid
  have hI : IdsKept c.shared := by
    refine system_invariant hsteps h0 ?_ ?_ ?_ ?_
    · intro w t β a e hI hs
      have horder : (Event.did t a (a.run e w.mem).1 w.mem).order w.past = none :=
        Event.order_of_quiet hs.quiet _ _
      have hunrelated := Event.unrelated_of_quiet (t := t) hs.quiet (a.run e w.mem).1 w.mem
      refine hI.keepsIds rfl hunrelated.line (by rw [horder]; rfl) ?_ (hs.client .main rfl)
        (hs.same .lastCmdId)
      rw [World.did_past, outstandingOrders_same hunrelated, horder]
      exact List.append_nil _
    · intro w β a e q hI hC hs
      exact hI.motor hC.2.1.1 hC.1 hs hs.move.keepsId
    · intro w t β a e q hI hC hs
      exact hI.client hC.2.1.1 hC.2.1.2 hC.1 hs
    · intro w h m hI _ hm
      refine hI.keepsIds rfl rfl rfl ?_ rfl (Happening.run_internal (f := .lastCmdId) hm rfl)
      exact (outstandingOrders_same ⟨rfl, rfl, rfl, rfl⟩).trans (List.append_nil _)
  refine ⟨(requestsFollowed_of_steps h).acknowledged, hI.lines, hI.ledger, fun hrest => ?_⟩
  have hnone := (ordersPlaced_of_steps h).outstanding_resultsAtRest (orderly_of_steps h) hrest
  rw [hI.ledger, hnone, List.append_nil]

end Ids

/-- A motion of no steps. -/
def zeroMove (id : ℕ) : Command := { type := .moveSteps, steps := some 0, id }

/-- A motion of no steps that is asked for on the serial line, up to its result line. -/
def Script.answeredMove : Script :=
  boot ++ turns .main 3 ++ request .main (zeroMove 5) 6 ++ turns .motor 12 ++ turns .main 3

theorem resultsCorrelated_answeredMove : ∃ c, Steps idsAgree.assumption (Boot.config {}) c ∧
    c.shared.past.head?.bind Event.line = some 5 ∧ ResultsCorrelated c.shared := by
  have hrun : (device.run idsAgree Script.answeredMove (Boot.config {})).any
      (fun c => c.shared.past.head?.bind Event.line = some 5) = true := rfl
  obtain ⟨c, hsteps, hc⟩ := Machine.exists_of_run hrun
  exact ⟨c, hsteps, of_decide_eq_true hc, resultsCorrelated_of_idsAgree hsteps⟩

/-- The same request over HTTP. -/
def Script.httpMove : Script :=
  boot ++ turns .http 1 ++ request .http (zeroMove 5) 6 ++ turns .motor 12 ++ turns .main 7

/-- Its line carries the id 0, which no request had. -/
theorem httpMove_uncorrelated : ∃ c, Reachable {} c ∧ ¬ ResultsCorrelated c.shared := by
  have hrun : (device.run (Guard.any device) Script.httpMove (Boot.config {})).any
      (fun c => decide (¬ LinesCorrect c.shared.past)) = true := rfl
  obtain ⟨c, hsteps, hc⟩ := Machine.exists_of_run hrun
  exact ⟨c, hsteps.weaken, fun h => of_decide_eq_true hc h.lines⟩

end Ecotiter
