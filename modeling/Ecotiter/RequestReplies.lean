import Mathlib.Data.List.Forall2
import Ecotiter.RequestCommands

/-!
# Requests and their replies

Each client serves one request after the other. `ReplyPhase` follows the request it owes a reply to,
and `repliesMatch` says of every run that the replies of a client belong to its requests, one each
and in their order. The main loop answers under the id of the request; the HTTP server leaves the id
out where it only accepts a command, and the valve routes have none.
-/

namespace Ecotiter
open Interleaving Firmware

/-- The id of a line, as `parseCommand` or `extractCmdId` finds it. -/
def Request.id : Request → ℕ
  | .command cmd => cmd.id
  | .malformed id => id

/-- The id of a reply to a request on the given route. -/
def replyId : Source → Request → CommandResponse → ℕ
  | .ble, req, _ | .serial, req, _ => req.id
  | .httpCommand, .command cmd, rsp => if rsp.kind = .ackThen then 0 else cmd.id
  | _, _, _ => 0

/-- The request a client owes a reply to. -/
abbrev ReplyPhase := Option (Source × Request)

namespace ReplyPhase

/-- A request is taken when no other one is open, and answered under its id. -/
def next (p : ReplyPhase) : {β : Type} → Act β → β → Option ReplyPhase
  | _, .receiveRequest source, req =>
    if p = none then some (req.map fun req => (source, req)) else none
  | _, .respond rsp, _ =>
    match p with
    | some (source, req) => if rsp.id = replyId source req rsp then some none else none
    | none => none
  | _, _, _ => some p

end ReplyPhase

def replyProtocol : Protocol Act ReplyPhase := ⟨fun p _ a b => p.next a b⟩

/-- What is done between a request and its reply. -/
def Act.betweenReplies : {β : Type} → Act β → Bool
  | _, .receiveRequest _ | _, .respond _ => false
  | _, _ => true

theorem ReplyPhase.next_of_between (p : ReplyPhase) {β : Type} {a : Act β} (b : β)
    (ha : a.betweenReplies) : p.next a b = some p := by
  induction a <;> first | rfl | cases ha

/-! ## The clients -/

section Clients
variable {α : Type} {p : ReplyPhase}

theorem replies_between {prog : Firmware α} (h : prog.Only Act.betweenReplies) (p : ReplyPhase) :
    replyProtocol.Conforms (fun _ q => q = p) prog p :=
  h.keeps fun _ b ha => p.next_of_between b ha

theorem between_of_sending {P : MotorCommand → Bool} {prog : Firmware α}
    (h : prog.Only (Act.sending P)) : prog.Only Act.betweenReplies :=
  h.mono fun a ha => by induction a <;> first | rfl | cases ha

/-- `dispatch` answers under the id of its command. -/
theorem replies_dispatch (cmd : Command) (p : ReplyPhase) :
    replyProtocol.Conforms (fun rsp q => rsp.id = cmd.id ∧ q = p) (dispatch cmd) p := by
  refine (replies_between (between_of_sending (only_handlerOf cmd)) p).bind ?_
  intro rsp q hq
  exact Protocol.conforms_pure.mpr ⟨rfl, hq⟩

theorem replies_respond {source : Source} {req : Request} {rsp : CommandResponse}
    (hid : rsp.id = replyId source req rsp) :
    replyProtocol.Conforms (fun _ q => q = none) (Program.perform (.respond rsp))
      (some (source, req)) :=
  Protocol.conforms_act.mpr fun _ => ⟨none, if_pos hid, Protocol.conforms_ret.mpr rfl⟩

theorem replies_receive {source : Source} {k : Option Request → Firmware α}
    {Q : α → ReplyPhase → Prop}
    (h : ∀ req, replyProtocol.Conforms Q (k req) (req.map fun req => (source, req))) :
    replyProtocol.Conforms Q (Program.perform (.receiveRequest source) >>= k) none := by
  refine .perform fun req => ⟨_, ?_, h req⟩
  rfl

theorem replies_handleLine {source : Source} {line : Request}
    (hs : source = .ble ∨ source = .serial) :
    replyProtocol.Conforms (fun _ q => q = none) (MainLoop.handleLine line)
      (some (source, line)) := by
  have hid : ∀ rsp, replyId source line rsp = line.id := by
    intro rsp
    rcases hs with rfl | rfl <;> rfl
  cases line with
  | malformed id => exact replies_respond (hid _).symm
  | command cmd =>
    refine (replies_dispatch cmd _).bind ?_
    rintro rsp q ⟨hrsp, rfl⟩
    have hanswer : rsp.id = replyId source (.command cmd) rsp := hrsp.trans (hid rsp).symm
    split
    · exact .perform fun _ => ⟨_, rfl, replies_respond hanswer⟩
    · exact replies_respond hanswer

theorem replies_appMain :
    replyProtocol.Conforms (fun _ _ => True) MainLoop.appMain none := by
  have hdrainBle : replyProtocol.Conforms (fun _ q => q = none) MainLoop.drainBle none := by
    refine Protocol.Conforms.iterate (fun _ q => q = none) ?_ rfl
    rintro _ _ rfl
    refine replies_receive fun line => ?_
    cases line with
    | none => exact Protocol.conforms_pure.mpr rfl
    | some line =>
      refine (replies_handleLine (.inl rfl)).bind ?_
      intro _ q hq
      exact Protocol.conforms_pure.mpr hq
  have hrest : replyProtocol.Conforms (Sum.elim (fun _ q => q = none) fun _ _ => True)
      (do MainLoop.drainResult; vTaskDelay 10; return (.inl () : Unit ⊕ Unit)) none := by
    refine (replies_between (between_of_sending request_servingRule.drain) none).bind ?_
    rintro _ _ rfl
    exact .perform fun _ => ⟨none, rfl, Protocol.conforms_pure.mpr rfl⟩
  refine Protocol.Conforms.iterate (fun _ q => q = none) ?_ rfl
  rintro _ _ rfl
  refine hdrainBle.bind ?_
  rintro _ _ rfl
  refine replies_receive fun line => ?_
  cases line with
  | none => exact hrest
  | some line =>
    refine (replies_handleLine (.inr rfl)).bind ?_
    rintro _ _ rfl
    exact hrest

theorem replies_handleCommandCore {source : Source} {req : Request} {cmd : Command}
    (hid : ∀ rsp, replyId source req rsp = cmd.id) :
    replyProtocol.Conforms (fun _ q => q = none) (RestApi.handleCommandCore cmd)
      (some (source, req)) := by
  refine (replies_dispatch cmd _).bind ?_
  rintro rsp q ⟨hrsp, rfl⟩
  exact replies_respond (hrsp.trans (hid rsp).symm)

theorem replies_commandHandler (req : Request) :
    replyProtocol.Conforms (fun _ q => q = none) (RestApi.commandHandler req)
      (some (.httpCommand, req)) := by
  cases req with
  | malformed id =>
    apply replies_respond
    rfl
  | command cmd =>
    refine (replies_dispatch cmd _).bind ?_
    rintro rsp q ⟨hrsp, rfl⟩
    apply replies_respond
    by_cases hack : rsp.kind = .ackThen
    · rw [if_pos hack]
      rfl
    · rw [if_neg hack]
      exact hrsp.trans (if_neg hack).symm

theorem replies_valvePostHandler (req : Request) :
    replyProtocol.Conforms (fun _ q => q = none) (RestApi.valvePostHandler req)
      (some (.httpValvePost, req)) := by
  cases req with
  | malformed id =>
    apply replies_respond
    rfl
  | command cmd =>
    unfold RestApi.valvePostHandler
    dsimp only
    cases cmd.valvePos with
    | none =>
      apply replies_respond
      rfl
    | some pos =>
      apply replies_handleCommandCore
      exact fun _ => rfl

theorem replies_route {source : Source} {handler : Request → Firmware Unit} {rest : Firmware α}
    {Q : α → ReplyPhase → Prop}
    (hhandler : ∀ req, replyProtocol.Conforms (fun _ q => q = none) (handler req)
      (some (source, req))) (hrest : replyProtocol.Conforms Q rest none) :
    replyProtocol.Conforms Q
      (do match ← Program.perform (.receiveRequest source) with
          | some req => handler req
          | none => pure ()
          rest) none := by
  refine replies_receive fun req => ?_
  cases req with
  | none => exact hrest
  | some req =>
    refine (hhandler req).bind ?_
    rintro _ _ rfl
    exact hrest

theorem replies_serve : replyProtocol.Conforms (fun _ _ => True) RestApi.serve none := by
  refine Protocol.Conforms.iterate (fun _ q => q = none) ?_ rfl
  rintro _ _ rfl
  refine replies_route replies_commandHandler (replies_route replies_valvePostHandler ?_)
  refine replies_route (fun req => ?_) (Protocol.conforms_pure.mpr rfl)
  apply replies_handleCommandCore
  exact fun _ => rfl

end Clients

/-! ## Runs of the device -/

/-- The phase of a task in the protocol of replies; the other tasks serve nobody. -/
def ServicePhase : Tid → Type
  | .main | .http => ReplyPhase
  | .motor => MotorPhase
  | .timer => TimerPhase

def serviceProtocol : ∀ t, Protocol Act (ServicePhase t)
  | .main | .http => replyProtocol
  | .motor => motorProtocol
  | .timer => timerProtocol

/-- The request a client owes a reply to after a history. -/
def owedReply (t : Tid) (past : List Event) : ReplyPhase := phaseAfter replyProtocol none t past

theorem owedReply_did {t : Tid} {w : World} {β : Type} {a : Act β} {e : Input} {q : ReplyPhase}
    (h : (owedReply t w.past).next a (a.run e w.mem).1 = some q) :
    owedReply t (w.did t a e).past = q :=
  phaseAfter_self h

def servicePhase : ∀ t, World → ServicePhase t
  | .main, w => owedReply .main w.past
  | .http, w => owedReply .http w.past
  | .motor, w => motorPhase w.past
  | .timer, w => timerPhase w.past

theorem tracks_servicePhase : Tracks device serviceProtocol servicePhase where
  own t β a e w p hp := by
    cases t with
    | main | http => exact owedReply_did hp
    | motor => exact tracks_taskPhase.own .motor a e w p hp
    | timer => exact tracks_taskPhase.own .timer a e w p hp
  other i j β a e w hj := by
    cases j with
    | main | http => exact phaseAfter_other hj.symm a (a.run e w.mem).1 w.mem w.past
    | motor => exact tracks_taskPhase.other i .motor a e w hj
    | timer => exact tracks_taskPhase.other i .timer a e w hj
  env j h w w' hw := by
    obtain ⟨m, -, rfl⟩ := device_env hw
    cases j <;> rfl

theorem Boot.obeysService (b : Boot) : b.config.Obeys serviceProtocol servicePhase := by
  intro t
  cases t with
  | main => exact replies_appMain
  | http => exact replies_serve
  | motor => exact b.obeys .motor
  | timer => exact b.obeys .timer

/-- The request a task takes in an event. -/
def Event.request (t : Tid) : Event → Option (Source × Request)
  | .did t' (.receiveRequest source) req _ =>
    if t' = t then req.map fun req => (source, req) else none
  | _ => none

/-- The reply of a task in an event. -/
def Event.reply (t : Tid) : Event → Option CommandResponse
  | .did t' (.respond rsp) _ _ => if t' = t then some rsp else none
  | _ => none

/-- The requests a task has taken, oldest first. -/
def requests (t : Tid) : List Event → List (Source × Request)
  | [] => []
  | ev :: past => requests t past ++ (ev.request t).toList

/-- The replies a task has given, oldest first. -/
def replies (t : Tid) : List Event → List CommandResponse
  | [] => []
  | ev :: past => replies t past ++ (ev.reply t).toList

/-- A reply carries the id of a reply to the request. -/
def Replies (req : Source × Request) (rsp : CommandResponse) : Prop :=
  rsp.id = replyId req.1 req.2 rsp

/-- All requests but the one that is still owed have their reply. -/
def RepliesMatch (t : Tid) (past : List Event) : Prop :=
  ∃ answered, requests t past = answered ++ (owedReply t past).toList ∧
    List.Forall₂ Replies answered (replies t past)

section Step
variable {t : Tid} {β : Type} {a : Act β} {b : β} {m : Mem} {past : List Event}

theorem RepliesMatch.keeps {ev : Event} (h : RepliesMatch t past) (hreq : ev.request t = none)
    (hrsp : ev.reply t = none) (howed : owedReply t (ev :: past) = owedReply t past) :
    RepliesMatch t (ev :: past) := by
  obtain ⟨answered, hrequests, hall⟩ := h
  refine ⟨answered, ?_, ?_⟩
  · rw [requests, hreq, howed, hrequests]
    exact List.append_nil _
  · rw [replies, hrsp, Option.toList_none, List.append_nil]
    exact hall

theorem RepliesMatch.step (h : RepliesMatch t past) {q : ReplyPhase}
    (hnext : (owedReply t past).next a b = some q) : RepliesMatch t (.did t a b m :: past) := by
  have hafter : owedReply t (.did t a b m :: past) = q := phaseAfter_self hnext
  induction a with
  | receiveRequest source =>
    obtain ⟨answered, hrequests, hall⟩ := h
    have howed : owedReply t past = none := by
      by_contra hne
      rw [ReplyPhase.next, if_neg hne] at hnext
      cases hnext
    rw [ReplyPhase.next, if_pos howed] at hnext
    obtain rfl := Option.some.inj hnext
    refine ⟨answered, ?_, ?_⟩
    · rw [hafter, requests, hrequests, howed, Event.request, if_pos rfl]
      simp
    · have hreply : (Event.did t (.receiveRequest source) b m).reply t = none := rfl
      rw [replies, hreply, Option.toList_none, List.append_nil]
      exact hall
  | respond rsp =>
    obtain ⟨answered, hrequests, hall⟩ := h
    cases howed : owedReply t past with
    | none =>
      rw [howed] at hnext
      cases hnext
    | some owed =>
      obtain ⟨source, req⟩ := owed
      rw [howed] at hnext hrequests
      have hreply : Replies (source, req) rsp ∧ q = none := by
        by_cases hid : rsp.id = replyId source req rsp
        · exact ⟨hid, (Option.some.inj ((if_pos hid).symm.trans hnext)).symm⟩
        · cases (if_neg hid).symm.trans hnext
      refine ⟨answered ++ [(source, req)], ?_, ?_⟩
      · rw [hafter, hreply.2, requests, hrequests]
        rfl
      · rw [replies, Event.reply, if_pos rfl]
        exact List.rel_append hall (.cons hreply.1 .nil)
  | _ =>
    obtain rfl := Option.some.inj hnext
    exact h.keeps rfl rfl hafter

theorem RepliesMatch.other {t' : Tid} (h : RepliesMatch t past) (ht : t' ≠ t) :
    RepliesMatch t (.did t' a b m :: past) := by
  have howed : owedReply t (.did t' a b m :: past) = owedReply t past :=
    phaseAfter_other ht a b m past
  refine h.keeps ?_ ?_ howed
  · induction a <;> first | rfl | exact if_neg ht
  · induction a <;> first | rfl | exact if_neg ht

end Step

/-- In every run the replies of a client are those to its requests, one each, in the order of the
requests and under their ids; at most the last request is still without one. -/
theorem repliesMatch {b : Boot} {c : Config Act Tid World} (h : Reachable b c) {t : Tid}
    (ht : t.isClient) :
    ∃ answered owed, requests t c.shared.past = answered ++ Option.toList owed ∧
      List.Forall₂ Replies answered (replies t c.shared.past) := by
  have hruns := (Steps.obeying tracks_servicePhase h b.obeysService).1
  have hmatch : RepliesMatch t c.shared.past := by
    refine hruns.invariant (I := fun w => RepliesMatch t w.past) ⟨[], rfl, .nil⟩ ?_ ?_
    · intro s β a e w hI _ hallows
      obtain ⟨-, q, hnext, -⟩ := hallows
      by_cases hst : s = t
      · subst hst
        cases s with
        | main | http => exact hI.step hnext
        | motor | timer => cases ht
      · exact hI.other hst
    · intro h w w' hI _ _ hw
      obtain ⟨m, -, rfl⟩ := device_env hw
      exact hI.keeps rfl rfl rfl
  obtain ⟨answered, hrequests, hall⟩ := hmatch
  exact ⟨answered, _, hrequests, hall⟩

/-- A line that does not parse is answered under the id found in it. -/
theorem repliesMatch_malformed :
    ∃ (c : Config Act Tid World) (answered : _) (owed : _), replies .main c.shared.past ≠ [] ∧
      requests .main c.shared.past = answered ++ Option.toList owed ∧
      List.Forall₂ Replies answered (replies .main c.shared.past) := by
  have hrun : (device.run (.any device)
      (Script.turns .main 2 ++ [.thread .main (.request (.malformed 5)), .thread .main .nothing])
      ({} : Boot).config).any (fun c => (replies .main c.shared.past).isEmpty = false) = true := by
    decide
  obtain ⟨c, hsteps, hc⟩ := Machine.exists_of_run hrun
  obtain ⟨answered, owed, hrequests, hall⟩ :=
    repliesMatch (b := {}) (t := .main) hsteps.weaken rfl
  exact ⟨c, answered, owed, by simpa using hc, hrequests, hall⟩

end Ecotiter
