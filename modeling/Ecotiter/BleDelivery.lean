import Ecotiter.BlePhases
import Ecotiter.QueueLedger

/-!
# What the BLE link delivers

`Ledger` is what a history says about the two queues and the parties at their ends. In every
interleaving the lines of the serial port from some point on are offered to the notify thread, the
peer receives some of them, and the writes of the peer that fit are handled, each once and in order.
No queue is used before it is created.
-/

namespace Ecotiter
namespace Ble
open Interleaving QueueLedger

/-- Ends the last line. -/
def endLine (lines : List Bytes) : List Bytes :=
  lines.dropLast ++ (lines.getLast?.map (· ++ [newline])).toList

structure Ledger where
  lines : List Bytes := []                    -- of the serial port
  notifyUses : List (Use Bytes) := []
  notified : List Bytes := []                 -- what the stack accepted for the peer
  writes : List Bytes := []                   -- of the peer
  cmdUses : List (Use Bytes) := []
  handled : List Bytes := []                  -- commands of the peer

/-- The use that an offer is. -/
def useOfSend (item : Bytes) (ok : Bool) : Use Bytes := if ok then .accept item else .refuse item

def Ledger.add (l : Ledger) : Record Act Tid → Ledger
  | .did _ (.serialWrite s) _ =>
    { l with lines := if s = [newline] then endLine l.lines else l.lines ++ [s] }
  | .did _ (.xQueueSendNotify item) ok =>
    { l with notifyUses := l.notifyUses ++ [useOfSend item ok] }
  | .did _ .xQueueReceiveNotify item =>
    { l with notifyUses := l.notifyUses ++ (item.map .take).toList }
  | .did _ (.bleGattsNotifyCustom data) ok =>
    { l with notified := if ok then l.notified ++ [data] else l.notified }
  | .did _ .gapEvent ev => { l with writes := l.writes ++ ev.write?.toList }
  | .did _ (.xQueueSendCmd item) ok => { l with cmdUses := l.cmdUses ++ [useOfSend item ok] }
  | .did _ .xQueueReceiveCmd item => { l with cmdUses := l.cmdUses ++ (item.map .take).toList }
  | .did _ (.handle .ble line) _ => { l with handled := l.handled ++ [line] }
  | _ => l

def ledger : List (Record Act Tid) → Ledger
  | [] => {}
  | r :: past => (ledger past).add r

theorem Ledger.add_quiet (l : Ledger) {i : Tid} {β : Type} {a : Act β} (b : β)
    (ha : a.quiet = true) :
    l.add (.did i a b) = l := by
  induction a with
  | handle source line => cases source <;> first | rfl | cases ha
  | _ => first | rfl | cases ha

/-! ## The queues -/

theorem leads_send {cap : ℕ} {us : List (Use Bytes)} {queue : Option (List Bytes)} (item : Bytes)
    (h : Leads cap us (queue.getD [])) (hqueue : queue.isSome = true) :
    Leads cap (us ++ [useOfSend item (xQueueSend cap item queue).1])
      ((xQueueSend cap item queue).2.getD []) := by
  cases queue with
  | none => cases hqueue
  | some q =>
    rw [xQueueSend]
    by_cases hroom : q.length < cap
    · rw [if_pos hroom]
      exact h.snoc (.accept hroom)
    · rw [if_neg hroom]
      exact h.snoc (.refuse (Nat.not_lt.mp hroom))

theorem leads_receive {cap : ℕ} {us : List (Use Bytes)} {queue : Option (List Bytes)}
    (h : Leads cap us (queue.getD [])) :
    Leads cap (us ++ ((xQueueReceive queue).1.map Use.take).toList)
      ((xQueueReceive queue).2.getD []) := by
  rcases queue with _ | _ | ⟨item, q⟩
  · exact (List.append_nil us).symm ▸ h
  · exact (List.append_nil us).symm ▸ h
  · exact h.snoc .take

theorem offered_send (us : List (Use Bytes)) (item : Bytes) (ok : Bool) :
    offeredItems (us ++ [useOfSend item ok]) = offeredItems us ++ [item] := by
  cases ok <;> exact List.filterMap_append

theorem taken_send (us : List (Use Bytes)) (item : Bytes) (ok : Bool) :
    takenItems (us ++ [useOfSend item ok]) = takenItems us := by
  cases ok <;> exact List.filterMap_append.trans (List.append_nil _)

theorem offered_receive (us : List (Use Bytes)) (item : Option Bytes) :
    offeredItems (us ++ (item.map Use.take).toList) = offeredItems us := by
  cases item <;> exact List.filterMap_append.trans (List.append_nil _)

theorem taken_receive (us : List (Use Bytes)) (item : Option Bytes) :
    takenItems (us ++ (item.map Use.take).toList) = takenItems us ++ item.toList := by
  cases item <;> exact List.filterMap_append

theorem isSome_send {cap : ℕ} (item : Bytes) (queue : Option (List Bytes)) :
    (xQueueSend cap item queue).2.isSome = queue.isSome := by
  cases queue with
  | none => rfl
  | some q =>
    rw [xQueueSend]
    split <;> rfl

theorem isSome_receive (queue : Option (List Bytes)) :
    (xQueueReceive queue).2.isSome = queue.isSome := by
  rcases queue with _ | _ | ⟨item, q⟩ <;> rfl

theorem endLine_concat (lines : List Bytes) (line : Bytes) :
    endLine (lines ++ [line]) = lines ++ [line ++ [newline]] := by
  rw [endLine, List.dropLast_concat, List.getLast?_concat]
  rfl

/-! ## The invariant -/

/-- The phases of the four tasks. -/
structure Phases where
  main : MainPhase := {}
  notify : NotifyPhase := {}
  host : HostPhase := {}
  net : NetPhase := .fresh

/-- How far the start of the link has come, and who has seen it. -/
structure Started (p : Phases) (m : Mem) : Prop where
  down : p.net ≠ .created → m.cmdQueue = none ∧ m.notifyQueue = none ∧
    m.initialized = false ∧ m.hostStarted = false ∧ m.notifyStarted = false
  up : p.net = .created → m.cmdQueue.isSome = true ∧ m.notifyQueue.isSome = true
  main : p.main.linked = true ∨ p.main.ready = true → p.net = .created
  notify : p.notify.started = true → p.net = .created
  host : p.host.started = true → p.net = .created

structure Balanced (p : Phases) (m : Mem) (l : Ledger) : Prop where
  notifyLeads : Leads notifyQueueSize l.notifyUses (m.notifyQueue.getD [])
  cmdLeads : Leads cmdQueueSize l.cmdUses (m.cmdQueue.getD [])
  unused : p.net ≠ .created → l.notifyUses = [] ∧ l.cmdUses = []
  lines : ∃ early, l.lines = early ++ offeredItems l.notifyUses ++ p.main.line.toList
  notified : HandedOn p.notify.item (takenItems l.notifyUses) l.notified
  writes : l.writes.filter acceptable = offeredItems l.cmdUses ++ p.host.write.toList
  handled : (takenItems l.cmdUses).map cString = l.handled ++ (p.main.cmd.map cString).toList

theorem started_boot : Started {} {} where
  down _ := ⟨rfl, rfl, rfl, rfl, rfl⟩
  up h := by cases h
  main h := by rcases h with h | h <;> cases h
  notify h := by cases h
  host h := by cases h

theorem balanced_boot : Balanced {} {} {} where
  notifyLeads := .nil
  cmdLeads := .nil
  unused _ := ⟨rfl, rfl⟩
  lines := ⟨[], rfl⟩
  notified := ⟨[], rfl, .slnil⟩
  writes := rfl
  handled := rfl

/-- The queues and the start of the link are the same. -/
structure Mem.Same (m m' : Mem) : Prop where
  cmdQueue : m'.cmdQueue = m.cmdQueue
  notifyQueue : m'.notifyQueue = m.notifyQueue
  initialized : m'.initialized = m.initialized
  hostStarted : m'.hostStarted = m.hostStarted
  notifyStarted : m'.notifyStarted = m.notifyStarted

theorem Act.run_quiet {β : Type} {a : Act β} (ha : a.quiet = true) (e : Input) (m : Mem) :
    m.Same (a.run m e).2 := by
  induction a with
  | store v x => induction v <;> first | exact ⟨rfl, rfl, rfl, rfl, rfl⟩ | cases ha
  | _ => first | exact ⟨rfl, rfl, rfl, rfl, rfl⟩ | cases ha

section Steps
variable {p : Phases} {m m' : Mem} {l : Ledger}

theorem Started.same (h : Started p m) (hm : m.Same m') : Started p m' where
  down hnet := by
    rw [hm.cmdQueue, hm.notifyQueue, hm.initialized, hm.hostStarted, hm.notifyStarted]
    exact h.down hnet
  up hnet := by
    rw [hm.cmdQueue, hm.notifyQueue]
    exact h.up hnet
  main := h.main
  notify := h.notify
  host := h.host

theorem Balanced.same (h : Balanced p m l) (hm : m.Same m') : Balanced p m' l where
  notifyLeads := by
    rw [hm.notifyQueue]
    exact h.notifyLeads
  cmdLeads := by
    rw [hm.cmdQueue]
    exact h.cmdLeads
  unused := h.unused
  lines := h.lines
  notified := h.notified
  writes := h.writes
  handled := h.handled

theorem Started.created_of_initialized (h : Started p m) (hm : m.initialized = true) :
    p.net = .created := by
  by_contra hnet
  rw [(h.down hnet).2.2.1] at hm
  cases hm

theorem Started.created_of_hostStarted (h : Started p m) (hm : m.hostStarted = true) :
    p.net = .created := by
  by_contra hnet
  rw [(h.down hnet).2.2.2.1] at hm
  cases hm

theorem Started.created_of_notifyStarted (h : Started p m) (hm : m.notifyStarted = true) :
    p.net = .created := by
  by_contra hnet
  rw [(h.down hnet).2.2.2.2] at hm
  cases hm

theorem Started.created_iff (h : Started p m) : p.net = .created ↔ m.notifyQueue.isSome = true := by
  constructor
  · exact fun hnet => (h.up hnet).2
  · intro hqueue
    by_contra hnet
    rw [(h.down hnet).2.1] at hqueue
    cases hqueue

/-- A use of the notify queue leaves the rest of the memory alone. -/
theorem Started.notifyQueue (h : Started p m) {q : Option (List Bytes)}
    (hq : q.isSome = m.notifyQueue.isSome) : Started p { m with notifyQueue := q } where
  down hnet := by
    have hdown := h.down hnet
    rw [hdown.2.1, Option.isSome_none, Option.isSome_eq_false_iff, Option.isNone_iff_eq_none] at hq
    exact ⟨hdown.1, hq, hdown.2.2⟩
  up hnet := ⟨(h.up hnet).1, hq.trans (h.up hnet).2⟩
  main := h.main
  notify := h.notify
  host := h.host

theorem Started.cmdQueue (h : Started p m) {q : Option (List Bytes)}
    (hq : q.isSome = m.cmdQueue.isSome) : Started p { m with cmdQueue := q } where
  down hnet := by
    have hdown := h.down hnet
    rw [hdown.1, Option.isSome_none, Option.isSome_eq_false_iff, Option.isNone_iff_eq_none] at hq
    exact ⟨hq, hdown.2⟩
  up hnet := ⟨hq.trans (h.up hnet).1, (h.up hnet).2⟩
  main := h.main
  notify := h.notify
  host := h.host

/-- What holds of the phases, the memory and the ledger. -/
def Sound (p : Phases) (m : Mem) (l : Ledger) : Prop := Started p m ∧ Balanced p m l

theorem Sound.quiet (h : Sound p m l) {i : Tid} {β : Type} {a : Act β} (ha : a.quiet = true)
    (e : Input) : Sound p (a.run m e).2 (l.add (.did i a (a.run m e).1)) := by
  have hsame := Act.run_quiet ha e m
  rw [l.add_quiet _ ha]
  exact ⟨h.1.same hsame, h.2.same hsame⟩

theorem sound_serialWrite (h : Sound p m l) {s : Bytes} {b : Unit} {q : MainPhase}
    (hnext : p.main.next (.serialWrite s) b = some q) :
    Sound { p with main := q } m (l.add (.did .main (.serialWrite s) b)) := by
  obtain ⟨hS, hB⟩ := h
  obtain ⟨early, hlines⟩ := hB.lines
  have hsound (hlinked : q.linked = p.main.linked) (hready : q.ready = p.main.ready)
      (hcmd : q.cmd = p.main.cmd) {lines : List Bytes}
      (hq : lines = early ++ offeredItems l.notifyUses ++ q.line.toList) :
      Sound { p with main := q } m { l with lines := lines } := by
    refine ⟨⟨hS.down, hS.up, ?_, hS.notify, hS.host⟩, ⟨hB.notifyLeads, hB.cmdLeads, hB.unused,
      ⟨early, hq⟩, hB.notified, hB.writes, ?_⟩⟩
    · rw [hlinked, hready]
      exact hS.main
    · rw [hcmd]
      exact hB.handled
  by_cases hs : s = [newline]
  · subst hs
    obtain ⟨line, hline, rfl⟩ := Option.map_eq_some_iff.mp hnext
    refine hsound rfl rfl rfl ?_
    rw [if_pos rfl, hlines, hline]
    exact endLine_concat _ _
  · obtain ⟨hline, hq⟩ := Option.ite_none_right_eq_some.mp ((if_neg hs).symm.trans hnext)
    obtain rfl := Option.some.inj hq
    refine hsound rfl rfl rfl ?_
    rw [if_neg hs, hlines, hline, Option.toList_none, List.append_nil]
    rfl

theorem Sound.main (h : Sound p m l) {β : Type} {a : Act β} {e : Input} {q : MainPhase}
    (hnext : p.main.next a (a.run m e).1 = some q) :
    Sound { p with main := q } (a.run m e).2 (l.add (.did .main a (a.run m e).1)) := by
  obtain ⟨hS, hB⟩ := h
  induction a with
  | load v =>
    induction v with
    | initialized =>
      obtain rfl := Option.some.inj hnext
      refine ⟨⟨hS.down, hS.up, ?_, hS.notify, hS.host⟩, ⟨hB.notifyLeads, hB.cmdLeads, hB.unused,
        hB.lines, hB.notified, hB.writes, hB.handled⟩⟩
      rintro (hlinked | hready)
      · exact hS.created_of_initialized hlinked
      · exact hS.main (Or.inr hready)
    | _ =>
      obtain rfl := Option.some.inj hnext
      exact Sound.quiet ⟨hS, hB⟩ rfl e
  | notifyQueueCreated =>
    obtain rfl := Option.some.inj hnext
    refine ⟨⟨hS.down, hS.up, ?_, hS.notify, hS.host⟩, ⟨hB.notifyLeads, hB.cmdLeads, hB.unused,
      ?_, hB.notified, hB.writes, hB.handled⟩⟩
    · rintro (hlinked | hready)
      · exact hS.main (Or.inl hlinked)
      · exact hS.created_iff.mpr hready
    · cases hqueue : m.notifyQueue.isSome with
      | true =>
        have hans : (Act.notifyQueueCreated.run m e).1 = true := hqueue
        rw [hans]
        exact hB.lines
      | false =>
        have hans : (Act.notifyQueueCreated.run m e).1 = false := hqueue
        have hnet : p.net ≠ .created := fun hnet => by
          rw [hS.created_iff, hqueue] at hnet
          cases hnet
        rw [hans]
        refine ⟨l.lines, ?_⟩
        show l.lines = l.lines ++ offeredItems l.notifyUses ++ []
        rw [(hB.unused hnet).1]
        simp [offeredItems]
  | serialWrite s =>
    refine sound_serialWrite ⟨hS, hB⟩ ?_
    exact hnext
  | xQueueSendNotify item =>
    obtain ⟨⟨hready, hline⟩, hq⟩ := Option.ite_none_right_eq_some.mp hnext
    obtain rfl := Option.some.inj hq
    have hqueue := (hS.up (hS.main (Or.inr hready))).2
    have hsend : (xQueueSend notifyQueueSize item m.notifyQueue).2.isSome = m.notifyQueue.isSome :=
      isSome_send item m.notifyQueue
    have hstarted := hS.notifyQueue hsend
    refine ⟨⟨hstarted.down, hstarted.up, hS.main, hS.notify, hS.host⟩,
      ⟨leads_send item hB.notifyLeads hqueue, hB.cmdLeads, ?_, ?_, ?_, hB.writes, hB.handled⟩⟩
    · exact fun hnet => absurd (hS.main (Or.inr hready)) hnet
    · obtain ⟨early, hlines⟩ := hB.lines
      refine ⟨early, ?_⟩
      show l.lines = early ++ offeredItems (l.notifyUses ++ [_]) ++ []
      rw [hlines, hline, offered_send, List.append_nil, ← List.append_assoc]
      rfl
    · show HandedOn _ (takenItems (l.notifyUses ++ [_])) _
      rw [taken_send]
      exact hB.notified
  | xQueueReceiveCmd =>
    obtain ⟨⟨hlinked, hcmd⟩, hq⟩ := Option.ite_none_right_eq_some.mp hnext
    obtain rfl := Option.some.inj hq
    have hstarted := hS.cmdQueue (isSome_receive m.cmdQueue)
    refine ⟨⟨hstarted.down, hstarted.up, hS.main, hS.notify, hS.host⟩,
      ⟨hB.notifyLeads, leads_receive hB.cmdLeads, ?_, hB.lines, hB.notified, ?_, ?_⟩⟩
    · exact fun hnet => absurd (hS.main (Or.inl hlinked)) hnet
    · show _ = offeredItems (l.cmdUses ++ ((Option.map _ _).toList)) ++ _
      rw [offered_receive]
      exact hB.writes
    · have hhandled := hB.handled
      rw [hcmd, Option.map_none, Option.toList_none, List.append_nil] at hhandled
      show (takenItems (l.cmdUses ++ ((Option.map _ _).toList))).map cString = l.handled ++ _
      rw [taken_receive, List.map_append, hhandled, Option.toList_map]
  | handle source line =>
    cases source with
    | serial =>
      obtain rfl := Option.some.inj hnext
      exact Sound.quiet ⟨hS, hB⟩ rfl e
    | ble =>
      obtain ⟨hcmd, hq⟩ := Option.ite_none_right_eq_some.mp hnext
      obtain rfl := Option.some.inj hq
      refine ⟨⟨hS.down, hS.up, hS.main, hS.notify, hS.host⟩,
        ⟨hB.notifyLeads, hB.cmdLeads, hB.unused,
        hB.lines, hB.notified, hB.writes, ?_⟩⟩
      have hhandled := hB.handled
      rw [hcmd] at hhandled
      exact hhandled.trans (List.append_nil _).symm
  | store v x =>
    induction v <;> first
      | (obtain rfl := Option.some.inj hnext; exact Sound.quiet ⟨hS, hB⟩ rfl e)
      | cases hnext
  | _ =>
    first
      | (obtain rfl := Option.some.inj hnext; exact Sound.quiet ⟨hS, hB⟩ rfl e)
      | cases hnext

theorem Sound.notify (h : Sound p m l) {β : Type} {a : Act β} {e : Input} {q : NotifyPhase}
    (hnext : p.notify.next a (a.run m e).1 = some q) :
    Sound { p with notify := q } (a.run m e).2 (l.add (.did .notify a (a.run m e).1)) := by
  obtain ⟨hS, hB⟩ := h
  induction a with
  | load v =>
    induction v with
    | notifyStarted =>
      obtain rfl := Option.some.inj hnext
      refine ⟨⟨hS.down, hS.up, hS.main, ?_, hS.host⟩, ⟨hB.notifyLeads, hB.cmdLeads, hB.unused,
        hB.lines, hB.notified, hB.writes, hB.handled⟩⟩
      intro hstarted
      rcases Bool.or_eq_true_iff.mp hstarted with hbefore | hnow
      · exact hS.notify hbefore
      · exact hS.created_of_notifyStarted hnow
    | _ =>
      obtain rfl := Option.some.inj hnext
      exact Sound.quiet ⟨hS, hB⟩ rfl e
  | xQueueReceiveNotify =>
    obtain ⟨hbegun, hq⟩ := Option.ite_none_right_eq_some.mp hnext
    obtain rfl := Option.some.inj hq
    have hstarted := hS.notifyQueue (isSome_receive m.notifyQueue)
    refine ⟨⟨hstarted.down, hstarted.up, hS.main, hS.notify, hS.host⟩,
      ⟨leads_receive hB.notifyLeads, hB.cmdLeads, ?_, ?_, ?_, hB.writes, hB.handled⟩⟩
    · exact fun hnet => absurd (hS.notify hbegun) hnet
    · obtain ⟨early, hlines⟩ := hB.lines
      refine ⟨early, ?_⟩
      show l.lines = early ++ offeredItems (l.notifyUses ++ ((Option.map _ _).toList)) ++ _
      rw [offered_receive]
      exact hlines
    · show HandedOn _ (takenItems (l.notifyUses ++ ((Option.map _ _).toList))) l.notified
      rw [taken_receive]
      cases hitem : (xQueueReceive m.notifyQueue).1 with
      | none =>
        have hnone : (Act.xQueueReceiveNotify.run m e).1 = none := hitem
        rw [hnone, Option.toList_none, List.append_nil]
        exact hB.notified.drop
      | some item =>
        have hsome : (Act.xQueueReceiveNotify.run m e).1 = some item := hitem
        rw [hsome, Option.toList_some]
        exact hB.notified.take item
  | bleGattsNotifyCustom data =>
    obtain ⟨hitem, hq⟩ := Option.ite_none_right_eq_some.mp hnext
    obtain rfl := Option.some.inj hq
    refine ⟨⟨hS.down, hS.up, hS.main, hS.notify, hS.host⟩, ⟨hB.notifyLeads, hB.cmdLeads, hB.unused,
      hB.lines, ?_, hB.writes, hB.handled⟩⟩
    show HandedOn none _ (if _ then l.notified ++ [data] else l.notified)
    have hheld := hB.notified
    rw [hitem] at hheld
    split
    · exact hheld.give
    · exact hheld.drop
  | store v x =>
    induction v <;> first
      | (obtain rfl := Option.some.inj hnext; exact Sound.quiet ⟨hS, hB⟩ rfl e)
      | cases hnext
  | handle source line =>
    cases source <;> first
      | (obtain rfl := Option.some.inj hnext; exact Sound.quiet ⟨hS, hB⟩ rfl e)
      | cases hnext
  | _ =>
    first
      | (obtain rfl := Option.some.inj hnext; exact Sound.quiet ⟨hS, hB⟩ rfl e)
      | cases hnext

theorem Sound.host (h : Sound p m l) {β : Type} {a : Act β} {e : Input} {q : HostPhase}
    (hnext : p.host.next a (a.run m e).1 = some q) :
    Sound { p with host := q } (a.run m e).2 (l.add (.did .host a (a.run m e).1)) := by
  obtain ⟨hS, hB⟩ := h
  induction a with
  | load v =>
    induction v with
    | hostStarted =>
      obtain rfl := Option.some.inj hnext
      refine ⟨⟨hS.down, hS.up, hS.main, hS.notify, ?_⟩, ⟨hB.notifyLeads, hB.cmdLeads, hB.unused,
        hB.lines, hB.notified, hB.writes, hB.handled⟩⟩
      intro hstarted
      rcases Bool.or_eq_true_iff.mp hstarted with hbefore | hnow
      · exact hS.host hbefore
      · exact hS.created_of_hostStarted hnow
    | _ =>
      obtain rfl := Option.some.inj hnext
      exact Sound.quiet ⟨hS, hB⟩ rfl e
  | gapEvent =>
    obtain ⟨⟨-, hwrite⟩, hq⟩ := Option.ite_none_right_eq_some.mp hnext
    obtain rfl := Option.some.inj hq
    refine ⟨⟨hS.down, hS.up, hS.main, hS.notify, hS.host⟩, ⟨hB.notifyLeads, hB.cmdLeads, hB.unused,
      hB.lines, hB.notified, ?_, hB.handled⟩⟩
    have hwrites := hB.writes
    rw [hwrite, Option.toList_none, List.append_nil] at hwrites
    show (l.writes ++ Option.toList _).filter acceptable = _
    rw [List.filter_append, hwrites, Option.toList_filter]
    rfl
  | xQueueSendCmd item =>
    obtain ⟨⟨hbegun, hwrite⟩, hq⟩ := Option.ite_none_right_eq_some.mp hnext
    obtain rfl := Option.some.inj hq
    have hqueue := (hS.up (hS.host hbegun)).1
    have hsend : (xQueueSend cmdQueueSize item m.cmdQueue).2.isSome = m.cmdQueue.isSome :=
      isSome_send item m.cmdQueue
    have hstarted := hS.cmdQueue hsend
    refine ⟨⟨hstarted.down, hstarted.up, hS.main, hS.notify, hS.host⟩,
      ⟨hB.notifyLeads, leads_send item hB.cmdLeads hqueue, ?_, hB.lines, hB.notified, ?_, ?_⟩⟩
    · exact fun hnet => absurd (hS.host hbegun) hnet
    · have hwrites := hB.writes
      rw [hwrite] at hwrites
      show l.writes.filter acceptable = offeredItems (l.cmdUses ++ [_]) ++ []
      rw [offered_send, List.append_nil]
      exact hwrites
    · show (takenItems (l.cmdUses ++ [_])).map cString = _
      rw [taken_send]
      exact hB.handled
  | store v x =>
    induction v <;> first
      | (obtain rfl := Option.some.inj hnext; exact Sound.quiet ⟨hS, hB⟩ rfl e)
      | cases hnext
  | handle source line =>
    cases source <;> first
      | (obtain rfl := Option.some.inj hnext; exact Sound.quiet ⟨hS, hB⟩ rfl e)
      | cases hnext
  | _ =>
    first
      | (obtain rfl := Option.some.inj hnext; exact Sound.quiet ⟨hS, hB⟩ rfl e)
      | cases hnext

/-- The queues are created once, when nobody has used them. -/
theorem sound_createQueues (h : Sound p m l) (hnet : p.net = .fresh) (e : Input) :
    Sound { p with net := if (Act.createQueues.run m e).1 then .created else .failed }
      (Act.createQueues.run m e).2 l := by
  obtain ⟨hS, hB⟩ := h
  have hdown : p.net ≠ .created := by
    rw [hnet]
    decide
  have hunused := hB.unused hdown
  have hunseen {P : Prop} (hP : P → p.net = .created) {Q : Prop} : P → Q :=
    fun h => absurd (hP h) hdown
  by_cases hok : e.isOk = true
  · rw [Act.run, if_pos hok, if_pos rfl]
    refine ⟨⟨fun hnot => absurd rfl hnot, fun _ => ⟨rfl, rfl⟩, hunseen hS.main, hunseen hS.notify,
      hunseen hS.host⟩, ⟨?_, ?_, fun hnot => absurd rfl hnot, hB.lines, hB.notified, hB.writes,
      hB.handled⟩⟩
    · rw [hunused.1]
      exact .nil
    · rw [hunused.2]
      exact .nil
  · rw [Act.run, if_neg hok, if_neg Bool.false_ne_true]
    exact ⟨⟨fun _ => hS.down hdown, (fun hup => by cases hup), hunseen hS.main, hunseen hS.notify,
      hunseen hS.host⟩, ⟨hB.notifyLeads, hB.cmdLeads, fun _ => hunused, hB.lines, hB.notified,
      hB.writes, hB.handled⟩⟩

theorem Sound.net (h : Sound p m l) {β : Type} {a : Act β} {e : Input} {q : NetPhase}
    (hnext : p.net.next a (a.run m e).1 = some q) :
    Sound { p with net := q } (a.run m e).2 (l.add (.did .net a (a.run m e).1)) := by
  have hstore {v : Var Bool} {x : Bool}
      (hv : v = .initialized ∨ v = .hostStarted ∨ v = .notifyStarted)
      (hq : p.net = .created ∧ x = true) : Sound p (m.set v x) l := by
    obtain ⟨hS, hB⟩ := h
    rcases hv with rfl | rfl | rfl <;>
      exact ⟨⟨fun hnot => absurd hq.1 hnot, hS.up, hS.main, hS.notify, hS.host⟩,
        ⟨hB.notifyLeads, hB.cmdLeads, hB.unused, hB.lines, hB.notified, hB.writes, hB.handled⟩⟩
  induction a with
  | load v =>
    induction v with
    | initialized =>
      obtain rfl := Option.some.inj hnext
      have hsame : ¬ (p.net = .fresh ∧ m.initialized = true) := by
        rintro ⟨hfresh, hlinked⟩
        rw [h.1.created_of_initialized hlinked] at hfresh
        cases hfresh
      have hkeep : (if p.net = .fresh ∧ ((Act.load .initialized).run m e).1 = true then
          NetPhase.created else p.net) = p.net := if_neg hsame
      rw [hkeep]
      exact h.quiet rfl e
    | _ =>
      obtain rfl := Option.some.inj hnext
      exact h.quiet rfl e
  | createQueues =>
    obtain ⟨hfresh, hq⟩ := Option.ite_none_right_eq_some.mp hnext
    obtain rfl := Option.some.inj hq
    exact sound_createQueues h hfresh e
  | store v x =>
    induction v with
    | initialized =>
      obtain ⟨hup, hq⟩ := Option.ite_none_right_eq_some.mp hnext
      obtain rfl := Option.some.inj hq
      exact hstore (.inl rfl) hup
    | hostStarted =>
      obtain ⟨hup, hq⟩ := Option.ite_none_right_eq_some.mp hnext
      obtain rfl := Option.some.inj hq
      exact hstore (.inr (.inl rfl)) hup
    | notifyStarted =>
      obtain ⟨hup, hq⟩ := Option.ite_none_right_eq_some.mp hnext
      obtain rfl := Option.some.inj hq
      exact hstore (.inr (.inr rfl)) hup
    | _ =>
      obtain rfl := Option.some.inj hnext
      exact h.quiet rfl e
  | handle source line =>
    cases source <;> first
      | (obtain rfl := Option.some.inj hnext; exact h.quiet rfl e)
      | cases hnext
  | _ =>
    first
      | (obtain rfl := Option.some.inj hnext; exact h.quiet rfl e)
      | cases hnext

end Steps

/-! ## Runs -/

def PhaseOf : Tid → Type
  | .main => MainPhase
  | .notify => NotifyPhase
  | .net => NetPhase
  | .host => HostPhase

def protocolOf : ∀ i, Protocol Act (PhaseOf i)
  | .main => mainProtocol
  | .notify => notifyProtocol
  | .net => netProtocol
  | .host => hostProtocol

def startOf : ∀ i, PhaseOf i
  | .main => ({} : MainPhase)
  | .notify => ({} : NotifyPhase)
  | .net => NetPhase.fresh
  | .host => ({} : HostPhase)

theorem conforms_taskOf (i : Tid) :
    (protocolOf i).Conforms (fun _ _ => True) (taskOf i) (startOf i) := by
  cases i with
  | main => exact conforms_appMain
  | notify => exact conforms_bleNotifyLoop
  | net => exact conforms_netTask
  | host => exact conforms_hostTask

/-- The phases after a history. -/
def phases (past : List (Record Act Tid)) : Phases where
  main := phaseIn mainProtocol {} .main past
  notify := phaseIn notifyProtocol {} .notify past
  host := phaseIn hostProtocol {} .host past
  net := phaseIn netProtocol .fresh .net past

theorem sound_of_reachable {c : Config Act Tid World} (h : Reachable c) :
    Sound (phases c.shared.past) c.shared.mem (ledger c.shared.past) := by
  refine Steps.recorded (I := fun s => Sound (phases s.past) s.mem (ledger s.past)) h
    conforms_taskOf
    ⟨started_boot, balanced_boot⟩ ?_ fun h => h.elim
  intro i β a e s q hI hnext hafter
  have hother (j : Tid) (hj : i ≠ j) {φ : Type} (P : Protocol Act φ) (p0 : φ) :
      phaseIn P p0 j (s.did link i a e).past = phaseIn P p0 j s.past :=
    phaseIn_other hj a (a.run s.mem e).1 s.past
  cases i with
  | main =>
    have hphases : phases (s.did link .main a e).past = { phases s.past with main := q } := by
      rw [phases, hother .notify (by decide), hother .host (by decide), hother .net (by decide)]
      exact congrArg (fun main => ({ phases s.past with main := main } : Phases)) hafter
    rw [hphases]
    exact hI.main hnext
  | notify =>
    have hphases : phases (s.did link .notify a e).past = { phases s.past with notify := q } := by
      rw [phases, hother .main (by decide), hother .host (by decide), hother .net (by decide)]
      exact congrArg (fun notify => ({ phases s.past with notify := notify } : Phases)) hafter
    rw [hphases]
    exact hI.notify hnext
  | net =>
    have hphases : phases (s.did link .net a e).past = { phases s.past with net := q } := by
      rw [phases, hother .main (by decide), hother .notify (by decide), hother .host (by decide)]
      exact congrArg (fun net => ({ phases s.past with net := net } : Phases)) hafter
    rw [hphases]
    exact hI.net hnext
  | host =>
    have hphases : phases (s.did link .host a e).past = { phases s.past with host := q } := by
      rw [phases, hother .main (by decide), hother .notify (by decide), hother .net (by decide)]
      exact congrArg (fun host => ({ phases s.past with host := host } : Phases)) hafter
    rw [hphases]
    exact hI.host hnext

abbrev Script := List (Label Tid Input Empty)

def Script.turns (i : Tid) (n : ℕ) : Script := List.replicate n (.thread i .nothing)

/-- The link is started and a peer connects. -/
def Script.connected : Script :=
  turns .net 1 ++ List.replicate 4 (.thread .net .ok) ++ turns .net 3 ++ turns .host 3 ++
    [.thread .host (.event (.connect 1))] ++ turns .host 7

def emptyObject : Text := ⟨[0x7B, 0x7D], rfl, by decide⟩

/-- The peer writes a command with a zero byte in it, and the answer is about to be offered. -/
def Script.answered : Script :=
  connected ++ [.thread .host (.event (.write [0x70, 0, 0x71])), .thread .host .nothing] ++
    turns .main 5 ++ [.thread .main (.text emptyObject)] ++ turns .main 2

/-- The peer is notified of the answer. -/
def Script.notified : Script :=
  answered ++ turns .main 1 ++ turns .notify 8 ++ List.replicate 3 (.thread .notify .ok)

/-- Whatever the interleaving: the writes of the peer that fit are offered to the main loop, in
order and each once; one is refused only while the queue is full; and the accepted ones are handled
up to their first zero byte, in order and each once, but for the one in hand and those in the
queue. -/
theorem writes_are_handled {c : Config Act Tid World} (h : Reachable c) :
    let l := ledger c.shared.past
    (∃ write, l.writes.filter acceptable = offeredItems l.cmdUses ++ Option.toList write) ∧
      (∀ pre item, pre ++ [.refuse item] <+: l.cmdUses →
        (acceptedItems pre).length = (takenItems pre).length + cmdQueueSize) ∧
      ∃ cmd, (acceptedItems l.cmdUses).map cString =
        l.handled ++ Option.toList cmd ++ (c.shared.mem.cmdQueue.getD []).map cString := by
  have hB := (sound_of_reachable h).2
  refine ⟨⟨_, hB.writes⟩, fun pre item hpre => hB.cmdLeads.full_of_refuse hpre,
    (phases c.shared.past).main.cmd.map cString, ?_⟩
  rw [hB.cmdLeads.accepted_eq, List.map_append, hB.handled]

/-- The command ends at its zero byte. -/
theorem writes_are_handled_answered : ∃ c, Reachable c ∧
    (ledger c.shared.past).handled = [[0x70]] ∧
      ∃ write, (ledger c.shared.past).writes.filter acceptable =
        offeredItems (ledger c.shared.past).cmdUses ++ Option.toList write := by
  have hrun : (link.machine.run (Guard.any link.machine) Script.answered boot).any
      (fun c => (ledger c.shared.past).handled = [[0x70]]) = true := by decide +kernel
  obtain ⟨c, hsteps, hc⟩ := Machine.exists_of_run hrun
  have hwrites := writes_are_handled hsteps.weaken
  exact ⟨c, hsteps.weaken, of_decide_eq_true hc, hwrites.1⟩

/-- The queue that an action uses. -/
def Act.queue? (m : Mem) : {β : Type} → Act β → Option (Option (List Bytes))
  | _, .xQueueSendNotify _ | _, .xQueueReceiveNotify => some m.notifyQueue
  | _, .xQueueSendCmd _ | _, .xQueueReceiveCmd => some m.cmdQueue
  | _, _ => none

/-- No task is ever about to use a queue that has not been created. -/
theorem queue_created_before_use {c : Config Act Tid World} (h : Reachable c) {i : Tid} {β : Type}
    {a : Act β} {next : β → Firmware Unit} (ha : c.thread i = .act a next)
    {queue : Option (List Bytes)} (hqueue : a.queue? c.shared.mem = some queue) :
    queue.isSome = true := by
  have hS := (sound_of_reachable h).1
  have hobeys := Steps.obeysRecord h conforms_taskOf i
  rw [ha, Protocol.conforms_act] at hobeys
  induction a with
  | xQueueSendNotify item =>
    obtain rfl := Option.some.inj hqueue
    obtain ⟨q, hq, -⟩ := hobeys true
    cases i with
    | main =>
      obtain ⟨⟨hready, -⟩, -⟩ := Option.ite_none_right_eq_some.mp hq
      exact (hS.up (hS.main (Or.inr hready))).2
    | _ => cases hq
  | xQueueReceiveNotify =>
    obtain rfl := Option.some.inj hqueue
    obtain ⟨q, hq, -⟩ := hobeys none
    cases i with
    | notify =>
      obtain ⟨hstarted, -⟩ := Option.ite_none_right_eq_some.mp hq
      exact (hS.up (hS.notify hstarted)).2
    | _ => cases hq
  | xQueueSendCmd item =>
    obtain rfl := Option.some.inj hqueue
    obtain ⟨q, hq, -⟩ := hobeys true
    cases i with
    | host =>
      obtain ⟨⟨hstarted, -⟩, -⟩ := Option.ite_none_right_eq_some.mp hq
      exact (hS.up (hS.host hstarted)).1
    | _ => cases hq
  | xQueueReceiveCmd =>
    obtain rfl := Option.some.inj hqueue
    obtain ⟨q, hq, -⟩ := hobeys none
    cases i with
    | main =>
      obtain ⟨⟨hlinked, -⟩, -⟩ := Option.ite_none_right_eq_some.mp hq
      exact (hS.up (hS.main (Or.inl hlinked))).1
    | _ => cases hq
  | _ => cases hqueue

/-- The program is about to offer an item. -/
def offers : Firmware Unit → Bool
  | .act (.xQueueSendNotify _) _ => true
  | _ => false

theorem queue_created_before_use_answered : ∃ c, Reachable c ∧ offers (c.thread .main) = true ∧
    c.shared.mem.notifyQueue.isSome = true := by
  have hrun : (link.machine.run (Guard.any link.machine) Script.answered boot).any
      (fun c => offers (c.thread .main)) = true := by decide +kernel
  obtain ⟨c, hsteps, hc⟩ := Machine.exists_of_run hrun
  refine ⟨c, hsteps.weaken, hc, ?_⟩
  cases hmain : c.thread .main with
  | act a next =>
    rw [hmain] at hc
    induction a with
    | xQueueSendNotify item => exact queue_created_before_use hsteps.weaken hmain rfl
    | _ => cases hc
  | _ =>
    rw [hmain] at hc
    cases hc

end Ble
end Ecotiter
