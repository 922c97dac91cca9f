import Ecotiter.BleLink

/-!
# The phases of the tasks at the BLE link

What each of the four tasks owes at every point: the main loop the line it has written, and the
answer to the command it has received; the notify thread the item it has received; the host task the
write of the peer; and `net_owner` the start of the link, which comes before any use of a queue.
-/

namespace Ecotiter
namespace Ble
open Interleaving

/-- The variables that do not say how far the start of the link has come. -/
def Var.plain {α : Type} : Var α → Bool
  | .initialized | .hostStarted | .notifyStarted => false
  | _ => true

/-- The actions that neither use a queue nor say something to a client. -/
def Act.quiet : {β : Type} → Act β → Bool
  | _, .load _ | _, .stackCall | _, .espTimerGetTime | _, .notifyQueueCreated => true
  | _, .broadcastText | _, .smResultText | _, .serialLine | _, .handle .serial _ => true
  | _, .store v _ => v.plain
  | _, _ => false

structure MainPhase where
  linked : Bool := false                    -- the link was seen initialized
  ready : Bool := false                     -- the notify queue was seen
  line : Option Bytes := none               -- written, and to be offered if there is a queue
  cmd : Option Bytes := none                -- received and not yet handled

def MainPhase.next (p : MainPhase) : {β : Type} → Act β → β → Option MainPhase
  | _, .load .initialized, b => some { p with linked := b }
  | _, .notifyQueueCreated, b => some { p with ready := b, line := if b then p.line else none }
  | _, .serialWrite s, _ =>
    if s = [newline] then p.line.map fun line => { p with line := some (line ++ s) }
    else if p.line = none then some { p with line := some s }
    else none
  | _, .xQueueSendNotify item, _ =>
    if p.ready ∧ p.line = some item then some { p with line := none } else none
  | _, .xQueueReceiveCmd, b => if p.linked ∧ p.cmd = none then some { p with cmd := b } else none
  | _, .handle .ble line, _ =>
    if p.cmd.map cString = some line then some { p with cmd := none } else none
  | _, a, _ => if a.quiet then some p else none

structure NotifyPhase where
  started : Bool := false
  item : Option Bytes := none

def NotifyPhase.next (p : NotifyPhase) : {β : Type} → Act β → β → Option NotifyPhase
  | _, .load .notifyStarted, b => some { p with started := p.started || b }
  | _, .xQueueReceiveNotify, b => if p.started then some { p with item := b } else none
  | _, .bleGattsNotifyCustom data, _ =>
    if p.item = some data then some { p with item := none } else none
  | _, a, _ => if a.quiet then some p else none

structure HostPhase where
  started : Bool := false
  write : Option Bytes := none

/-- The writes that fit a command item. -/
def acceptable (om : Bytes) : Bool := decide (0 < om.length ∧ om.length < maxCmdSize)

def GapEvent.write? : GapEvent → Option Bytes
  | .write om => some om
  | _ => none

def HostPhase.next (p : HostPhase) : {β : Type} → Act β → β → Option HostPhase
  | _, .load .hostStarted, b => some { p with started := p.started || b }
  | _, .gapEvent, b =>
    if p.started ∧ p.write = none then some { p with write := b.write?.filter acceptable } else none
  | _, .xQueueSendCmd item, _ =>
    if p.started ∧ p.write = some item then some { p with write := none } else none
  | _, a, _ => if a.quiet then some p else none

inductive NetPhase | fresh | created | failed
  deriving DecidableEq

def NetPhase.next (p : NetPhase) : {β : Type} → Act β → β → Option NetPhase
  | _, .load .initialized, b => some (if p = .fresh ∧ b = true then .created else p)
  | _, .createQueues, b => if p = .fresh then some (if b then .created else .failed) else none
  | _, .store .initialized x, _ | _, .store .hostStarted x, _ | _, .store .notifyStarted x, _ =>
    if p = .created ∧ x = true then some p else none
  | _, a, _ => if a.quiet then some p else none

def mainProtocol : Protocol Act MainPhase := ⟨fun p _ a b => p.next a b⟩
def notifyProtocol : Protocol Act NotifyPhase := ⟨fun p _ a b => p.next a b⟩
def hostProtocol : Protocol Act HostPhase := ⟨fun p _ a b => p.next a b⟩
def netProtocol : Protocol Act NetPhase := ⟨fun p _ a b => p.next a b⟩

/-! ## The tasks keep to their phases -/

section Tasks
variable {α : Type}

theorem conforms_await {φ : Type} {P : Protocol Act φ} {v : Var Bool} {p : φ} {K : φ → Prop}
    (hwait : P.next p (.load v) false = some p)
    (hdone : ∃ q, P.next p (.load v) true = some q ∧ K q) :
    P.Conforms (fun _ q => K q) (await v) p := by
  refine Protocol.Conforms.iterate (fun _ q => q = p) ?_ rfl
  rintro _ q rfl
  refine .perform fun b => ?_
  cases b with
  | false => exact ⟨_, hwait, Protocol.conforms_pure.mpr rfl⟩
  | true =>
    obtain ⟨r, hr, hK⟩ := hdone
    exact ⟨r, hr, Protocol.conforms_pure.mpr hK⟩

theorem NotifyPhase.next_quiet {p : NotifyPhase} {x : Option Bytes}
    (hp : p.started = true ∧ p.item = x) {β : Type} (a : Act β) (b : β) (ha : a.quiet = true) :
    ∃ q, p.next a b = some q ∧ q.started = true ∧ q.item = x := by
  induction a with
  | load v =>
    induction v with
    | notifyStarted => exact ⟨_, rfl, by rw [hp.1, Bool.true_or], hp.2⟩
    | _ => exact ⟨p, rfl, hp⟩
  | store v x => induction v <;> first | exact ⟨p, rfl, hp⟩ | cases ha
  | handle source line => cases source <;> first | exact ⟨p, rfl, hp⟩ | cases ha
  | _ => first | exact ⟨p, rfl, hp⟩ | cases ha

theorem HostPhase.next_quiet {p : HostPhase} {x : Option Bytes}
    (hp : p.started = true ∧ p.write = x) {β : Type} (a : Act β) (b : β) (ha : a.quiet = true) :
    ∃ q, p.next a b = some q ∧ q.started = true ∧ q.write = x := by
  induction a with
  | load v =>
    induction v with
    | hostStarted => exact ⟨_, rfl, by rw [hp.1, Bool.true_or], hp.2⟩
    | _ => exact ⟨p, rfl, hp⟩
  | store v x => induction v <;> first | exact ⟨p, rfl, hp⟩ | cases ha
  | handle source line => cases source <;> first | exact ⟨p, rfl, hp⟩ | cases ha
  | _ => first | exact ⟨p, rfl, hp⟩ | cases ha

theorem NetPhase.next_quiet {p : NetPhase} (hp : p ≠ .fresh) {β : Type} (a : Act β) (b : β)
    (ha : a.quiet = true) : p.next a b = some p := by
  induction a with
  | load v =>
    induction v with
    | initialized => exact congrArg some (if_neg fun h => hp h.1)
    | _ => rfl
  | store v x => induction v <;> first | rfl | cases ha
  | handle source line => cases source <;> first | rfl | cases ha
  | _ => first | rfl | cases ha

theorem notify_quiet {prog : Firmware α} (h : prog.Only Act.quiet) {p : NotifyPhase}
    {x : Option Bytes} (hp : p.started = true ∧ p.item = x) :
    notifyProtocol.Conforms (fun _ q => q.started = true ∧ q.item = x) prog p :=
  h.conforms (fun _ hq _ a b ha => NotifyPhase.next_quiet hq a b ha) hp

theorem host_quiet {prog : Firmware α} (h : prog.Only Act.quiet) {p : HostPhase}
    {x : Option Bytes} (hp : p.started = true ∧ p.write = x) :
    hostProtocol.Conforms (fun _ q => q.started = true ∧ q.write = x) prog p :=
  h.conforms (fun _ hq _ a b ha => HostPhase.next_quiet hq a b ha) hp

theorem net_quiet {prog : Firmware α} (h : prog.Only Act.quiet) {p : NetPhase} (hp : p ≠ .fresh) :
    netProtocol.Conforms (fun _ q => q = p) prog p :=
  h.keeps fun a b ha => NetPhase.next_quiet hp a b ha

theorem only_ite {c : Prop} [Decidable c] {prog prog' : Firmware α} (h : prog.Only Act.quiet)
    (h' : prog'.Only Act.quiet) : (if c then prog else prog').Only Act.quiet := by
  split
  · exact h
  · exact h'

theorem only_isConnected : isConnected.Only Act.quiet := by
  refine ⟨rfl, fun linked => ?_⟩
  cases linked with
  | true => exact ⟨rfl, fun _ => trivial⟩
  | false => exact trivial

theorem only_countFailure : countFailure.Only Act.quiet :=
  ⟨rfl, fun _ => ⟨rfl, fun _ => trivial⟩⟩

theorem only_forget : forget.Only Act.quiet :=
  ⟨rfl, fun _ => ⟨rfl, fun _ => ⟨rfl, fun _ => trivial⟩⟩⟩

theorem only_forget_bind {f : Unit → Firmware α} (hf : (f ()).Only Act.quiet) :
    (forget >>= f).Only Act.quiet :=
  only_forget.bind fun _ => hf

theorem only_process : process.Only Act.quiet := by
  have hfailures : ∀ _ : Unit, (do
      if ← load .connected then
        if 5 ≤ (← load .consecutiveFailures).toNat then
          let _ ← Program.perform .stackCall
          forget
          store .bleError true : Firmware Unit).Only Act.quiet := by
    refine fun _ => ⟨rfl, fun connected => ?_⟩
    cases connected with
    | false => exact trivial
    | true =>
      refine ⟨rfl, fun failures => only_ite ?_ trivial⟩
      exact ⟨rfl, fun _ => only_forget_bind ⟨rfl, fun _ => trivial⟩⟩
  refine ⟨rfl, fun linked => ?_⟩
  cases linked with
  | false => exact trivial
  | true =>
    refine ⟨rfl, fun connected => ?_⟩
    cases connected with
    | false => exact hfailures ()
    | true =>
      refine ⟨rfl, fun now => ⟨rfl, fun connectUs => ⟨rfl, fun found => ?_⟩⟩⟩
      refine only_ite ?_ (hfailures ())
      exact only_forget_bind ⟨rfl, fun _ => ⟨rfl, fun _ => hfailures ()⟩⟩

theorem notify_sendNotification (data : Bytes) {p : NotifyPhase} (hp : p.started = true)
    (hitem : p.item = some data) :
    notifyProtocol.Conforms (fun _ q => q.started = true) (sendNotification data) p := by
  have hcount : ∀ {q : NotifyPhase}, q.started = true →
      notifyProtocol.Conforms (fun _ q => q.started = true)
        (do countFailure; return false : Firmware Bool) q := by
    intro q hq
    refine (notify_quiet only_countFailure ⟨hq, rfl⟩).bind ?_
    exact fun _ r hr => Protocol.conforms_pure.mpr hr.1
  refine (notify_quiet only_isConnected ⟨hp, hitem⟩).bind ?_
  rintro connected p ⟨hp, hitem⟩
  cases connected with
  | false => exact Protocol.conforms_pure.mpr hp
  | true =>
    refine .perform fun found => ⟨p, rfl, ?_⟩
    cases found with
    | false => exact Protocol.conforms_pure.mpr hp
    | true =>
      refine .perform fun om => ⟨p, rfl, ?_⟩
      cases om with
      | false => exact hcount hp
      | true =>
        refine .perform fun sent => ⟨_, if_pos hitem, ?_⟩
        cases sent with
        | false => exact hcount hp
        | true => exact .perform fun _ => ⟨_, rfl, Protocol.conforms_pure.mpr hp⟩

theorem conforms_bleNotifyLoop : notifyProtocol.Conforms (fun _ _ => True) bleNotifyLoop {} := by
  refine (conforms_await (K := fun q => q.started = true) rfl ⟨_, rfl, rfl⟩).bind ?_
  intro _ p hp
  refine Protocol.Conforms.iterate (fun _ q => q.started = true) ?_ hp
  intro _ p hp
  refine .perform fun item => ⟨_, if_pos hp, ?_⟩
  cases item with
  | none => exact Protocol.conforms_pure.mpr hp
  | some item =>
    dsimp only
    split
    · refine (notify_quiet (p := { p with item := some item }) only_isConnected ⟨hp, rfl⟩).bind ?_
      rintro connected p ⟨hp, hitem⟩
      cases connected with
      | false => exact Protocol.conforms_pure.mpr hp
      | true =>
        refine (notify_sendNotification item hp hitem).bind ?_
        exact fun _ _ hp => Protocol.conforms_pure.mpr hp
    · exact Protocol.conforms_pure.mpr hp

theorem only_callback {ev : GapEvent} (h : ev.write? = none) : (callback ev).Only Act.quiet := by
  cases ev with
  | connect connHandle =>
    exact ⟨rfl, fun _ => ⟨rfl, fun _ => ⟨rfl, fun _ => ⟨rfl, fun _ => ⟨rfl, fun _ => ⟨rfl, fun _ =>
      trivial⟩⟩⟩⟩⟩⟩
  | connectFailed => exact trivial
  | disconnect => exact only_forget_bind ⟨rfl, fun _ => ⟨rfl, fun _ => trivial⟩⟩
  | write om => cases h

theorem host_callback (ev : GapEvent) {p : HostPhase} (hp : p.started = true)
    (hwrite : p.write = ev.write?.filter acceptable) :
    hostProtocol.Conforms (fun _ q => q.started = true ∧ q.write = none) (callback ev) p := by
  cases hev : ev.write? with
  | none =>
    rw [hev, Option.filter_none] at hwrite
    exact host_quiet (only_callback hev) ⟨hp, hwrite⟩
  | some om =>
    cases ev with
    | write om' =>
      obtain rfl := Option.some.inj hev
      rw [hev] at hwrite
      have hignore (hlen : acceptable om' = false) : p.write = none := by
        rw [hwrite, Option.filter_some_neg (by rw [hlen])]
      rw [callback, mbufToFlat]
      by_cases hfits : om'.length ≤ maxCmdSize - 1
      · rw [if_pos hfits]
        dsimp only
        by_cases hlen : 0 < om'.length
        · have hok : acceptable om' = true := by
            have hsize : maxCmdSize = 256 := rfl
            rw [acceptable, decide_eq_true_eq]
            omega
          rw [if_pos hlen]
          rw [Option.filter_some_pos hok] at hwrite
          exact .perform fun _ => ⟨_, if_pos ⟨hp, hwrite⟩, Protocol.conforms_pure.mpr ⟨hp, rfl⟩⟩
        · rw [if_neg hlen]
          exact Protocol.conforms_pure.mpr ⟨hp, hignore (decide_eq_false fun h => hlen h.1)⟩
      · have hlong : acceptable om' = false := by
          have hsize : maxCmdSize = 256 := rfl
          rw [acceptable, decide_eq_false_iff_not]
          omega
        rw [if_neg hfits]
        exact Protocol.conforms_pure.mpr ⟨hp, hignore hlong⟩
    | _ => cases hev

theorem conforms_hostTask : hostProtocol.Conforms (fun _ _ => True) hostTask {} := by
  have hstart : hostProtocol.Conforms (fun _ q => q.started = true ∧ q.write = none)
      (await .hostStarted) {} := conforms_await rfl ⟨_, rfl, rfl, rfl⟩
  refine hstart.bind ?_
  intro _ p hp
  refine Protocol.Conforms.iterate (fun _ q => q.started = true ∧ q.write = none) ?_ hp
  intro _ p hp
  refine .perform fun ev => ⟨_, if_pos hp, ?_⟩
  have hcallback :
      hostProtocol.Conforms (fun _ q => q.started = true ∧ q.write = none) (callback ev)
      { p with write := ev.write?.filter acceptable } := host_callback ev hp.1 rfl
  refine hcallback.bind ?_
  exact fun _ _ hq => Protocol.conforms_pure.mpr hq

theorem NetPhase.next_createQueues (b : Bool) :
    NetPhase.next .fresh .createQueues b = some (if b then .created else .failed) := rfl

theorem net_init :
    netProtocol.Conforms (fun ok q => q ≠ .fresh ∧ (ok = true → q = .created)) init .fresh := by
  have hfail : ∀ {q : NetPhase}, q ≠ .fresh →
      netProtocol.Conforms (fun ok q => q ≠ .fresh ∧ (ok = true → q = .created))
        (pure false : Firmware Bool) q :=
    fun hq => Protocol.conforms_pure.mpr ⟨hq, fun h => absurd h Bool.false_ne_true⟩
  have hne : NetPhase.created ≠ .fresh := by decide
  refine .perform fun linked => ⟨_, rfl, ?_⟩
  cases linked with
  | true => exact Protocol.conforms_pure.mpr ⟨hne, fun _ => rfl⟩
  | false =>
    refine .perform fun queues => ⟨_, NetPhase.next_createQueues queues, ?_⟩
    cases queues with
    | false => exact hfail (by decide)
    | true =>
      refine .perform fun port => ⟨.created, rfl, ?_⟩
      cases port with
      | false => exact hfail hne
      | true =>
        refine .perform fun count => ⟨.created, rfl, ?_⟩
        cases count with
        | false => exact hfail hne
        | true =>
          refine .perform fun added => ⟨.created, rfl, ?_⟩
          cases added with
          | false => exact hfail hne
          | true =>
            refine .perform fun _ => ⟨.created, rfl, ?_⟩
            exact .perform fun _ => ⟨.created, rfl, Protocol.conforms_pure.mpr ⟨hne, fun _ => rfl⟩⟩

theorem conforms_netTask : netProtocol.Conforms (fun _ _ => True) netTask .fresh := by
  have hloop : ∀ {p}, p ≠ .fresh → netProtocol.Conforms (fun _ _ => True)
      (.iterate (fun _ => do
        process
        return .inl ()) () : Firmware Unit) p := by
    intro p hp
    refine Protocol.Conforms.iterate (fun _ q => q ≠ .fresh) ?_ hp
    intro _ q hq
    refine (net_quiet only_process hq).bind ?_
    rintro _ _ rfl
    exact Protocol.conforms_pure.mpr hq
  refine net_init.bind ?_
  rintro ok p ⟨hp, hok⟩
  cases ok with
  | false => exact hloop hp
  | true =>
    obtain rfl := hok rfl
    exact .perform fun _ => ⟨.created, rfl, hloop hp⟩

theorem Text.bytes_ne (t : Text) : t.bytes ≠ [newline] := by
  intro h
  have hopens := t.opens
  rw [h] at hopens
  cases hopens

theorem Text.line_ne (t : Text) : t.bytes ++ [newline] ≠ [newline] := by
  intro h
  have hopens := t.opens
  have hnil : t.bytes = [] := List.append_left_eq_self.mp h
  rw [hnil] at hopens
  cases hopens

theorem Text.line_length (t : Text) : (t.bytes ++ [newline]).length ≤ maxRspSize := by
  rw [List.length_append, List.length_singleton]
  exact t.fits

/-- The main loop owes nothing but what it owed before. -/
def MainPhase.Settled (p q : MainPhase) : Prop :=
  q.linked = p.linked ∧ q.line = none ∧ q.cmd = p.cmd

theorem MainPhase.next_newline {p : MainPhase} {line : Bytes} (h : p.line = some line) (b : Unit) :
    p.next (.serialWrite [newline]) b = some { p with line := some (line ++ [newline]) } := by
  have hnext : p.next (.serialWrite [newline]) b =
      p.line.map fun line => { p with line := some (line ++ [newline]) } := rfl
  rw [hnext, h, Option.map_some]

theorem MainPhase.next_write {p : MainPhase} {s : Bytes} (hs : s ≠ [newline]) (h : p.line = none)
    (b : Unit) : p.next (.serialWrite s) b = some { p with line := some s } :=
  (if_neg hs).trans (if_pos h)

theorem main_offer {line : Bytes} {p : MainPhase} (hline : p.line = some line) :
    mainProtocol.Conforms (fun _ q => p.Settled q)
      (do
        if ← Program.perform .notifyQueueCreated then
          let _ ← Program.perform (.xQueueSendNotify line) : Firmware Unit) p := by
  refine .perform fun created => ⟨_, rfl, ?_⟩
  cases created with
  | false => exact Protocol.conforms_pure.mpr ⟨rfl, rfl, rfl⟩
  | true =>
    exact .perform fun _ => ⟨_, if_pos ⟨rfl, hline⟩, Protocol.conforms_pure.mpr ⟨rfl, rfl, rfl⟩⟩

theorem main_sendResponse (rsp : Option Text) {p : MainPhase} (hp : p.line = none) :
    mainProtocol.Conforms (fun _ q => p.Settled q) (sendResponse rsp) p := by
  cases rsp with
  | none => exact Protocol.conforms_pure.mpr ⟨rfl, hp, rfl⟩
  | some t =>
    have htake : (t.bytes ++ [newline]).take maxRspSize = t.bytes ++ [newline] :=
      List.take_of_length_le t.line_length
    have hline : ({ p with line := some (t.bytes ++ [newline]) } : MainPhase).line =
      some (t.bytes ++ [newline]) := rfl
    have hoffer := main_offer hline
    rw [sendResponse, if_pos t.fits, sendLine, htake]
    exact .perform fun b => ⟨_, MainPhase.next_write t.line_ne hp b, hoffer⟩

theorem main_sendBroadcast (sv : Option Text) {p : MainPhase} (hp : p.line = none) :
    mainProtocol.Conforms (fun _ q => p.Settled q) (sendBroadcast sv) p := by
  cases sv with
  | none => exact Protocol.conforms_pure.mpr ⟨rfl, hp, rfl⟩
  | some t =>
    have hline : ({ p with line := some t.bytes } : MainPhase).line = some t.bytes := rfl
    have hoffer := main_offer (p := { p with line := some (t.bytes ++ [newline]) }) rfl
    rw [sendBroadcast, if_pos t.fits]
    refine .perform fun b => ⟨_, MainPhase.next_write t.bytes_ne hp b, ?_⟩
    exact .perform fun b => ⟨_, MainPhase.next_newline hline b, hoffer⟩

theorem main_drainCommands {p : MainPhase}
    (hp : p.linked = true ∧ p.line = none ∧ p.cmd = none) :
    mainProtocol.Conforms (fun _ q => q.line = none ∧ q.cmd = none) drainCommands p := by
  refine Protocol.Conforms.iterate
    (fun _ q => q.linked = true ∧ q.line = none ∧ q.cmd = none) ?_ hp
  rintro _ p ⟨hlinked, hline, hcmd⟩
  refine .perform fun item => ⟨_, if_pos ⟨hlinked, hcmd⟩, ?_⟩
  cases item with
  | none => exact Protocol.conforms_pure.mpr ⟨hline, rfl⟩
  | some item =>
    refine .perform fun rsp => ⟨_, if_pos rfl, ?_⟩
    have hsend := main_sendResponse rsp (p := { p with cmd := none }) hline
    refine hsend.bind ?_
    rintro _ q ⟨hq, hqline, hqcmd⟩
    exact Protocol.conforms_pure.mpr ⟨hq.trans hlinked, hqline, hqcmd⟩

theorem main_processSerialCommands {p : MainPhase} (hp : p.line = none ∧ p.cmd = none) :
    mainProtocol.Conforms (fun _ q => q.line = none ∧ q.cmd = none) processSerialCommands p := by
  refine .perform fun line => ⟨p, rfl, ?_⟩
  cases line with
  | none => exact Protocol.conforms_pure.mpr hp
  | some line =>
    refine .perform fun rsp => ⟨p, rfl, ?_⟩
    refine (main_sendResponse rsp hp.1).mono ?_
    rintro _ q ⟨-, hline, hcmd⟩
    exact ⟨hline, hcmd.trans hp.2⟩

theorem conforms_appMain : mainProtocol.Conforms (fun _ _ => True) appMain {} := by
  have hresult : ∀ p : MainPhase, p.line = none ∧ p.cmd = none →
      mainProtocol.Conforms (Sum.elim (fun _ q => q.line = none ∧ q.cmd = none) fun _ _ => True)
        (do
          sendResponse (← Program.perform .smResultText)
          return .inl () : Firmware (Unit ⊕ Unit)) p := by
    intro p hp
    refine .perform fun rsp => ⟨p, rfl, ?_⟩
    refine (main_sendResponse rsp hp.1).bind ?_
    rintro _ q ⟨-, hline, hcmd⟩
    exact Protocol.conforms_pure.mpr ⟨hline, hcmd.trans hp.2⟩
  have hrest : ∀ p : MainPhase, p.line = none ∧ p.cmd = none →
      mainProtocol.Conforms (Sum.elim (fun _ q => q.line = none ∧ q.cmd = none) fun _ _ => True)
        (do
          processSerialCommands
          sendResponse (← Program.perform .smResultText)
          return .inl () : Firmware (Unit ⊕ Unit)) p := by
    intro p hp
    exact (main_processSerialCommands hp).bind fun _ q hq => hresult q hq
  refine Protocol.Conforms.iterate (fun _ q => q.line = none ∧ q.cmd = none) ?_ ⟨rfl, rfl⟩
  rintro _ p ⟨hline, hcmd⟩
  refine .perform fun sv => ⟨p, rfl, (main_sendBroadcast sv hline).bind ?_⟩
  rintro _ q ⟨-, hqline, hqcmd⟩
  refine .perform fun linked => ⟨_, rfl, ?_⟩
  cases linked with
  | false => exact hrest _ ⟨hqline, hqcmd.trans hcmd⟩
  | true =>
    have hquiet : q.line = none ∧ q.cmd = none := ⟨hqline, hqcmd.trans hcmd⟩
    have hdrain := main_drainCommands (p := { q with linked := true }) ⟨rfl, hquiet⟩
    exact hdrain.bind fun _ r hr => hrest r hr

end Tasks
end Ble
end Ecotiter
