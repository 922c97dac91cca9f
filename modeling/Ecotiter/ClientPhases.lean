import Ecotiter.MotorPhases

/-!
# The phases of the clients and of the timer task

The control flow of the main loop, of the HTTP server and of the timer task as automata over their
actions. A client handling a request may claim the burette, hand the claim over with a motor command
or put idle back; `leaking` is the branch in which a handler returns with its claim. The main loop
also notes the id of a command it accepted and drains results.
-/

namespace Ecotiter
open Interleaving

/-- What the handler of the current request has done with `gBuretteState`. -/
inductive ClaimStage
  | fresh                        -- nothing claimed
  | claimed                      -- moved out of idle
  | leaking                      -- claimed, and bound to return without releasing
  | released                     -- idle put back
  | queued (mc : MotorCommand)   -- the claim is in the motor command queue
  | noted (mc : MotorCommand)    -- and the id of the request is stored
  deriving DecidableEq

/-- The claim is still the handler's. -/
def ClaimStage.holds : ClaimStage → Bool
  | .claimed | .leaking => true
  | _ => false

/-- The stages in which a handler returns. -/
def ClaimStage.returned : ClaimStage → Bool
  | .claimed | .noted _ => false
  | _ => true

/-- The request was accepted and a result will follow. -/
def ClaimStage.accepted : ClaimStage → Bool
  | .queued mc => mc.type.producesResult
  | .noted _ => true
  | _ => false

inductive ClientPhase
  | waiting
  | refusing                                   -- the line did not parse
  | handling (cmd : Command) (s : ClaimStage)
  | draining (r : SmResult) (id : Option ℕ)
  deriving DecidableEq

/-- The command a request leads to, on each route. -/
def dispatched : Source → Request → Option Command
  | .httpValvePost, .command cmd =>
    cmd.valvePos.map fun pos => { type := .valveSetPosition, valvePos := some pos }
  | .httpValveGet, _ => some { type := .valveGetState }
  | _, .command cmd => some cmd
  | _, .malformed _ => none

namespace ClientPhase

/-- The client is serving a request. -/
def midCall : ClientPhase → Bool
  | .refusing | .handling _ _ => true
  | _ => false

/-- The claim with which a client is inside a handler. -/
def holds : ClientPhase → Bool
  | .handling _ s => s.holds
  | _ => false

def onReceive (source : Source) (req : Option Request) : ClientPhase → Option ClientPhase
  | .waiting =>
    match req with
    | none => some .waiting
    | some req => some ((dispatched source req).elim .refusing fun cmd => .handling cmd .fresh)
  | _ => none

/-- The handlers that load the cache with a claim return if it is empty, and `handleDoseVolume`
also if the dose cannot be planned. -/
def claimUsable (cmd : Command) : Option CalibrationData → Bool
  | none => false
  | some cal => cmd.type ≠ .doseVolume || cmd.volume.any fun v => doseVolumeValid v cal

def onLoadCal (cal : Option CalibrationData) : ClientPhase → Option ClientPhase
  | .handling cmd .claimed =>
    some (.handling cmd (if claimUsable cmd cal then .claimed else .leaking))
  | p => some p

def onLoadId (id : ℕ) : ClientPhase → Option ClientPhase
  | .draining r none => some (.draining r (some id))
  | p => some p

def onCas (desired : BuretteState) (ok : Bool) : ClientPhase → Option ClientPhase
  | .handling cmd .fresh =>
    if desired = .error then
      if cmd.type = .emergencyStop then some (.handling cmd .fresh) else none
    else if desired.isBusy then some (.handling cmd (if ok then .claimed else .fresh))
    else none
  | _ => none

def onSend (mc : MotorCommand) (ok : Bool) : ClientPhase → Option ClientPhase
  | .handling cmd .claimed =>
    if mc.type.restoresIdle then some (.handling cmd (if ok then .queued mc else .claimed))
    else none
  | .handling cmd .fresh =>
    if mc.type.restoresIdle then none else some (.handling cmd .fresh)
  | _ => none

def onStoreState (x : BuretteState) : ClientPhase → Option ClientPhase
  | .handling cmd .claimed => if x = .idle then some (.handling cmd .released) else none
  | _ => none

def onStoreId (isMain : Bool) (id : ℕ) : ClientPhase → Option ClientPhase
  | .handling cmd (.queued mc) =>
    if isMain ∧ mc.type.producesResult ∧ id = cmd.id then some (.handling cmd (.noted mc)) else none
  | _ => none

def onStoreStop (flag : StopFlag) (b : Bool) : ClientPhase → Option ClientPhase
  | .handling cmd .fresh =>
    if cmd.type = .emergencyStop ∧ flag = .stopFull ∧ b then some (.handling cmd .fresh) else none
  | _ => none

def onRespond (isMain : Bool) (rsp : CommandResponse) : ClientPhase → Option ClientPhase
  | .refusing => some .waiting
  | .handling _ s =>
    if s = .claimed then none
    else if (rsp.kind = .ackThen) ↔ s.accepted then
      match s with
      | .queued _ => if isMain && s.accepted then none else some .waiting
      | _ => some .waiting
    else none
  | _ => none

def onWaitResult (isMain : Bool) (r : Option SmResult) : ClientPhase → Option ClientPhase
  | .waiting => if isMain then some (r.elim .waiting fun r => .draining r none) else none
  | _ => none

def onResultLine (id : ℕ) (r : SmResult) : ClientPhase → Option ClientPhase
  | .draining r' (some id') => if r = r' ∧ id = id' then some .waiting else none
  | _ => none

/-- Actions of a handler that do not concern the claim. -/
def onHandling : ClientPhase → Option ClientPhase
  | .handling cmd s => some (.handling cmd s)
  | _ => none

def next (isMain : Bool) (p : ClientPhase) : {β : Type} → Act β → β → Option ClientPhase
  | _, .load .calCache, cal => onLoadCal cal p
  | _, .load .lastCmdId, id => onLoadId id p
  | _, .load _, _ => some p
  | _, .store .buretteState x, _ => onStoreState x p
  | _, .store .lastCmdId id, _ => onStoreId isMain id p
  | _, .store .calCache _, _ => some p
  | _, .store .valveIsSettling _, _ => onHandling p
  | _, .store .direction _, _ => onHandling p
  | _, .store .speed _, _ => onHandling p
  | _, .store .accel _, _ => onHandling p
  | _, .store .stallGuardThreshold _, _ => onHandling p
  | _, .store .valvePosition _, _ => onHandling p
  | _, .store .pendingCal _, _ => onHandling p
  | _, .casBuretteState desired, ok => onCas desired ok p
  | _, .casValveIsSettling, _ => onHandling p
  | _, .exchangeTimerArmed _, _ => onHandling p
  | _, .assignPendingCal _, _ => onHandling p
  | _, .storeStop flag b, _ => onStoreStop flag b p
  | _, .motorQueueCreated, _ => onHandling p
  | _, .xQueueSend mc, ok => onSend mc ok p
  | _, .peekResult, _ => onHandling p
  | _, .waitResult, r => onWaitResult isMain r p
  | _, .gpioSetLevel .valve _, _ => onHandling p
  | _, .espTimerIsCreated, _ | _, .espTimerCreate _, _ | _, .espTimerStop, _
  | _, .espTimerStartOnce, _ | _, .abort, _ | _, .handledElsewhere, _ => onHandling p
  | _, .nvsOpen _, _ | _, .nvsGet _, _ | _, .nvsSet _ _, _ | _, .vTaskDelay _, _ => some p
  | _, .receiveRequest source, req => onReceive source req p
  | _, .respond rsp, _ => onRespond isMain rsp p
  | _, .resultLine id r _, _ => onResultLine id r p
  | _, _, _ => none

@[simp] theorem next_nvsOpen {isMain ok : Bool} {p : ClientPhase} {readWrite : Bool} :
    p.next isMain (.nvsOpen readWrite) ok = some p := by
  simp only [next]

@[simp] theorem next_nvsGet {isMain : Bool} {p : ClientPhase} {α : Type} {k : NvsKey α}
    {x : Option α} : p.next isMain (.nvsGet k) x = some p := by
  simp only [next]

@[simp] theorem next_nvsSet {isMain ok : Bool} {p : ClientPhase} {α : Type} {k : NvsKey α}
    {x : α} : p.next isMain (.nvsSet k x) ok = some p := by
  simp only [next]

end ClientPhase

inductive TimerPhase
  | idle | fired (pos : ValvePosition) | announced | cleared
  deriving DecidableEq

namespace TimerPhase

def onExpired (pos : Option ValvePosition) : TimerPhase → Option TimerPhase
  | .idle => some (pos.elim .idle .fired)
  | _ => none

def onBroadcast (event : WsEvent) : TimerPhase → Option TimerPhase
  | .fired pos => if event = .valveSettled pos then some .announced else none
  | _ => none

def onStore (p : TimerPhase) : {α : Type} → Var α → α → Option TimerPhase
  | _, .valveIsSettling, b => if p = .announced ∧ b = false then some .cleared else none
  | _, .valveTimerArmed, b => if p = .cleared ∧ b = false then some .idle else none
  | _, _, _ => none

def next (p : TimerPhase) : {β : Type} → Act β → β → Option TimerPhase
  | _, .espTimerExpired, pos => onExpired pos p
  | _, .wsBroadcast event, _ => onBroadcast event p
  | _, .store v x, _ => onStore p v x
  | _, _, _ => none

end TimerPhase

def clientProtocol (isMain : Bool) : Protocol Act ClientPhase :=
  ⟨fun p _ a b => p.next isMain a b⟩

def timerProtocol : Protocol Act TimerPhase := ⟨fun p _ a b => p.next a b⟩

/-- The phase of a client after a history. -/
def clientPhase (t : Tid) : List Event → ClientPhase
  | [] => .waiting
  | .did t' a b _ :: past =>
    if t' = t then ((clientPhase t past).next (t = .main) a b).getD (clientPhase t past)
    else clientPhase t past
  | .happened _ _ :: past => clientPhase t past

def timerPhase : List Event → TimerPhase
  | [] => .idle
  | .did .timer a b _ :: past => ((timerPhase past).next a b).getD (timerPhase past)
  | .did _ _ _ _ :: past => timerPhase past
  | .happened _ _ :: past => timerPhase past

@[simp] theorem clientPhase_nil (t : Tid) : clientPhase t [] = .waiting := rfl

@[simp] theorem clientPhase_self {β : Type} (t : Tid) (a : Act β) (b : β) (m : Mem)
    (past : List Event) :
    clientPhase t (.did t a b m :: past) =
      ((clientPhase t past).next (t = .main) a b).getD (clientPhase t past) := by
  simp only [clientPhase, if_true]

theorem clientPhase_other {t t' : Tid} (h : t' ≠ t) {β : Type} (a : Act β) (b : β) (m : Mem)
    (past : List Event) : clientPhase t (.did t' a b m :: past) = clientPhase t past := by
  simp only [clientPhase, if_neg h]

@[simp] theorem clientPhase_happened (t : Tid) (h : Happening) (m : Mem) (past : List Event) :
    clientPhase t (.happened h m :: past) = clientPhase t past := rfl

@[simp] theorem timerPhase_nil : timerPhase [] = .idle := rfl

theorem timerPhase_other {t : Tid} (ht : t ≠ .timer) {β : Type} (a : Act β) (b : β) (m : Mem)
    (past : List Event) : timerPhase (.did t a b m :: past) = timerPhase past := by
  cases t with
  | timer => exact absurd rfl ht
  | main | http | motor => rfl

end Ecotiter
