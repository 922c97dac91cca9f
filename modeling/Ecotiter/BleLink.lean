import Mathlib.Data.Int.Notation
import Mathlib.Data.Nat.Notation
import Ecotiter.RecordedRuns

/-!
# The BLE link

Four tasks share a `BleManager`: the main loop, the notify thread, `net_owner`, which starts the link
and watches over it, and the host task of the BLE stack, whose callbacks are here the turns of one
loop. What the stack answers and what the main loop has to say are inputs.
-/

namespace Ecotiter
open Interleaving

namespace Ble

abbrev Bytes := List UInt8

def maxCmdSize : ℕ := 256
def maxRspSize : ℕ := 2048
def cmdQueueSize : ℕ := 8
def notifyQueueSize : ℕ := 4

/-- What the serializers leave in a response buffer: the text of an object. -/
structure Text where
  bytes : Bytes
  opens : bytes.head? = some 0x7B
  fits : bytes.length < maxRspSize

inductive GapEvent
  | connect (connHandle : ℕ)
  | connectFailed
  | disconnect
  | write (om : Bytes)

inductive Source | ble | serial
  deriving DecidableEq

inductive Var : Type → Type
  | initialized : Var Bool
  | connected : Var Bool
  | connHandle : Var ℕ
  | consecutiveFailures : Var UInt8
  | connectUs : Var ℤ
  | bleError : Var Bool
  | hostStarted : Var Bool
  | notifyStarted : Var Bool

structure Mem where
  initialized : Bool := false
  connected : Bool := false
  connHandle : ℕ := 0
  consecutiveFailures : UInt8 := 0
  connectUs : ℤ := 0
  bleError : Bool := false
  hostStarted : Bool := false
  notifyStarted : Bool := false
  cmdQueue : Option (List Bytes) := none
  notifyQueue : Option (List Bytes) := none

namespace Mem

def get (m : Mem) : {α : Type} → Var α → α
  | _, .initialized => m.initialized
  | _, .connected => m.connected
  | _, .connHandle => m.connHandle
  | _, .consecutiveFailures => m.consecutiveFailures
  | _, .connectUs => m.connectUs
  | _, .bleError => m.bleError
  | _, .hostStarted => m.hostStarted
  | _, .notifyStarted => m.notifyStarted

def set (m : Mem) : {α : Type} → Var α → α → Mem
  | _, .initialized, x => { m with initialized := x }
  | _, .connected, x => { m with connected := x }
  | _, .connHandle, x => { m with connHandle := x }
  | _, .consecutiveFailures, x => { m with consecutiveFailures := x }
  | _, .connectUs, x => { m with connectUs := x }
  | _, .bleError, x => { m with bleError := x }
  | _, .hostStarted, x => { m with hostStarted := x }
  | _, .notifyStarted, x => { m with notifyStarted := x }

end Mem

inductive Act : Type → Type 1
  | load {α : Type} (v : Var α) : Act α
  | store {α : Type} (v : Var α) (x : α) : Act Unit
  | createQueues : Act Bool
  | stackCall : Act Bool                                -- of the BLE stack, and whether it succeeds
  | espTimerGetTime : Act ℤ
  | notifyQueueCreated : Act Bool
  | serialWrite (s : Bytes) : Act Unit
  | xQueueSendNotify (item : Bytes) : Act Bool
  | xQueueReceiveNotify : Act (Option Bytes)
  | xQueueSendCmd (item : Bytes) : Act Bool
  | xQueueReceiveCmd : Act (Option Bytes)
  | bleGattsNotifyCustom (data : Bytes) : Act Bool
  | gapEvent : Act GapEvent
  | broadcastText : Act (Option Text)
  | smResultText : Act (Option Text)
  | serialLine : Act (Option Bytes)
  | handle (source : Source) (line : Bytes) : Act (Option Text)

inductive Input
  | nothing
  | ok
  | time (t : ℤ)
  | text (t : Text)
  | line (l : Bytes)
  | event (ev : GapEvent)

namespace Input

def isOk : Input → Bool
  | .ok => true
  | _ => false

def text? : Input → Option Text
  | .text t => some t
  | _ => none

def line? : Input → Option Bytes
  | .line l => some l
  | _ => none

end Input

/-- Sends to a queue without waiting. -/
def xQueueSend (cap : ℕ) (item : Bytes) (queue : Option (List Bytes)) : Bool × Option (List Bytes) :=
  match queue with
  | some q => if q.length < cap then (true, some (q ++ [item])) else (false, some q)
  | none => (false, none)

def xQueueReceive (queue : Option (List Bytes)) : Option Bytes × Option (List Bytes) :=
  match queue with
  | some (item :: q) => (some item, some q)
  | _ => (none, queue)

def Act.run (m : Mem) (e : Input) : {β : Type} → Act β → β × Mem
  | _, .load v => (m.get v, m)
  | _, .store v x => ((), m.set v x)
  | _, .createQueues =>
    if e.isOk then (true, { m with cmdQueue := some [], notifyQueue := some [] }) else (false, m)
  | _, .stackCall => (e.isOk, m)
  | _, .espTimerGetTime => (match e with | .time t => t | _ => 0, m)
  | _, .notifyQueueCreated => (m.notifyQueue.isSome, m)
  | _, .serialWrite _ => ((), m)
  | _, .xQueueSendNotify item =>
    let (ok, q) := xQueueSend notifyQueueSize item m.notifyQueue
    (ok, { m with notifyQueue := q })
  | _, .xQueueReceiveNotify =>
    let (item, q) := xQueueReceive m.notifyQueue
    (item, { m with notifyQueue := q })
  | _, .xQueueSendCmd item =>
    let (ok, q) := xQueueSend cmdQueueSize item m.cmdQueue
    (ok, { m with cmdQueue := q })
  | _, .xQueueReceiveCmd =>
    let (item, q) := xQueueReceive m.cmdQueue
    (item, { m with cmdQueue := q })
  | _, .bleGattsNotifyCustom _ => (e.isOk, m)
  | _, .gapEvent => (match e with | .event ev => ev | _ => .connectFailed, m)
  | _, .broadcastText => (e.text?, m)
  | _, .smResultText => (e.text?, m)
  | _, .serialLine => (e.line?, m)
  | _, .handle _ _ => (e.text?, m)

abbrev Firmware := Program Act

def load {α : Type} (v : Var α) : Firmware α := .perform (.load v)

def store {α : Type} (v : Var α) (x : α) : Firmware Unit := .perform (.store v x)

/-! ## `BleManager` -/

/-- `BleManager::init`. -/
def init : Firmware Bool := do
  if ← load .initialized then return true
  if !(← Program.perform .createQueues) then return false
  if !(← Program.perform .stackCall) then return false      -- nimble_port_init
  if !(← Program.perform .stackCall) then return false      -- ble_gatts_count_cfg
  if !(← Program.perform .stackCall) then return false      -- ble_gatts_add_svcs
  store .hostStarted true
  store .initialized true
  return true

/-- The connection is forgotten. -/
def forget : Firmware Unit := do
  store .connected false
  store .connHandle 0
  store .consecutiveFailures 0

/-- `BleManager::process`. -/
def process : Firmware Unit := do
  if !(← load .initialized) then return ()
  if ← load .connected then
    let now ← Program.perform .espTimerGetTime
    let connectUs ← load .connectUs
    let found ← Program.perform .stackCall                  -- ble_gap_conn_find
    if !found && decide (500000 < now - connectUs) then
      forget
      let _ ← Program.perform .stackCall                    -- ble_gap_adv_start
      store .bleError false
  if (← load .connected) then
    if 5 ≤ (← load .consecutiveFailures).toNat then
      let _ ← Program.perform .stackCall                    -- ble_gap_terminate
      forget
      store .bleError true

/-- `BleManager::isConnected`. -/
def isConnected : Firmware Bool := do
  if ← load .initialized then load .connected else return false

def countFailure : Firmware Unit := do
  let failures ← load .consecutiveFailures
  store .consecutiveFailures (failures + 1)

/-- `BleManager::sendNotification`. -/
def sendNotification (data : Bytes) : Firmware Bool := do
  if !(← isConnected) then return false
  if !(← Program.perform .stackCall) then return false      -- ble_gap_conn_find
  if !(← Program.perform .stackCall) then                   -- ble_hs_mbuf_from_flat
    countFailure
    return false
  if !(← Program.perform (.bleGattsNotifyCustom data)) then
    countFailure
    return false
  store .consecutiveFailures 0
  return true

/-- `ble_hs_mbuf_to_flat` for a buffer of `cap` bytes. -/
def mbufToFlat (om : Bytes) (cap : ℕ) : Option Bytes := if om.length ≤ cap then some om else none

/-- `gapEventCallback`, and `gattEventCallback` for a write. -/
def callback : GapEvent → Firmware Unit
  | .connect connHandle => do
    store .connected true
    store .connHandle connHandle
    store .consecutiveFailures 0
    store .connectUs (← Program.perform .espTimerGetTime)
    store .bleError false
  | .connectFailed => return ()
  | .disconnect => do
    forget
    store .bleError false
    let _ ← Program.perform .stackCall                      -- ble_gap_adv_start
  | .write om =>
    match mbufToFlat om (maxCmdSize - 1) with
    | some data =>
      if 0 < data.length then do
        let _ ← Program.perform (.xQueueSendCmd data)
      else return ()
    | none => return ()

/-! ## The tasks -/

/-- Waits until another task has started this one. -/
def await (v : Var Bool) : Firmware Unit :=
  .iterate (fun _ => do if ← load v then return .inr () else return .inl ()) ()

/-- `hostTaskEntry`. -/
def hostTask : Firmware Unit := do
  await .hostStarted
  .iterate (fun _ => do
    callback (← Program.perform .gapEvent)
    return .inl ()) ()

/-- `bleNotifyLoop`. -/
def bleNotifyLoop : Firmware Unit := do
  await .notifyStarted
  .iterate (fun _ => do
    match ← Program.perform .xQueueReceiveNotify with
    | some item =>
      if item.length ≠ 0 then
        if ← isConnected then
          let _ ← sendNotification item
      return .inl ()
    | none => return .inl ()) ()

/-- `initBle` and the part of the loop of `netTaskEntry` that is about the link. -/
def netTask : Firmware Unit := do
  if ← init then store .notifyStarted true
  .iterate (fun _ => do
    process
    return .inl ()) ()

def newline : UInt8 := 10

/-- Writes a line to the serial port and offers it to the notify thread. -/
def sendLine (line : Bytes) : Firmware Unit := do
  Program.perform (.serialWrite line)
  if ← Program.perform .notifyQueueCreated then
    let _ ← Program.perform (.xQueueSendNotify (line.take maxRspSize))

def sendResponse : Option Text → Firmware Unit
  | some rsp =>
    sendLine (if rsp.bytes.length < maxRspSize then rsp.bytes ++ [newline] else rsp.bytes)
  | none => return ()

def sendBroadcast : Option Text → Firmware Unit
  | some sv => do
    Program.perform (.serialWrite sv.bytes)
    Program.perform (.serialWrite [newline])
    if ← Program.perform .notifyQueueCreated then
      let item := if sv.bytes.length < maxRspSize then sv.bytes ++ [newline] else sv.bytes
      let _ ← Program.perform (.xQueueSendNotify item)
  | none => return ()

/-- The C string at the start of a buffer. -/
def cString (data : Bytes) : Bytes := data.takeWhile (· ≠ 0)

def drainCommands : Firmware Unit :=
  .iterate (fun _ => do
    match ← Program.perform .xQueueReceiveCmd with
    | some item =>
      sendResponse (← Program.perform (.handle .ble (cString item)))
      return .inl ()
    | none => return .inr ()) ()

/-- A command of the serial line. -/
def processSerialCommands : Firmware Unit := do
  match ← Program.perform .serialLine with
  | some line => sendResponse (← Program.perform (.handle .serial line))
  | none => return

/-- The loop of `app_main`, as far as it speaks to a client. -/
def appMain : Firmware Unit :=
  .iterate (fun _ => do
    sendBroadcast (← Program.perform .broadcastText)
    if ← load .initialized then drainCommands
    processSerialCommands
    sendResponse (← Program.perform .smResultText)
    return .inl ()) ()

inductive Tid | main | notify | net | host
  deriving DecidableEq

def taskOf : Tid → Firmware Unit
  | .main => appMain
  | .notify => bleNotifyLoop
  | .net => netTask
  | .host => hostTask

def link : Semantics Act Tid Input Empty Mem where
  run _ _ a e m := a.run m e
  env h _ := h.elim

abbrev World := Recorded Act Tid Mem

def boot : Config Act Tid World := ⟨⟨{}, []⟩, taskOf⟩

/-- The configurations that the link reaches from power-up, in any interleaving of its tasks. -/
def Reachable (c : Config Act Tid World) : Prop := Steps (.any link.machine) boot c

end Ble
end Ecotiter
