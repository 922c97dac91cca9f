import Ecotiter.DeviceMemory

/-!
# The effect of the atomic actions, and the device as a machine

`Act.run` is the effect of one action on the memory. The surroundings change the level of a limit
switch and run its interrupt handler; they also decide which requests arrive, what the peripherals
answer and what the tick counter reads. The device stops when a check of the platform aborts.
-/

namespace Ecotiter
open Interleaving

/-- The answer of an action and the memory it leaves. -/
def Act.run : {β : Type} → Act β → Input → Mem → β × Mem
  | _, .load v, _, m => (m.get v, m)
  | _, .store v x, _, m => ((), m.set v x)
  | _, .casBuretteState desired, _, m =>
    if m.buretteState = .idle then (true, { m with buretteState := desired }) else (false, m)
  | _, .casValveIsSettling, _, m =>
    if m.valveIsSettling then (false, m) else (true, { m with valveIsSettling := true })
  | _, .exchangeTimerArmed b, _, m => (m.valveTimerArmed, { m with valveTimerArmed := b })
  | _, .assignPendingCal f, _, m => ((), { m with pendingCal := f m.pendingCal })
  | _, .poll _ flag, _, m => (m.flag flag, m)
  | _, .storeStop flag b, _, m => ((), m.setFlag flag b)
  | _, .createMotorCmdQueue, e, m =>
    if e.espErr = .ok then (true, { m with motorCmdQueue := some [] }) else (false, m)
  | _, .createSmResultQueue, _, m => ((), { m with smResultQueue := some none })
  | _, .motorQueueCreated, _, m => (m.motorCmdQueue.isSome, m)
  | _, .xQueueSend cmd, _, m =>
    match m.motorCmdQueue with
    | none => (false, { m with aborted := true })
    | some q =>
      if q.length < Config.motorCmdQueueLen then
        (true, { m with motorCmdQueue := some (q ++ [cmd]) })
      else (false, m)
  | _, .xQueueReceive, _, m =>
    match m.motorCmdQueue with
    | some (cmd :: q) => (some cmd, { m with motorCmdQueue := some q })
    | _ => (none, m)
  | _, .xQueueOverwrite r, _, m =>
    ((), { m with smResultQueue := m.smResultQueue.map fun _ => some r })
  | _, .peekResult, _, m => (m.smResultQueue.join, m)
  | _, .waitResult, _, m =>
    (m.smResultQueue.join, { m with smResultQueue := m.smResultQueue.map fun _ => none })
  | _, .gpioSetLevel pin level, _, m => ((), m.setPin pin level)
  | _, .gpioIsrHandlerAdd e, _, m =>
    ((), m.setSwitch e { m.switch e with installed := true, pending := false })
  | _, .rmtTransmit _, e, m => (e.espErr, m)
  | _, .rmtTxWaitAllDone _, e, m => (e.espErr, m)
  | _, .positionFetchAdd n, _, m => ((), { m with position := toI32 (m.position + n) })
  | _, .positionLoad, _, m => (m.position, m)
  | _, .positionStore n, _, m => ((), { m with position := n })
  | _, .vTaskDelay _, _, m => ((), m)
  | _, .xTaskGetTickCount, e, m => (e.nat % 2 ^ 32, m)
  | _, .taskWdtReset, _, m => ((), m)
  | _, .wsBroadcast _, _, m => ((), m)
  | _, .tmcConnected, e, m => (e.espErr = .ok, m)
  | _, .tmcWriteRegister _ _, _, m => ((), m)
  | _, .tmcReadRegister _, e, m => (if e.espErr = .ok then some e.nat else none, m)
  | _, .nvsOpen _, e, m => (e.espErr = .ok, m)
  | _, .nvsGet k, e, m => (if e.espErr = .ok then m.nvs.get k else none, m)
  | _, .nvsSet k x, e, m =>
    if e.espErr = .ok then (true, { m with nvs := m.nvs.set k x }) else (false, m)
  | _, .espTimerIsCreated, _, m => (m.timerArg.isSome, m)
  | _, .espTimerCreate arg, e, m =>
    if e.espErr = .ok then (.ok, { m with timerArg := some arg }) else (e.espErr, m)
  | _, .espTimerStop, _, m =>
    if m.timerPending then (.ok, { m with timerPending := false }) else (.invalidState, m)
  | _, .espTimerStartOnce, _, m =>
    if m.timerPending then (.invalidState, m) else (.ok, { m with timerPending := true })
  | _, .espTimerExpired, e, m =>
    if m.timerPending ∧ e ≠ .nothing then (m.timerArg, { m with timerPending := false })
    else (none, m)
  | _, .abort, _, m => ((), { m with aborted := true })
  | _, .receiveRequest _, e, m =>
    (match e with | .request r => some r | _ => none, m)
  | _, .respond _, _, m => ((), m)
  | _, .resultLine _ _ _, _, m => ((), m)
  | _, .handledElsewhere, e, m => (e.espErr = .ok, m)

/-- What the surroundings do between two actions. -/
inductive Happening
  | level (e : Endstop) (active : Bool)
  | interrupt (e : Endstop)
  deriving DecidableEq, Repr

/-- A level change makes the interrupt pending on a rising edge of an installed switch; the
handler `limitswitch_isr_handler` raises the flag. -/
def Happening.run : Happening → Mem → Option Mem
  | .level e active, m =>
    let s := m.switch e
    some (m.setSwitch e
      { s with level := active, pending := s.pending || (s.installed && active && !s.level) })
  | .interrupt e, m =>
    if (m.switch e).pending then
      some ((m.setSwitch e { m.switch e with pending := false }).setFlag e.flag true)
    else none

/-- One entry of the history: who did what, with which answer, in which memory. -/
inductive Event
  | did (t : Tid) {β : Type} (a : Act β) (answer : β) (before : Mem)
  | happened (h : Happening) (before : Mem)

/-- The memory together with the history that led to it, latest event first. -/
structure World where
  mem : Mem
  past : List Event

def World.did (w : World) (t : Tid) {β : Type} (a : Act β) (e : Input) : World :=
  ⟨(a.run e w.mem).2, .did t a (a.run e w.mem).1 w.mem :: w.past⟩

def device : Machine Act Tid Input Happening World where
  exec t _ a e w := ((a.run e w.mem).1, w.did t a e)
  env h w := (h.run w.mem).map fun m => ⟨m, .happened h w.mem :: w.past⟩
  running w := !w.mem.aborted

@[simp] theorem World.did_mem (w : World) (t : Tid) {β : Type} (a : Act β) (e : Input) :
    (w.did t a e).mem = (a.run e w.mem).2 := rfl

@[simp] theorem World.did_past (w : World) (t : Tid) {β : Type} (a : Act β) (e : Input) :
    (w.did t a e).past = .did t a (a.run e w.mem).1 w.mem :: w.past := rfl

@[simp] theorem device_exec_fst (t : Tid) {β : Type} (a : Act β) (e : Input) (w : World) :
    (device.exec t a e w).1 = (a.run e w.mem).1 := rfl

@[simp] theorem device_exec_snd (t : Tid) {β : Type} (a : Act β) (e : Input) (w : World) :
    (device.exec t a e w).2 = w.did t a e := rfl

theorem device_env {h : Happening} {w w' : World} (hw : device.env h w = some w') :
    ∃ m, h.run w.mem = some m ∧ w' = ⟨m, .happened h w.mem :: w.past⟩ := by
  obtain ⟨m, hm, rfl⟩ := Option.map_eq_some_iff.mp hw
  exact ⟨m, hm, rfl⟩

end Ecotiter
