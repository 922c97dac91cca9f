import Ecotiter.ValveFlow

/-!
# Stop requests during a motion

`BuretteController` of `domain/burette.cpp` allows a stop in every state but idle. The handler of
`burette.stop` claims the burette from idle like every other operation, so that it is refused while
an operation is under way, and where it is accepted it only puts a command into the queue, which the
motor task reads after the motion.
-/

namespace Ecotiter
open Interleaving Firmware

/-- The motion under way, if any, is being left or reads its flag as set at its next chunk
boundary. -/
def motionEnds (past : List Event) (m : Mem) : Bool :=
  match motorPhase past with
  | .running _ (.moving motion p) =>
    p = .halting || p = .halted || p = .faulted || m.flag motion.flag
  | _ => true

/-- A stop request that is dispatched in this state is accepted, the motion under way ends at its next
chunk boundary, and the command that writes idle is in the queue. -/
def stopWorks (t : Tid) (req : Command) (w : World) : Bool :=
  ((dispatch req).alone device t .nothing w).any fun r =>
    r.1.kind ≠ .error && motionEnds w.past r.2.mem &&
      (r.2.mem.motorCmdQueue.getD []).any fun cmd => cmd.type = .stop

/-- The states in which the handler accepts a stop. -/
def Mem.acceptsStop (m : Mem) : Bool :=
  m.buretteState = .idle && !m.valveIsSettling && m.motorQueueHasRoom

theorem motionEnds_same {past : List Event} {m m' : Mem} (h : ∀ f, m'.flag f = m.flag f) :
    motionEnds past m' = motionEnds past m := by
  unfold motionEnds
  split
  · rw [h]
  · rfl

section Alone
variable {t : Tid} {w : World}

@[simp] theorem alone_ret {α : Type} {e : Input} (a : α) :
    (Program.ret a : Firmware α).alone device t e w = some (a, w) := rfl

@[simp] theorem alone_act {α β : Type} {e : Input} {a : Act β} {next : β → Firmware α} :
    (Program.act a next).alone device t e w =
      if w.mem.aborted then none else (next (a.run e w.mem).1).alone device t e (w.did t a e) := by
  rw [Program.alone]
  cases h : w.mem.aborted <;> simp [device, h]

attribute [local simp] load store storeStop vTaskDelay Program.pure_eq Act.run Mem.get Mem.set
  Mem.setFlag

/-- A stop command that is executed leaves idle behind. -/
theorem handleStop_idle (hrun : w.mem.aborted = false) :
    (MotorTask.handleStop.alone device t .nothing w).any fun r => r.2.mem.buretteState = .idle := by
  simp [MotorTask.handleStop, hrun]

/-- A stop request works only where the burette is idle, and it does not end a motion that would not
have ended without it. -/
theorem stopWorks_eq (hrun : w.mem.aborted = false) {req : Command} (hreq : req.type = .stop) :
    stopWorks t req w = (w.mem.acceptsStop && motionEnds w.past w.mem) := by
  have hhandler : handlerOf req = BuretteOps.handleStop := by rw [handlerOf, hreq]
  unfold stopWorks dispatch withId
  rw [hhandler]
  unfold BuretteOps.handleStop Mem.acceptsStop
  cases hsettling : w.mem.valveIsSettling with
  | true => simp [hrun, hsettling, makeErrorResponse]
  | false =>
    by_cases hidle : w.mem.buretteState = .idle
    · cases hq : w.mem.motorCmdQueue with
      | none =>
        simp [enqueueClaimed, sendMotorCommand, hrun, hsettling, hidle, hq, makeErrorResponse,
          Mem.motorQueueHasRoom]
      | some q =>
        by_cases hroom : q.length < Config.motorCmdQueueLen
        · simp [enqueueClaimed, sendMotorCommand, hrun, hsettling, hidle, hq, makeSingleResponse,
            Mem.motorQueueHasRoom, hroom]
          exact motionEnds_same fun f => by cases f <;> rfl
        · simp [enqueueClaimed, sendMotorCommand, hrun, hsettling, hidle, hq, makeErrorResponse,
            Mem.motorQueueHasRoom, hroom]
    · simp [hrun, hsettling, hidle, makeErrorResponse]

end Alone

/-- In any reachable state with a motion under way a stop request is accepted and ends the motion
exactly if the burette is idle all the same, the valve is not settling, the queue has room and the
motion ends anyway. In no busy state does it work, though `BuretteController` allows it there. -/
theorem stopWorks_iff {b : Boot} {c : Config Act Tid World} (_ : Reachable b c)
    (hrun : c.shared.mem.aborted = false) (_ : (motorPhase c.shared.past).motion?.isSome)
    {t : Tid} {req : Command} (hreq : req.type = .stop) :
    stopWorks t req c.shared ↔ c.shared.mem.acceptsStop ∧ motionEnds c.shared.past c.shared.mem := by
  rw [stopWorks_eq hrun hreq, Bool.and_eq_true]

theorem stopWorks_in_firstFill : ∃ c, Reachable {} c ∧
    c.shared.mem.buretteState = .filling ∧
    (stopWorks .http { type := .stop } c.shared ↔
      c.shared.mem.acceptsStop ∧ motionEnds c.shared.past c.shared.mem) := by
  have hrun : (device.run (Guard.any device) Script.firstFill (Boot.config {})).any (fun c =>
      (motorPhase c.shared.past).motion?.isSome && !c.shared.mem.aborted &&
        decide (c.shared.mem.buretteState = .filling)) = true := by decide +kernel
  obtain ⟨c, hsteps, hc⟩ := Machine.exists_of_run hrun
  simp only [Bool.and_eq_true, Bool.not_eq_true', decide_eq_true_eq] at hc
  obtain ⟨⟨hmotion, hrunning⟩, hfilling⟩ := hc
  exact ⟨c, hsteps.weaken, hfilling, stopWorks_iff hsteps.weaken hrunning hmotion rfl⟩

theorem stop_refused_in_firstFill : ∃ c, Reachable {} c ∧
    (motorPhase c.shared.past).motion?.isSome = true ∧
    stopWorks .http { type := .stop } c.shared = false := by
  have hrun : (device.run (Guard.any device) Script.firstFill (Boot.config {})).any (fun c =>
      (motorPhase c.shared.past).motion?.isSome &&
        !stopWorks .http { type := .stop } c.shared) = true := by decide +kernel
  obtain ⟨c, hsteps, hc⟩ := Machine.exists_of_run hrun
  obtain ⟨hmotion, hstop⟩ := (Bool.and_eq_true _ _).mp hc
  exact ⟨c, hsteps.weaken, hmotion, by simpa using hstop⟩

end Ecotiter
