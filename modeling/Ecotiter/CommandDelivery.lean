import Ecotiter.CommandOrigins
import Ecotiter.QueueLedger

/-!
# The delivery of the motor commands

`gMotorCmdQueue` is filled by the main loop and the HTTP server without waiting and emptied by the
motor task. `commandUses` is the ledger of the queue that a history gives.
-/

namespace Ecotiter
open Interleaving QueueLedger

/-- What an event does at the queue of the motor task. -/
def Event.commandUse : Event → Option (Use MotorCommand)
  | .did _ (.xQueueSend mc) ok m =>
    if ok then some (.accept mc) else m.motorCmdQueue.map fun _ => .refuse mc
  | .did _ .xQueueReceive cmd _ => cmd.map .take
  | _ => none

/-- The uses of the queue of the motor task, oldest first. -/
def commandUses : List Event → List (Use MotorCommand)
  | [] => []
  | ev :: past => commandUses past ++ ev.commandUse.toList

/-- The commands in the queue of the motor task. -/
def Mem.motorCommands (m : Mem) : List MotorCommand := m.motorCmdQueue.getD []

/-- A use changes the queue as it should, and what is no use leaves it alone. -/
def UseFits (use : Option (Use MotorCommand)) (m m' : Mem) : Prop :=
  match use with
  | some u => u.Changes Config.motorCmdQueueLen m.motorCommands m'.motorCommands
  | none => m'.motorCommands = m.motorCommands

theorem UseFits.leads {use : Option (Use MotorCommand)} {m m' : Mem} {us : List (Use MotorCommand)}
    (h : UseFits use m m') (hus : Leads Config.motorCmdQueueLen us m.motorCommands) :
    Leads Config.motorCmdQueueLen (us ++ use.toList) m'.motorCommands := by
  cases use with
  | some u => exact hus.snoc h
  | none =>
    have hsame : m'.motorCommands = m.motorCommands := h
    rw [hsame]
    exact (List.append_nil us).symm ▸ hus

theorem useFits_send (mc : MotorCommand) (t : Tid) (e : Input) (m : Mem) :
    UseFits (Event.did t (.xQueueSend mc) ((Act.xQueueSend mc).run e m).1 m).commandUse m
      ((Act.xQueueSend mc).run e m).2 := by
  cases hq : m.motorCmdQueue with
  | none => simp [Event.commandUse, UseFits, Act.run, Mem.motorCommands, hq]
  | some q =>
    by_cases hroom : q.length < Config.motorCmdQueueLen
    · simp only [Event.commandUse, UseFits, Act.run, Mem.motorCommands, hq, hroom, if_true]
      exact .accept hroom
    · simp only [Event.commandUse, UseFits, Act.run, Mem.motorCommands, hq, hroom, if_false,
        Bool.false_eq_true, Option.map_some]
      exact .refuse (Nat.not_lt.mp hroom)

theorem useFits_receive (t : Tid) (e : Input) (m : Mem) :
    UseFits (Event.did t .xQueueReceive (Act.xQueueReceive.run e m).1 m).commandUse m
      (Act.xQueueReceive.run e m).2 := by
  rcases hq : m.motorCmdQueue with _ | _ | ⟨cmd, q⟩
  · simp [Event.commandUse, UseFits, Act.run, Mem.motorCommands, hq]
  · simp [Event.commandUse, UseFits, Act.run, Mem.motorCommands, hq]
  · simp only [Event.commandUse, UseFits, Act.run, Mem.motorCommands, hq, Option.map_some]
    exact .take

/-- The queue is created once, when nothing is in it. -/
theorem useFits_create {w : World} {t : Tid} {e : Input} (hbefore : Orderly w)
    (hafter : Orderly (w.did t .createMotorCmdQueue e)) :
    UseFits none w.mem (w.did t .createMotorCmdQueue e).mem := by
  have hqueue := hafter.queue
  rw [World.did_past, pendingOrders_same rfl rfl, hbefore.queue] at hqueue
  exact hqueue.symm

theorem useFits_of_orderly {w : World} {t : Tid} {β : Type} {a : Act β} {e : Input}
    (hbefore : Orderly w) (hafter : Orderly (w.did t a e)) :
    UseFits (Event.did t a (a.run e w.mem).1 w.mem).commandUse w.mem (w.did t a e).mem := by
  have hkeep : a.writes .motorCmdQueue = false →
      (a.run e w.mem).2.motorCmdQueue = w.mem.motorCmdQueue := fun hw => Act.run_same hw e w.mem
  have hsame : a.writes .motorCmdQueue = false → UseFits none w.mem (w.did t a e).mem :=
    fun hw => congrArg (Option.getD · []) (hkeep hw)
  induction a with
  | xQueueSend mc => exact useFits_send mc t e w.mem
  | xQueueReceive => exact useFits_receive t e w.mem
  | createMotorCmdQueue => exact useFits_create hbefore hafter
  | store v x => induction v <;> exact rfl
  | gpioSetLevel pin level => cases pin <;> exact rfl
  | _ => exact hsame rfl

/-- In every run the ledger leads to the queue. -/
theorem commandUses_lead {b : Boot} {c : Config Act Tid World} (h : Reachable b c) :
    Leads Config.motorCmdQueueLen (commandUses c.shared.past) c.shared.mem.motorCommands := by
  have hwithin : Steps ((Assumption.any device).within Orderly) b.config c :=
    Steps.within h fun d hd => orderly_of_steps hd
  have h0 : Leads Config.motorCmdQueueLen (commandUses b.world.past) b.world.mem.motorCommands :=
    .nil
  refine hwithin.invariant
    (I := fun w => Leads Config.motorCmdQueueLen (commandUses w.past) w.mem.motorCommands)
    h0 ?_ ?_
  · intro t β a e w hI _ hallows
    obtain ⟨-, hbefore, hafter⟩ := hallows
    exact (useFits_of_orderly hbefore hafter).leads hI
  · intro h w w' hI _ _ hw
    obtain ⟨m, hm, rfl⟩ := device_env hw
    have hsame : Field.motorCmdQueue.Same w.mem m := Happening.run_internal hm rfl
    have hfits : UseFits none w.mem m := congrArg (Option.getD · []) hsame
    exact hfits.leads hI

end Ecotiter
