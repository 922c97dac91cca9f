import Ecotiter.DeviceSystem
import Ecotiter.ProgramOutcomes

/-!
# What one task does by itself

For the outcome of a handler that is not interleaved with other tasks the history does not matter:
the memory alone is a machine, and what the device does to it is what that machine does.
-/

namespace Ecotiter
open Interleaving Firmware

instance : Nonempty Input := ⟨.nothing⟩

/-- The memory without the history. -/
def memory : Machine Act Tid Input Happening Mem where
  exec _ _ a e m := a.run e m
  env h m := h.run m
  running m := !m.aborted

theorem reads_mem : Program.Reads (.any device) (.any memory) World.mem where
  answer _ _ _ _ _ := rfl
  state _ _ _ _ _ := rfl
  running _ := rfl
  allows _ _ _ _ _ := Iff.rfl

/-- Whatever the hardware answers, the program ends as `Q` says if it runs by itself. -/
def Leaves {α : Type} (t : Tid) (Q : α → Mem → Prop) (p : Firmware α) (m : Mem) : Prop :=
  p.Post (.any memory) t Q m

section
variable {t : Tid} {α β γ : Type} {Q : α → Mem → Prop} {m : Mem}

@[simp] theorem leaves_ret {a : α} : Leaves t Q (.ret a) m ↔ Q a m := Program.post_ret

@[simp] theorem leaves_pure {a : α} : Leaves t Q (pure a) m ↔ Q a m := Program.post_ret

@[simp] theorem leaves_act {a : Act β} {next : β → Firmware α} :
    Leaves t Q (.act a next) m ↔
      (m.aborted = false → ∀ e, Leaves t Q (next (a.run e m).1) (a.run e m).2) := by
  simp [Leaves, memory, Assumption.any]

theorem leaves_bind {p : Firmware α} {f : α → Firmware γ} {Q : γ → Mem → Prop} :
    Leaves t Q (p >>= f) m ↔ Leaves t (fun a m => Leaves t Q (f a) m) p m :=
  Program.post_bind

theorem Leaves.mono {R : α → Mem → Prop} {p : Firmware α} (h : Leaves t Q p m)
    (hQ : ∀ a m, Q a m → R a m) : Leaves t R p m :=
  Program.Post.mono h hQ

theorem leaves_of_forall {p : Firmware α} (h : ∀ a m', Q a m') : Leaves t Q p m :=
  fun a m' _ => h a m'

/-- What a task leaves behind in the device it leaves behind in the memory. -/
theorem leaves_iff {p : Firmware α} {w : World} :
    p.Post (.any device) t (fun a w => Q a w.mem) w ↔ Leaves t Q p w.mem :=
  Program.post_read reads_mem

theorem leaves_sendMotorCommand {cmd : MotorCommand} {Q : Bool → Mem → Prop}
    (hrun : m.aborted = false) :
    Leaves t Q (sendMotorCommand cmd) m ↔
      if m.motorQueueHasRoom then Q true { m with motorCmdQueue := m.motorCmdQueue.map (· ++ [cmd]) }
      else Q false m := by
  cases hq : m.motorCmdQueue with
  | none => simp [sendMotorCommand, Act.run, Mem.motorQueueHasRoom, hrun, hq]
  | some q =>
    by_cases hroom : q.length < Config.motorCmdQueueLen <;>
      simp [sendMotorCommand, Act.run, Mem.motorQueueHasRoom, hrun, hq, hroom]

end
end Ecotiter
