import Ecotiter.DeviceActions

/-!
# What the actions leave alone

`Field` names the parts of the memory that the invariants of the device speak of, `Act.writes` which
of them an action may change. Everything else is unchanged (`Act.run_same`, `Happening.run_same`).

An action is taken apart by `induction`, here and in the later modules: its type is an index that is
a variable, and `cases` would solve an equation for it in each of the many cases.
-/

namespace Ecotiter

inductive Field
  | buretteState | direction | speed | lastCmdId | motorCmdQueue | smResultQueue | dirPin | enPin
  | flag (f : StopFlag)
  | level (e : Endstop)
  deriving DecidableEq

/-- Two memories agree in a field. -/
def Field.Same : Field → Mem → Mem → Prop
  | .buretteState, m, m' => m'.buretteState = m.buretteState
  | .direction, m, m' => m'.direction = m.direction
  | .speed, m, m' => m'.speed = m.speed
  | .lastCmdId, m, m' => m'.lastCmdId = m.lastCmdId
  | .motorCmdQueue, m, m' => m'.motorCmdQueue = m.motorCmdQueue
  | .smResultQueue, m, m' => m'.smResultQueue = m.smResultQueue
  | .dirPin, m, m' => m'.dirPin = m.dirPin
  | .enPin, m, m' => m'.enPin = m.enPin
  | .flag f, m, m' => m'.flag f = m.flag f
  | .level e, m, m' => (m'.switch e).level = (m.switch e).level

def Var.field : {α : Type} → Var α → Option Field
  | _, .buretteState => some .buretteState
  | _, .direction => some .direction
  | _, .speed => some .speed
  | _, .lastCmdId => some .lastCmdId
  | _, _ => none

def Pin.field : Pin → Option Field
  | .dir => some .dirPin
  | .en => some .enPin
  | .valve => none

/-- The field an action may change. -/
def Act.target : {β : Type} → Act β → Option Field
  | _, .store v _ => v.field
  | _, .casBuretteState _ => some .buretteState
  | _, .storeStop f _ => some (.flag f)
  | _, .createMotorCmdQueue | _, .xQueueSend _ | _, .xQueueReceive => some .motorCmdQueue
  | _, .createSmResultQueue | _, .xQueueOverwrite _ | _, .waitResult => some .smResultQueue
  | _, .gpioSetLevel pin _ => pin.field
  | _, _ => none

def Act.writes {β : Type} (a : Act β) (f : Field) : Bool := a.target = some f

theorem Field.Same.refl (f : Field) (m : Mem) : f.Same m m := by
  cases f <;> rfl

theorem Mem.same_set {α : Type} {v : Var α} {f : Field} (h : v.field ≠ some f) (x : α) (m : Mem) :
    f.Same m (m.set v x) := by
  induction v <;> cases f <;> first | rfl | exact absurd rfl h

theorem Mem.same_setPin {pin : Pin} {f : Field} (h : pin.field ≠ some f) (level : Bool) (m : Mem) :
    f.Same m (m.setPin pin level) := by
  cases pin <;> cases f <;> first | rfl | exact absurd rfl h

theorem Mem.same_setFlag {g : StopFlag} {f : Field} (h : f ≠ .flag g) (b : Bool) (m : Mem) :
    f.Same m (m.setFlag g b) := by
  cases f with
  | flag f => cases g <;> cases f <;> first | rfl | exact absurd rfl h
  | _ => cases g <;> rfl

theorem Mem.same_setSwitch {e : Endstop} {f : Field} {s : Switch} {m : Mem}
    (h : f = .level e → s.level = (m.switch e).level) : f.Same m (m.setSwitch e s) := by
  cases f with
  | level e' => cases e <;> cases e' <;> first | rfl | exact h rfl
  | _ => cases e <;> rfl

attribute [local simp] Act.run

/-- An action changes at most its target. -/
theorem Act.run_same {β : Type} {a : Act β} {f : Field} (h : a.writes f = false) (e : Input)
    (m : Mem) : f.Same m (a.run e m).2 := by
  have h : a.target ≠ some f := by simpa [Act.writes] using h
  induction a with
  | store v x => exact Mem.same_set h x m
  | gpioSetLevel pin level => exact Mem.same_setPin h level m
  | storeStop g b => exact Mem.same_setFlag (fun hf => h (congrArg some hf.symm)) b m
  | gpioIsrHandlerAdd e' => exact Mem.same_setSwitch fun _ => rfl
  | casBuretteState desired | createMotorCmdQueue | xQueueReceive | casValveIsSettling
  | nvsSet k x | espTimerCreate arg | espTimerStop | espTimerStartOnce | espTimerExpired =>
    simp only [Act.run]
    split <;> cases f <;> first | rfl | exact absurd rfl h
  | xQueueSend cmd =>
    simp only [Act.run]
    split
    · cases f <;> rfl
    · split <;> cases f <;> first | rfl | exact absurd rfl h
  | _ => cases f <;> first | rfl | exact absurd rfl h

/-- The command that is received was the first in the queue. -/
theorem Act.run_receive {e : Input} {m : Mem} {cmd : MotorCommand}
    (h : (Act.xQueueReceive.run e m).1 = some cmd) :
    ∃ q, m.motorCmdQueue = some (cmd :: q) ∧
      (Act.xQueueReceive.run e m).2.motorCmdQueue = some q := by
  simp only [Act.run] at h ⊢
  split at h
  case h_1 cmd' q hq =>
    cases h
    exact ⟨q, hq, rfl⟩
  case h_2 => cases h

theorem Act.run_receiveNone {e : Input} {m : Mem} (h : (Act.xQueueReceive.run e m).1 = none) :
    (Act.xQueueReceive.run e m).2 = m := by
  simp only [Act.run] at h ⊢
  split at h
  case h_1 => cases h
  case h_2 => rfl

/-- A command that is sent becomes the last in the queue. -/
theorem Act.run_send {e : Input} {m : Mem} {cmd : MotorCommand}
    (h : ((Act.xQueueSend cmd).run e m).1 = true) :
    ∃ q, m.motorCmdQueue = some q ∧
      ((Act.xQueueSend cmd).run e m).2.motorCmdQueue = some (q ++ [cmd]) := by
  simp only [Act.run] at h ⊢
  split at h
  case h_1 => cases h
  case h_2 q hq =>
    split at h
    case isTrue hlen => exact ⟨q, hq, by simp [hlen]⟩
    case isFalse => cases h

theorem Act.run_sendFails {e : Input} {m : Mem} {cmd : MotorCommand}
    (h : ((Act.xQueueSend cmd).run e m).1 = false) :
    ((Act.xQueueSend cmd).run e m).2.motorCmdQueue = m.motorCmdQueue := by
  simp only [Act.run] at h ⊢
  split at h
  case h_1 hq => exact hq ▸ rfl
  case h_2 q hq =>
    split at h
    case isTrue => cases h
    case isFalse hlen => simp [hlen]

/-- A successful exchange finds the state idle. -/
theorem Act.run_cas {e : Input} {m : Mem} {desired : BuretteState}
    (h : ((Act.casBuretteState desired).run e m).1 = true) :
    m.buretteState = .idle ∧
      ((Act.casBuretteState desired).run e m).2.buretteState = desired := by
  simp only [Act.run] at h ⊢
  split at h
  case isTrue hidle => exact ⟨hidle, by simp [hidle]⟩
  case isFalse => cases h

theorem Act.run_casFails {e : Input} {m : Mem} {desired : BuretteState}
    (h : ((Act.casBuretteState desired).run e m).1 = false) :
    ((Act.casBuretteState desired).run e m).2 = m := by
  simp only [Act.run] at h ⊢
  split at h
  case isTrue => cases h
  case isFalse hidle => simp [hidle]

/-- A level change writes one level, an interrupt raises one flag. -/
def Happening.target : Happening → Field
  | .level e _ => .level e
  | .interrupt e => .flag e.flag

theorem Happening.run_same {h : Happening} {m m' : Mem} (hr : h.run m = some m') {f : Field}
    (hf : f ≠ h.target) : f.Same m m' := by
  cases h with
  | level e active =>
    cases hr
    exact Mem.same_setSwitch fun he => absurd he hf
  | interrupt e =>
    simp only [Happening.run] at hr
    split at hr
    case isTrue =>
      cases hr
      have hswitch : f.Same m (m.setSwitch e { m.switch e with pending := false }) :=
        Mem.same_setSwitch fun _ => rfl
      have hflag := Mem.same_setFlag hf true (m.setSwitch e { m.switch e with pending := false })
      cases f <;> exact hflag.trans hswitch
    case isFalse => cases hr

/-- What happens at the switches reaches the firmware only through the levels and the flags. -/
def Field.external : Field → Bool
  | .flag _ | .level _ => true
  | _ => false

theorem Happening.run_internal {h : Happening} {m m' : Mem} (hr : h.run m = some m') {f : Field}
    (hf : f.external = false) : f.Same m m' := by
  refine Happening.run_same hr ?_
  rintro rfl
  cases h <;> cases hf

theorem Happening.flag_of_interrupt {e : Endstop} {m m' : Mem}
    (hr : (Happening.interrupt e).run m = some m') : m'.flag e.flag = true := by
  simp only [Happening.run] at hr
  split at hr
  case isTrue =>
    cases hr
    cases e <;> rfl
  case isFalse => cases hr

/-- A flag is lowered only by a store. -/
theorem Happening.flag_mono {h : Happening} {m m' : Mem} (hr : h.run m = some m') {f : StopFlag}
    (hf : m.flag f = true) : m'.flag f = true := by
  by_cases ht : Field.flag f = h.target
  · cases h with
    | level e active => cases ht
    | interrupt e =>
      cases ht
      exact Happening.flag_of_interrupt hr
  · have hsame : m'.flag f = m.flag f := Happening.run_same hr ht
    rw [hsame, hf]

end Ecotiter
