import Ecotiter.MotorTaskRule
import Ecotiter.RequestCommands
import Ecotiter.StepSymbols
import Ecotiter.ValveFlow

/-!
# The parameters of a motion by steps

`execute_move_steps` takes the direction and the frequency of a motion from the globals. They are the
ones the command records only while nobody changes the globals between the sending of the command
and the two readings. The motor task is followed from the command it takes to the symbols it sends.
-/

namespace Ecotiter
open Interleaving Firmware

/-! ## The motor task under a command -/

/-- The command the motor task took out of the queue last. -/
def underWay : List Event → Option MotorCommand
  | [] => none
  | ev :: past => ev.received.or (underWay past)

/-- A motion by steps is executed in the direction and at the frequency its command records. -/
def ExecutesOwn : List Event → Prop :=
  Throughout fun ev past => ∀ cmd ∈ underWay past, cmd.type = .moveSteps → ev.transmits →
    ev.before.dirPin = cmd.direction.level ∧ ev.symbols.all (isSymbolOf [cmd.speedHz])

instance : DecidablePred ExecutesOwn := decidableThroughout _

/-- What the motor task has read and set for a motion by steps. -/
inductive StepsPhase
  | free
  | taken (cmd : MotorCommand)
  | headed (cmd : MotorCommand) (dir : Direction)
  | turned (cmd : MotorCommand) (dir : Direction)
  | timed (cmd : MotorCommand) (dir : Direction) (freq : ℕ)

namespace StepsPhase

def command : StepsPhase → Option MotorCommand
  | .free => none
  | .taken cmd | .headed cmd _ | .turned cmd _ | .timed cmd _ _ => some cmd

def head (p : StepsPhase) (dir : Direction) : StepsPhase :=
  match p with
  | .taken cmd => .headed cmd dir
  | p => p

def turn (p : StepsPhase) (level : Bool) : Option StepsPhase :=
  match p with
  | .free => some .free
  | .headed cmd dir => if level = dir.level then some (.turned cmd dir) else none
  | _ => none

def time (p : StepsPhase) (speed : ℕ) : StepsPhase :=
  match p with
  | .turned cmd dir => .timed cmd dir (clampStepFreq speed)
  | p => p

def sends (p : StepsPhase) (symbols : List RmtSymbol) : Bool :=
  match p with
  | .free => true
  | .timed _ _ freq => symbols.all (isSymbolOf [freq])
  | _ => false

def isFree : StepsPhase → Bool
  | .free => true
  | _ => false

def next (p : StepsPhase) : {β : Type} → Act β → β → Option StepsPhase
  | _, .xQueueReceive, some cmd => some (if cmd.type = .moveSteps then .taken cmd else .free)
  | _, .load .direction, dir => some (p.head dir)
  | _, .gpioSetLevel .dir level, _ => p.turn level
  | _, .load .speed, speed => some (p.time speed)
  | _, .rmtTransmit symbols, _ => if p.sends symbols then some p else none
  | _, .store .direction _, _ | _, .store .speed _, _ => if p.isFree then some p else none
  | _, _, _ => some p

end StepsPhase

def stepsProtocol : Protocol Act StepsPhase := ⟨StepsPhase.next⟩

/-- The actions that concern no motion by steps. -/
def Act.calm : {β : Type} → Act β → Bool
  | _, .xQueueReceive | _, .rmtTransmit _ | _, .gpioSetLevel .dir _ => false
  | _, .load .direction | _, .load .speed | _, .store .direction _ | _, .store .speed _ => false
  | _, _ => true

section Conformance
variable {p : StepsPhase} {β α : Type}

theorem next_calm {a : Act β} (h : a.calm) (b : β) : stepsProtocol.next p a b = some p := by
  induction a with
  | load v => induction v <;> first | rfl | cases h
  | store v x => induction v <;> first | rfl | cases h
  | gpioSetLevel pin level => cases pin <;> first | rfl | cases h
  | _ => first | rfl | cases h

/-- Any other action than the taking of a command. -/
def Act.stays : {β : Type} → Act β → Bool
  | _, .xQueueReceive => false
  | _, _ => true

theorem next_free {a : Act β} (h : a.stays) (b : β) :
    stepsProtocol.next .free a b = some .free := by
  induction a with
  | load v => induction v <;> rfl
  | store v x => induction v <;> rfl
  | gpioSetLevel pin level => cases pin <;> rfl
  | _ => first | rfl | cases h

theorem conforms_calm {prog : Firmware α} (h : prog.Only Act.calm) :
    stepsProtocol.Conforms (fun _ q => q = p) prog p :=
  h.keeps fun _ b ha => next_calm ha b

/-- The actions of a motion at a known frequency. -/
def Act.calmAt (freq : ℕ) : {β : Type} → Act β → Bool
  | _, .rmtTransmit symbols => symbols.all (isSymbolOf [freq])
  | _, a => a.calm

theorem calmAt_of_ofChunk {freq : ℕ} (a : Act β) (hchunk : a.ofChunk) (hsends : a.sendsAt [freq]) :
    a.calmAt freq := by
  induction a with
  | rmtTransmit symbols => exact hsends
  | gpioSetLevel pin level => cases pin <;> first | rfl | cases hchunk
  | _ => first | rfl | cases hchunk

theorem conforms_timed {cmd : MotorCommand} {dir : Direction} {freq : ℕ} {prog : Firmware α}
    (h : prog.Only (Act.calmAt freq)) :
    stepsProtocol.Conforms (fun _ q => q = .timed cmd dir freq) prog (.timed cmd dir freq) := by
  refine h.keeps fun a b ha => ?_
  induction a with
  | load v => induction v <;> rfl
  | store v x => induction v <;> first | rfl | cases ha
  | gpioSetLevel pin level => cases pin <;> first | rfl | cases ha
  | rmtTransmit symbols => exact if_pos ha
  | _ => first | rfl | cases ha

theorem calmAt_moveStepsIntervals {freq n : ℕ} :
    (StepperMotor.moveStepsIntervals (List.replicate n (1000000 / freq)) .stopFull).Only
      (Act.calmAt freq) := by
  have hsends : (StepperMotor.moveStepsIntervals (List.replicate n (1000000 / freq))
      .stopFull).Only (Act.sendsAt [freq]) :=
    sendsAt_moveStepsIntervals (List.mem_singleton_self freq)
  refine (only_moveStepsIntervals.and hsends).mono fun a ha => ?_
  rw [Bool.and_eq_true] at ha
  exact calmAt_of_ofChunk a ha.1 ha.2

theorem calmAt_stepsLoop {freq : ℕ} {steps : ℤ} :
    (stepsLoop (1000000 / freq) steps).Only (Act.calmAt freq) := by
  refine .iterate fun remaining => ?_
  split
  · exact trivial
  refine .andThen rfl fun _ => .andThen rfl fun seen => ?_
  cases seen with
  | true => exact trivial
  | false =>
    refine calmAt_moveStepsIntervals.bind fun moved => ?_
    rcases moved with ⟨_ | _⟩ | _
    · exact .andThen rfl fun _ => trivial
    · exact trivial
    · exact trivial

theorem conforms_executeMoveSteps {cmd : MotorCommand} {steps : ℤ} :
    stepsProtocol.Conforms (fun _ _ => True) (executeMoveSteps steps) (.taken cmd) := by
  unfold executeMoveSteps
  split
  · exact Protocol.conforms_pure.mpr trivial
  refine .perform fun dir => ⟨.headed cmd dir, rfl, ?_⟩
  refine .perform fun _ => ⟨.turned cmd dir, if_pos rfl, ?_⟩
  refine .perform fun _ => ⟨.turned cmd dir, rfl, ?_⟩
  refine .perform fun speed => ⟨.timed cmd dir (clampStepFreq speed), rfl, ?_⟩
  have hquotient : quotient 1000000 (clampStepFreq speed) =
      pure (1000000 / clampStepFreq speed) := by
    have hlow := (clampStepFreq_bounds speed).1
    have hzero : clampStepFreq speed ≠ 0 := Nat.ne_of_gt (Nat.lt_of_lt_of_le (by decide) hlow)
    rw [quotient, if_neg hzero]
  rw [hquotient]
  exact (conforms_timed calmAt_stepsLoop).mono fun _ _ _ => trivial

theorem conforms_handleMoveSteps {cmd : MotorCommand} :
    stepsProtocol.Conforms (fun _ _ => True) (MotorTask.handleMoveSteps cmd) (.taken cmd) := by
  refine .perform fun _ => ⟨.taken cmd, rfl, conforms_executeMoveSteps.bind fun _ p _ => ?_⟩
  refine .perform fun pos => ⟨p, rfl, ?_⟩
  have hstore : ∀ steps, (storeResult .none steps 0 [] 0).Only Act.calm := fun steps =>
    .andThen rfl fun _ => .andThen rfl fun _ => ⟨rfl, fun _ => trivial⟩
  exact (conforms_calm (hstore _)).mono fun _ _ _ => trivial

theorem stays_directRule (cmd : MotorCommand) : DirectRule Act.stays cmd where
  drive a h := by induction a <;> first | rfl | cases h
  publish _ _ := rfl
  timer := ⟨rfl, rfl, rfl, rfl⟩
  abort := .inr rfl

theorem free_runnerRule : RunnerRule stepsProtocol .free (fun _ => True) (· = .free) := by
  refine .of_only (S := Act.stays) (fun a b ha => next_free ha b) (fun _ _ => trivial)
    (fun _ => trivial) ?_ ?_ fun _ _ => rfl
  · intro f _
    exact ⟨(stays_directRule {}).drive, fun _ => rfl, fun _ => rfl, fun _ => rfl, .inr rfl⟩
  · intro β a ha
    induction a <;> first | rfl | cases ha

theorem steps_taskRule : TaskRule stepsProtocol (fun _ => True) (· = .free) := by
  refine .of_drive (fun _ => trivial) ?_ ?_ ?_
  · rintro _ rfl β a b ha
    have hstays : a.stays := by
      induction a <;> first | rfl | cases ha
    exact ⟨.free, next_free hstays b, rfl⟩
  · intro p _ β a b ha
    refine ⟨p, ?_, trivial⟩
    induction a with
    | store v x => induction v <;> first | rfl | cases ha
    | xQueueReceive =>
      cases b with
      | none => rfl
      | some cmd => cases ha
    | _ => first | rfl | cases ha
  · intro p _ cmd
    refine ⟨_, rfl, ?_⟩
    by_cases hsteps : cmd.type = .moveSteps
    · rw [if_pos hsteps, MotorTask.handle, hsteps]
      exact conforms_handleMoveSteps
    · rw [if_neg hsteps]
      split
      case isTrue => rfl
      case isFalse hplain =>
        by_cases hs : cmd.type.selects
        · exact (free_runnerRule.handle hs (fun _ _ => rfl) fun _ _ _ => trivial).mono
            fun _ _ _ => trivial
        · have honly := (stays_directRule cmd).only_handle (Bool.eq_false_iff.mpr hs)
            (Bool.eq_false_iff.mpr hplain)
          exact (honly.keeps fun a b ha => next_free ha b).mono fun _ _ _ => trivial

theorem conforms_motorTaskEntry :
    stepsProtocol.Conforms (fun _ _ => True) MotorTask.motorTaskEntry .free :=
  steps_taskRule.motorTaskEntry rfl

end Conformance

/-! ## What keeps the globals as the command records them -/

namespace MotorCommand

/-- The frequency in the memory is the one the command records, and the motor task will not clamp
it. -/
def timely (cmd : MotorCommand) (m : Mem) : Bool :=
  m.speed = cmd.speedHz && Config.stepFreqMinHz ≤ cmd.speedHz &&
    cmd.speedHz ≤ Config.stepFreqMaxHz

def recordedIn (cmd : MotorCommand) (m : Mem) : Bool :=
  m.direction = cmd.direction && cmd.timely m

theorem timely_iff {cmd : MotorCommand} {m : Mem} : cmd.timely m ↔
    m.speed = cmd.speedHz ∧ Config.stepFreqMinHz ≤ cmd.speedHz ∧
      cmd.speedHz ≤ Config.stepFreqMaxHz := by
  simp [timely, and_assoc]

theorem recordedIn_iff {cmd : MotorCommand} {m : Mem} :
    cmd.recordedIn m ↔ m.direction = cmd.direction ∧ cmd.timely m := by
  simp [recordedIn]

end MotorCommand

def stepsPhase (past : List Event) : StepsPhase := phaseAfter stepsProtocol .free .motor past

def StepsPhase.awaitsDirection : StepsPhase → Bool
  | .taken _ => true
  | _ => false

def StepsPhase.awaitsSpeed : StepsPhase → Bool
  | .taken _ | .headed _ _ | .turned _ _ => true
  | _ => false

def Mem.stepsQueued (m : Mem) : Bool :=
  (m.motorCmdQueue.getD []).any fun cmd => cmd.type = .moveSteps

/-- A motion by steps is sent while the globals are as its command records them, and as long as one
is queued or its readings are not done the globals are not changed. -/
def parametersHeld : Guard device where
  allows _ _ a _ w :=
    match a with
    | .xQueueSend cmd => cmd.type ≠ .moveSteps || !w.mem.motorQueueHasRoom || cmd.recordedIn w.mem
    | .store .direction x =>
      x = w.mem.direction || !(w.mem.stepsQueued || (stepsPhase w.past).awaitsDirection)
    | .store .speed x =>
      x = w.mem.speed || !(w.mem.stepsQueued || (stepsPhase w.past).awaitsSpeed)
    | _ => true
  allowsEnv _ _ := true

/-- What is known of the memory and of what the motor task has read. -/
def StepsPhase.Upheld : StepsPhase → Mem → Prop
  | .free, _ => True
  | .taken cmd, m => m.direction = cmd.direction ∧ cmd.timely m
  | .headed cmd dir, m => dir = cmd.direction ∧ cmd.timely m
  | .turned cmd _, m => m.dirPin = cmd.direction.level ∧ cmd.timely m
  | .timed cmd _ freq, m => m.dirPin = cmd.direction.level ∧ freq = cmd.speedHz

def IsSteps (cmd : MotorCommand) : Prop := cmd.type = .moveSteps

structure ParametersKept (w : World) : Prop where
  queued : ∀ cmd ∈ w.mem.motorCmdQueue.getD [], IsSteps cmd → cmd.recordedIn w.mem
  upheld : (stepsPhase w.past).Upheld w.mem
  current : ∀ cmd, IsSteps cmd → (underWay w.past = some cmd ↔ (stepsPhase w.past).command = some cmd)
  executes : ExecutesOwn w.past

section Steps
variable {w : World} {t : Tid} {β : Type} {a : Act β} {e : Input}

/-- What a command that is in the queue now was before: queued, or just sent. -/
theorem Act.queued_before {m : Mem} {cmd : MotorCommand}
    (h : cmd ∈ (a.run e m).2.motorCmdQueue.getD []) :
    cmd ∈ m.motorCmdQueue.getD [] ∨
      (⟨β, a⟩ : Σ β, Act β) = ⟨_, .xQueueSend cmd⟩ ∧ m.motorQueueHasRoom := by
  have hkeep : a.writes .motorCmdQueue = false →
      (a.run e m).2.motorCmdQueue = m.motorCmdQueue := fun hw => Act.run_same hw e m
  induction a with
  | xQueueSend mc =>
    cases hb : ((Act.xQueueSend mc).run e m).1 with
    | true =>
      obtain ⟨q, hq, hafter⟩ := Act.run_send hb
      rw [hafter, Option.getD_some, List.mem_append, List.mem_singleton] at h
      rcases h with h | rfl
      · exact .inl (by rwa [hq])
      · refine .inr ⟨rfl, ?_⟩
        simp only [Act.run, hq] at hb
        split at hb
        case isTrue hlen => simp [Mem.motorQueueHasRoom, hq, hlen]
        case isFalse => cases hb
    | false =>
      rw [Act.run_sendFails hb] at h
      exact .inl h
  | xQueueReceive =>
    cases hb : ((Act.xQueueReceive).run e m).1 with
    | some mc =>
      obtain ⟨q, hq, hafter⟩ := Act.run_receive hb
      rw [hafter] at h
      rw [hq]
      exact .inl (List.mem_cons_of_mem _ h)
    | none =>
      rw [Act.run_receiveNone hb] at h
      exact .inl h
  | createMotorCmdQueue =>
    simp only [Act.run] at h
    split at h
    · cases h
    · exact .inl h
  | store v x => induction v <;> exact .inl h
  | gpioSetLevel pin level => cases pin <;> exact .inl h
  | _ =>
    rw [hkeep rfl] at h
    exact .inl h

theorem Mem.stepsQueued_of_mem {m : Mem} {cmd : MotorCommand}
    (h : cmd ∈ m.motorCmdQueue.getD []) (hs : IsSteps cmd) : m.stepsQueued :=
  List.any_eq_true.mpr ⟨cmd, h, decide_eq_true hs⟩

/-- The direction does not change while it is awaited. -/
theorem direction_kept (hC : parametersHeld.allows t a e w)
    (h : w.mem.stepsQueued || (stepsPhase w.past).awaitsDirection) :
    (a.run e w.mem).2.direction = w.mem.direction := by
  by_cases hw : a.writes .direction
  · induction a with
    | store v x =>
      induction v with
      | direction =>
        have hC : (x = w.mem.direction || !(w.mem.stepsQueued ||
          (stepsPhase w.past).awaitsDirection)) = true := hC
        rw [h, Bool.not_true, Bool.or_false] at hC
        exact of_decide_eq_true hC
      | _ => cases hw
    | gpioSetLevel pin level => cases pin <;> cases hw
    | _ => cases hw
  · exact Act.run_same (Bool.eq_false_iff.mpr hw) e w.mem

theorem speed_kept (hC : parametersHeld.allows t a e w)
    (h : w.mem.stepsQueued || (stepsPhase w.past).awaitsSpeed) :
    (a.run e w.mem).2.speed = w.mem.speed := by
  by_cases hw : a.writes .speed
  · induction a with
    | store v x =>
      induction v with
      | speed =>
        have hC : (x = w.mem.speed || !(w.mem.stepsQueued ||
          (stepsPhase w.past).awaitsSpeed)) = true := hC
        rw [h, Bool.not_true, Bool.or_false] at hC
        exact of_decide_eq_true hC
      | _ => cases hw
    | gpioSetLevel pin level => cases pin <;> cases hw
    | _ => cases hw
  · exact Act.run_same (Bool.eq_false_iff.mpr hw) e w.mem

/-- Every step leaves the commands in the queue recorded. -/
theorem ParametersKept.queued_after (hI : ParametersKept w)
    (hC : parametersHeld.allows t a e w) :
    ∀ cmd ∈ (a.run e w.mem).2.motorCmdQueue.getD [], IsSteps cmd →
      cmd.recordedIn (a.run e w.mem).2 := by
  intro cmd hmem hs
  have hrecorded : cmd.recordedIn w.mem ∧
      (a.run e w.mem).2.direction = w.mem.direction ∧ (a.run e w.mem).2.speed = w.mem.speed := by
    rcases Act.queued_before hmem with hold | ⟨ha, hroom⟩
    · have hq := Mem.stepsQueued_of_mem hold hs
      exact ⟨hI.queued cmd hold hs, direction_kept hC (by rw [hq, Bool.true_or]),
        speed_kept hC (by rw [hq, Bool.true_or])⟩
    · cases ha
      have hC : (decide (cmd.type ≠ .moveSteps) || !w.mem.motorQueueHasRoom ||
        cmd.recordedIn w.mem) = true := hC
      have hsteps : cmd.type = .moveSteps := hs
      rw [hroom, hsteps] at hC
      refine ⟨by simpa using hC, ?_, ?_⟩
      · exact Act.run_same (f := .direction) rfl e w.mem
      · exact Act.run_same (f := .speed) rfl e w.mem
  obtain ⟨hrec, hdir, hspeed⟩ := hrecorded
  rw [MotorCommand.recordedIn_iff, MotorCommand.timely_iff] at hrec ⊢
  rw [hdir, hspeed]
  exact hrec

theorem StepsPhase.Upheld.same {p : StepsPhase} {m m' : Mem} (h : p.Upheld m)
    (hdir : p.awaitsDirection → m'.direction = m.direction)
    (hspeed : p.awaitsSpeed → m'.speed = m.speed) (hpin : m'.dirPin = m.dirPin) : p.Upheld m' := by
  have htimely : ∀ cmd : MotorCommand, m'.speed = m.speed → cmd.timely m → cmd.timely m' := by
    intro cmd hs ht
    rw [MotorCommand.timely_iff] at ht ⊢
    rwa [hs]
  cases p with
  | free => trivial
  | taken cmd => exact ⟨(hdir rfl).trans h.1, htimely cmd (hspeed rfl) h.2⟩
  | headed cmd dir => exact ⟨h.1, htimely cmd (hspeed rfl) h.2⟩
  | turned cmd dir => exact ⟨hpin.trans h.1, htimely cmd (hspeed rfl) h.2⟩
  | timed cmd dir freq => exact ⟨hpin.trans h.1, h.2⟩

/-- What the motor task reads and sets is what its command records. -/
theorem ParametersKept.upheld_after (hI : ParametersKept w) {r : StepsPhase}
    (h : stepsProtocol.next (stepsPhase w.past) a (a.run e w.mem).1 = some r) :
    r.Upheld (a.run e w.mem).2 := by
  have hup := hI.upheld
  generalize stepsPhase w.past = p at h hup
  induction a with
  | xQueueReceive =>
    cases hb : (Act.xQueueReceive.run e w.mem).1 with
    | none =>
      rw [hb] at h
      obtain rfl : p = r := Option.some.inj h
      rwa [Act.run_receiveNone hb]
    | some cmd =>
      rw [hb] at h
      obtain rfl : (if cmd.type = .moveSteps then StepsPhase.taken cmd else .free) = r :=
        Option.some.inj h
      split
      case isTrue hs =>
        obtain ⟨q, hq, -⟩ := Act.run_receive hb
        have hrec := hI.queued cmd (by simp [hq]) hs
        have hdir : (Act.xQueueReceive.run e w.mem).2.direction = w.mem.direction :=
          Act.run_same (f := .direction) rfl e w.mem
        have hspeed : (Act.xQueueReceive.run e w.mem).2.speed = w.mem.speed :=
          Act.run_same (f := .speed) rfl e w.mem
        rw [MotorCommand.recordedIn_iff, MotorCommand.timely_iff, ← hdir, ← hspeed] at hrec
        exact ⟨hrec.1, MotorCommand.timely_iff.mpr hrec.2⟩
      case isFalse => trivial
  | load v =>
    induction v with
    | direction =>
      obtain rfl : p.head w.mem.direction = r := Option.some.inj h
      cases p with
      | taken cmd => exact hup
      | _ => exact hup
    | speed =>
      obtain rfl : p.time w.mem.speed = r := Option.some.inj h
      cases p with
      | turned cmd dir =>
        obtain ⟨hspeed, hlow, hhigh⟩ := MotorCommand.timely_iff.mp hup.2
        refine ⟨hup.1, ?_⟩
        rw [hspeed]
        exact clampStepFreq_eq hlow hhigh
      | _ => exact hup
    | _ =>
      obtain rfl : p = r := Option.some.inj h
      exact hup
  | gpioSetLevel pin level =>
    cases pin with
    | dir =>
      have h : p.turn level = some r := h
      cases p with
      | free =>
        obtain rfl : StepsPhase.free = r := Option.some.inj h
        trivial
      | headed cmd dir =>
        simp only [StepsPhase.turn] at h
        split at h
        case isTrue hlevel =>
          obtain rfl : StepsPhase.turned cmd dir = r := Option.some.inj h
          exact ⟨hlevel.trans (congrArg Direction.level hup.1), hup.2⟩
        case isFalse => cases h
      | _ => cases h
    | _ =>
      obtain rfl : p = r := Option.some.inj h
      exact hup.same (fun _ => rfl) (fun _ => rfl) rfl
  | rmtTransmit symbols =>
    have h : (if p.sends symbols then some p else none) = some r := h
    split at h
    · obtain rfl : p = r := Option.some.inj h
      exact hup
    · cases h
  | store v x =>
    induction v with
    | direction | speed =>
      have h : (if p.isFree then some p else none) = some r := h
      cases p with
      | free =>
        obtain rfl : StepsPhase.free = r := Option.some.inj h
        trivial
      | _ => cases h
    | _ =>
      obtain rfl : p = r := Option.some.inj h
      exact hup.same (fun _ => rfl) (fun _ => rfl) rfl
  | _ =>
    obtain rfl : p = r := Option.some.inj h
    exact hup.same (fun _ => Act.run_same (f := .direction) rfl e w.mem)
      (fun _ => Act.run_same (f := .speed) rfl e w.mem)
      (Act.run_same (f := .dirPin) rfl e w.mem)

/-- Only the taking of a command changes whose readings are awaited. -/
theorem StepsPhase.command_next {p r : StepsPhase} {b : β} {m : Mem}
    (h : stepsProtocol.next p a b = some r) (hreceived : (Event.did t a b m).received = none) :
    r.command = p.command := by
  induction a with
  | xQueueReceive =>
    have hb : b = none := hreceived
    subst hb
    obtain rfl : p = r := Option.some.inj h
    rfl
  | load v =>
    induction v with
    | direction =>
      obtain rfl : p.head b = r := Option.some.inj h
      cases p <;> rfl
    | speed =>
      obtain rfl : p.time b = r := Option.some.inj h
      cases p <;> rfl
    | _ =>
      obtain rfl : p = r := Option.some.inj h
      rfl
  | gpioSetLevel pin level =>
    cases pin with
    | dir =>
      have h : p.turn level = some r := h
      cases p with
      | free =>
        obtain rfl : StepsPhase.free = r := Option.some.inj h
        rfl
      | headed cmd dir =>
        simp only [turn] at h
        split at h
        · obtain rfl : StepsPhase.turned cmd dir = r := Option.some.inj h
          rfl
        · cases h
      | _ => cases h
    | _ =>
      obtain rfl : p = r := Option.some.inj h
      rfl
  | rmtTransmit symbols =>
    have h : (if p.sends symbols then some p else none) = some r := h
    split at h
    · obtain rfl : p = r := Option.some.inj h
      rfl
    · cases h
  | store v x =>
    induction v with
    | direction | speed =>
      have h : (if p.isFree then some p else none) = some r := h
      split at h
      · obtain rfl : p = r := Option.some.inj h
        rfl
      · cases h
    | _ =>
      obtain rfl : p = r := Option.some.inj h
      rfl
  | _ =>
    obtain rfl : p = r := Option.some.inj h
    rfl

theorem underWay_same {ev : Event} {past : List Event} (h : ev.received = none) :
    underWay (ev :: past) = underWay past := by
  rw [underWay, h, Option.none_or]

theorem ParametersKept.current_after (hI : ParametersKept w) {r : StepsPhase}
    (h : stepsProtocol.next (stepsPhase w.past) a (a.run e w.mem).1 = some r) (cmd : MotorCommand)
    (hs : IsSteps cmd) :
    underWay (w.did t a e).past = some cmd ↔ r.command = some cmd := by
  rw [World.did_past]
  cases hrec : (Event.did t a (a.run e w.mem).1 w.mem).received with
  | none => rw [underWay_same hrec, StepsPhase.command_next h hrec, hI.current cmd hs]
  | some mc =>
    rw [underWay, hrec, Option.some_or]
    induction a with
    | xQueueReceive =>
      have hb : (Act.xQueueReceive.run e w.mem).1 = some mc := hrec
      rw [hb] at h
      obtain rfl : (if mc.type = .moveSteps then StepsPhase.taken mc else .free) = r :=
        Option.some.inj h
      by_cases hmc : mc.type = .moveSteps
      · rw [if_pos hmc]
        rfl
      · rw [if_neg hmc]
        refine iff_of_false (fun heq => hmc ?_) nofun
        obtain rfl := Option.some.inj heq
        exact hs
    | _ => cases hrec

/-- The motor task sends what its command records. -/
theorem ParametersKept.executes_next (hI : ParametersKept w) {r : StepsPhase}
    (h : stepsProtocol.next (stepsPhase w.past) a (a.run e w.mem).1 = some r) :
    ExecutesOwn (w.did t a e).past := by
  refine ⟨fun cmd hcmd hs htransmits => ?_, hI.executes⟩
  have hcommand := (hI.current cmd hs).mp hcmd
  have hup := hI.upheld
  induction a with
  | rmtTransmit symbols =>
    have h : (if (stepsPhase w.past).sends symbols then some (stepsPhase w.past) else none) =
      some r := h
    generalize stepsPhase w.past = p at h hcommand hup
    cases p with
    | timed mc dir freq =>
      obtain rfl : mc = cmd := Option.some.inj hcommand
      obtain ⟨hpin, rfl⟩ := hup
      by_cases hall : symbols.all (isSymbolOf [mc.speedHz])
      · exact ⟨hpin, hall⟩
      · have hno : ¬ (StepsPhase.timed mc dir mc.speedHz).sends symbols := hall
        rw [if_neg hno] at h
        cases h
    | free => cases hcommand
    | _ => cases h
  | _ => cases htransmits

theorem ParametersKept.motor (hI : ParametersKept w) (hC : parametersHeld.allows .motor a e w)
    {r : StepsPhase}
    (h : stepsProtocol.next (stepsPhase w.past) a (a.run e w.mem).1 = some r)
    (hafter : stepsPhase (w.did .motor a e).past = r) : ParametersKept (w.did .motor a e) := by
  refine ⟨hI.queued_after hC, ?_, fun cmd hs => ?_, hI.executes_next h⟩
  · rw [hafter]
    exact hI.upheld_after h
  · rw [hafter]
    exact hI.current_after h cmd hs

/-- Another task neither takes a command nor sets the pin. -/
theorem ParametersKept.other (hI : ParametersKept w) (hC : parametersHeld.allows t a e w)
    (hafter : stepsPhase (w.did t a e).past = stepsPhase w.past)
    (hreceives : (Event.did t a (a.run e w.mem).1 w.mem).receives = false)
    (hpin : (a.run e w.mem).2.dirPin = w.mem.dirPin)
    (htransmits : (Event.did t a (a.run e w.mem).1 w.mem).transmits = false) :
    ParametersKept (w.did t a e) := by
  refine ⟨hI.queued_after hC, ?_, fun cmd hs => ?_, ?_, hI.executes⟩
  · rw [hafter]
    refine hI.upheld.same (fun hd => ?_) (fun hd => ?_) hpin
    · exact direction_kept hC (by rw [hd, Bool.or_true])
    · exact speed_kept hC (by rw [hd, Bool.or_true])
  · rw [hafter, World.did_past, underWay_same (Option.isNone_iff_eq_none.mp ?_)]
    · exact hI.current cmd hs
    · simpa [Event.receives] using hreceives
  · intro cmd _ _ ht
    rw [htransmits] at ht
    cases ht

end Steps

/-- In a run in which every motion by steps is sent while the globals are as its command records
them, and they stay so until the motor task has read them, every such motion is executed in the
direction and at the frequency of its own command. -/
theorem executesOwn_of_parametersHeld {b : Boot} {c : Config Act Tid World}
    (h : Steps parametersHeld.assumption b.config c) : ExecutesOwn c.shared.past := by
  have h0 : ParametersKept b.world := by
    refine ⟨fun cmd hcmd => absurd hcmd List.not_mem_nil, trivial, fun cmd _ => ?_, trivial⟩
    exact iff_of_false nofun nofun
  have hI : ParametersKept c.shared := by
    refine layered_invariant conforms_motorTaskEntry h h0 ?_ ?_ ?_ ?_
    · intro w β a e q r hI hC hs
      exact hI.motor hC hs.next hs.after
    · intro w t β a e q hI hC ht hs hafter
      rcases hs with hs | hs
      · exact hI.other hC hafter (Event.receives_of_quiet hs.quiet _ _) (hs.same .dirPin)
          (Event.transmits_of_quiet hs.quiet _ _)
      · obtain ⟨hreceives, -⟩ := hs.move.not_owner t w.mem
        obtain ⟨-, hpin, htransmits⟩ := hs.move.not_driver
        exact hI.other hC hafter hreceives (Act.run_same (f := .dirPin) hpin e w.mem)
          (htransmits t w.mem)
    · intro w β a e hI hC hs hafter
      exact hI.other hC hafter (Event.receives_of_quiet hs.quiet _ _) (hs.same .dirPin)
        (Event.transmits_of_quiet hs.quiet _ _)
    · intro w h m hI _ hm
      have hqueue : m.motorCmdQueue = w.mem.motorCmdQueue :=
        Happening.run_internal (f := .motorCmdQueue) hm rfl
      have hdir : m.direction = w.mem.direction := Happening.run_internal (f := .direction) hm rfl
      have hspeed : m.speed = w.mem.speed := Happening.run_internal (f := .speed) hm rfl
      have hpin : m.dirPin = w.mem.dirPin := Happening.run_internal (f := .dirPin) hm rfl
      have hexecutes : ExecutesOwn (.happened h w.mem :: w.past) :=
        ⟨fun _ _ _ ht => absurd ht Bool.false_ne_true, hI.executes⟩
      refine ⟨fun cmd hcmd hs => ?_, ?_, hI.current, hexecutes⟩
      · have hrec := hI.queued cmd (hqueue ▸ hcmd) hs
        rw [MotorCommand.recordedIn_iff, MotorCommand.timely_iff] at hrec ⊢
        rw [hdir, hspeed]
        exact hrec
      · exact hI.upheld.same (fun _ => hdir) (fun _ => hspeed) hpin
  exact hI.executes

theorem executesOwn_in_firstFill : ∃ c, Steps parametersHeld.assumption (Boot.config {}) c ∧
    c.shared.past.head?.any Event.transmits = true ∧ ExecutesOwn c.shared.past := by
  have hrun : (device.run parametersHeld Script.firstFill (Boot.config {})).any
      (fun c => c.shared.past.head?.any Event.transmits) = true := by decide +kernel
  obtain ⟨c, hsteps, hc⟩ := Machine.exists_of_run hrun
  exact ⟨c, hsteps, hc, executesOwn_of_parametersHeld hsteps⟩

/-- A dose at 10 ml/min, whose command records 328 Hz, up to its first chunk. -/
def Script.slowDose : Script :=
  boot ++ turns .http 1 ++
    request .http { type := .doseVolume, volume := some 1, speedMlMin := some 10 } 10 ++
    turns .motor 14

theorem slowDose_notOwn : ∃ c, Reachable {} c ∧ ¬ ExecutesOwn c.shared.past := by
  have hrun : (device.run (Guard.any device) Script.slowDose (Boot.config {})).any
      (fun c => decide (¬ ExecutesOwn c.shared.past)) = true := by decide +kernel
  obtain ⟨c, hsteps, hc⟩ := Machine.exists_of_run hrun
  exact ⟨c, hsteps.weaken, of_decide_eq_true hc⟩

end Ecotiter
