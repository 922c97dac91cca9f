import Ecotiter.RequestCommands
import Ecotiter.MotorTaskRule

/-!
# Divisions by a frequency

The step interval of a motion is a quotient by its frequency. The frequencies of fills and empties
come from speeds and are bounded below; those of `moveToStop` and of a speed sequence are given by
the request, and a point that is missing or out of range becomes zero.
-/

namespace Ecotiter
open Interleaving Firmware

/-- The motor task stops the device: a division by zero, or a check in the emergency stop. -/
def Event.aborts : Event → Bool
  | .did .motor .abort _ _ => true
  | _ => false

/-- The motor task divides by no frequency that is zero. The emergency stop divides by nothing. -/
def NeverDividesByZero : List Event → Prop :=
  Throughout fun ev past => ev.aborts → (currentOrder past).any (·.cmd.type = .emergencyStop)

instance : DecidablePred NeverDividesByZero := decidableThroughout _

/-- The frequencies that a command is executed with are not zero. -/
def MotorCommand.divides (cmd : MotorCommand) : Bool :=
  (cmd.type ≠ .moveContinuous || cmd.speedHz ≠ 0) &&
    (cmd.type ≠ .startCalSpeedSeq ||
      (List.range 3).all fun i => cmd.startCalSpeedSeq.freqs.getD i 0 ≠ 0)

/-- A speed sequence gives three frequencies that are not zero as `uint16_t`, unless it is too short
to be accepted. -/
def Command.divides (cmd : Command) : Bool :=
  cmd.type ≠ .calRunSpeedSeq || cmd.freqsArray.length < 2 ||
    (List.range 3).all fun i => (BuretteCal.seqFreqs cmd.freqsArray).getD i 0 ≠ 0

/-- The command that an event makes a client serve. -/
def Event.taken : Event → Option Command
  | .did _ (.receiveRequest source) req _ => req.bind (dispatched source)
  | _ => none

def threeFrequencies : Guard device where
  allows t _ a e w := (Event.did t a (a.run e w.mem).1 w.mem).taken.all (·.divides)
  allowsEnv _ _ := true

theorem le_speedMlMinToHz (speed : ℚ) {cal : CalibrationData} (h : cal.minFreqHz ≤ cal.maxFreqHz) :
    cal.minFreqHz ≤ speedMlMinToHz speed cal := by
  unfold speedMlMinToHz
  by_cases hcoeff : cal.speedCoeff < 1 / 1000000
  · rw [if_pos hcoeff]
  · rw [if_neg hcoeff]
    generalize toU32 (speed / cal.speedCoeff + 1 / 2) = freq
    grind -ring -linarith -ac

theorem mlMinToHz_ne_zero (speed : ℚ) : mlMinToHz speed ≠ 0 := by
  unfold mlMinToHz
  generalize hcal : CalibrationData.mk CalibrationData.kDefaultStepsPerMl 50
    CalibrationData.kDefaultSpeedCoeff CalibrationData.kDefaultMinFreqHz
    CalibrationData.kDefaultMaxFreqHz = cal
  have hbounds : 0 < cal.minFreqHz ∧ cal.minFreqHz ≤ cal.maxFreqHz := by
    rw [← hcal]
    decide
  have hle := le_speedMlMinToHz speed hbounds.2
  have hpos := hbounds.1
  omega

section Protocol

/-- While the phase is true nothing stops the device. -/
def divisionProtocol : Protocol Act Bool where
  next safe _ a b :=
    match a, b with
    | .abort, _ => if safe then none else some safe
    | .xQueueReceive, some cmd => some (cmd.divides && cmd.type ≠ .emergencyStop)
    | _, _ => some safe

/-- What a command consists of that divides safely, or may stop the device. -/
def Act.dividing (safe : Bool) : {β : Type} → Act β → Bool
  | _, .abort => !safe
  | _, .xQueueReceive => false
  | _, _ => true

theorem division_keeps {safe : Bool} {β : Type} (a : Act β) (b : β) (h : Act.dividing safe a) :
    divisionProtocol.next safe a b = some safe := by
  induction a with
  | abort =>
    have hdanger : safe = false := by simpa [Act.dividing] using h
    rw [hdanger]
    rfl
  | xQueueReceive => cases h
  | _ => rfl

theorem Act.dividing_of_ofDrive {safe : Bool} {β : Type} (a : Act β) (h : a.ofDrive) :
    Act.dividing safe a := by
  induction a <;> first | rfl | cases h

theorem division_runnerRule (safe : Bool) :
    RunnerRule divisionProtocol safe (fun f => safe → f ≠ 0) (· = safe) := by
  refine .of_only division_keeps ?_ (fun v _ => mlMinToHz_ne_zero v) ?_ ?_ fun _ _ => rfl
  · intro f g hle hf hs
    have hne := hf hs
    omega
  · intro f hf
    refine ⟨fun a h => Act.dividing_of_ofDrive a (Act.ofDrive_of_ofMotion a h), fun _ => rfl,
      fun _ => rfl, fun _ => rfl, ?_⟩
    cases safe with
    | true => exact .inl (hf rfl)
    | false => exact .inr rfl
  · intro β a ha
    induction a <;> first | rfl | cases ha

theorem division_directRule {cmd : MotorCommand} {safe : Bool}
    (h : safe → cmd.divides ∧ cmd.type ≠ .emergencyStop) : DirectRule (Act.dividing safe) cmd where
  drive a h := Act.dividing_of_ofDrive a (Act.ofDrive_of_ofMotion a h)
  publish _ _ := rfl
  timer := ⟨rfl, rfl, rfl, rfl⟩
  abort := by
    cases safe with
    | false => exact .inr rfl
    | true =>
      obtain ⟨hdivides, hstop⟩ := h rfl
      refine .inl ⟨fun ht => ?_, hstop⟩
      simp only [MotorCommand.divides, ht, Bool.and_eq_true] at hdivides
      simpa using hdivides.1

theorem MotorCommand.freqs_ne_zero {cmd : MotorCommand} (h : cmd.divides)
    (ht : cmd.type = .startCalSpeedSeq) :
    ∀ i < CalSpeedSeqSm.calSeqPoints, cmd.startCalSpeedSeq.freqs.getD i 0 ≠ 0 := by
  simp only [MotorCommand.divides, ht, Bool.and_eq_true] at h
  have hall := h.2
  simp only [ne_eq, not_true_eq_false, decide_false, Bool.false_or, List.all_eq_true,
    decide_eq_true_eq, List.mem_range] at hall
  exact hall

theorem division_taskRule : TaskRule divisionProtocol (fun _ => True) (fun _ => True) := by
  refine .of_drive (fun _ => trivial) ?_ ?_ ?_
  · intro p _ β a b ha
    have hdividing : Act.dividing p a := by
      induction a <;> first | rfl | cases ha
    exact ⟨p, division_keeps a b hdividing, trivial⟩
  · intro p _ β a b ha
    have hsame : divisionProtocol.next p a b = some p := by
      induction a with
      | xQueueReceive => cases b <;> first | rfl | cases ha
      | _ => first | rfl | cases ha
    exact ⟨p, hsame, trivial⟩
  · intro p _ cmd
    refine ⟨_, rfl, ?_⟩
    split
    case isTrue => trivial
    case isFalse hplain =>
      generalize hsafe : (cmd.divides && decide (cmd.type ≠ .emergencyStop)) = safe
      have hdivides : safe = true → cmd.divides = true ∧ cmd.type ≠ .emergencyStop := by
        intro h
        rw [h, Bool.and_eq_true] at hsafe
        exact ⟨hsafe.1, of_decide_eq_true hsafe.2⟩
      by_cases hs : cmd.type.selects
      · refine ((division_runnerRule safe).handle hs (fun _ _ => rfl) ?_).mono fun _ _ _ => trivial
        intro ht i hi hsafe
        exact MotorCommand.freqs_ne_zero (hdivides hsafe).1 ht i hi
      · have honly := (division_directRule hdivides).only_handle (Bool.eq_false_iff.mpr hs)
          (Bool.eq_false_iff.mpr hplain)
        exact (honly.keeps division_keeps).mono fun _ _ _ => trivial

theorem divides_motorTaskEntry :
    divisionProtocol.Conforms (fun _ _ => True) MotorTask.motorTaskEntry true :=
  division_taskRule.motorTaskEntry trivial

end Protocol

section Runs

/-- Nothing that the motor task does until its next command stops the device. -/
def dividesSafely (past : List Event) : Bool := phaseAfter divisionProtocol true .motor past

/-- What is sent for a request divides safely if the request does. -/
theorem Command.divides_of_sends {cmd : Command} {mc : MotorCommand} (h : cmd.divides)
    (hsends : cmd.sends mc) : mc.divides := by
  have hother : mc.type ≠ .moveContinuous → mc.type ≠ .startCalSpeedSeq → mc.divides := by
    intro hcontinuous hseq
    simp [MotorCommand.divides, hcontinuous, hseq]
  cases hc : cmd.type with
  | calRunSpeedSeq =>
    simp only [Command.sends, hc, Bool.and_eq_true, decide_eq_true_eq] at hsends
    obtain ⟨⟨ht, hlength⟩, hfreqs⟩ := hsends
    have hall : ((List.range 3).all fun i =>
        decide ((BuretteCal.seqFreqs cmd.freqsArray).getD i 0 ≠ 0)) = true := by
      have hshort : decide (cmd.freqsArray.length < 2) = false :=
        decide_eq_false (Nat.not_lt.mpr hlength)
      simpa only [Command.divides, hc, hshort, ne_eq, not_true_eq_false, decide_false,
        Bool.false_or] using h
    simp only [MotorCommand.divides, ht, hfreqs, hall]
    rfl
  | moveToStop =>
    simp only [Command.sends, hc, Bool.and_eq_true, decide_eq_true_eq] at hsends
    obtain ⟨⟨ht, hspeed⟩, -⟩ := hsends
    simp [MotorCommand.divides, ht, hspeed]
  | _ =>
    have hnot : mc.type ≠ .moveContinuous ∧ mc.type ≠ .startCalSpeedSeq := by
      constructor <;>
        · intro ht
          simp [Command.sends, hc, ht] at hsends
    exact hother hnot.1 hnot.2

/-- A client takes up what it is serving with the last request it received. -/
theorem serving_cases {t s : Tid} {β : Type} {a : Act β} {b : β} {m : Mem} {past : List Event}
    {cmd : Command} (h : serving s (.did t a b m :: past) = some cmd) :
    serving s past = some cmd ∨ (Event.did t a b m).taken = some cmd := by
  by_cases hst : t = s
  · induction a with
    | receiveRequest source =>
      rw [serving, if_pos hst] at h
      exact .inr h
    | respond rsp =>
      rw [serving, if_pos hst] at h
      cases h
    | _ => exact .inl h
  · rw [serving_other hst] at h
    exact .inl h

structure DivisionInvariant (w : World) : Prop where
  never : NeverDividesByZero w.past
  pending : ∀ o ∈ pendingOrders w.past, o.cmd.divides
  asked : ∀ t cmd, serving t w.past = some cmd → cmd.divides
  unsafely : dividesSafely w.past = false →
    (currentOrder w.past).any (·.cmd.type = .emergencyStop)

/-- An event in which nothing is received and the motor task does not stop the device. -/
theorem DivisionInvariant.other {w w' : World} {ev : Event} (hI : DivisionInvariant w)
    (hpast : w'.past = ev :: w.past) (haborts : ev.aborts = false) (hreceives : ev.receives = false)
    (hsafely : dividesSafely w'.past = dividesSafely w.past)
    (horder : ∀ o, ev.order w.past = some o → o.cmd.divides)
    (hasked : ∀ t cmd, serving t w'.past = some cmd → cmd.divides) : DivisionInvariant w' := by
  refine ⟨?_, fun o ho => ?_, hasked, fun hdanger => ?_⟩
  · rw [hpast]
    refine ⟨fun h => ?_, hI.never⟩
    rw [haborts] at h
    cases h
  · rw [hpast, pendingOrders, hreceives] at ho
    simp only [Bool.false_eq_true, if_false, List.mem_append, Option.mem_toList] at ho
    rcases ho with ho | ho
    · exact hI.pending o ho
    · exact horder o ho
  · rw [hsafely] at hdanger
    rw [hpast, currentOrder_same hreceives]
    exact hI.unsafely hdanger

theorem Event.aborts_other {t : Tid} (ht : t ≠ .motor) {β : Type} (a : Act β) (b : β) (m : Mem) :
    (Event.did t a b m).aborts = false := by
  cases t with
  | motor => exact absurd rfl ht
  | main | http | timer => induction a <;> rfl

/-- Whether the next command divides safely is known when it is received. -/
theorem division_received {safe r : Bool} {β : Type} {a : Act β} {b : β} {cmd : MotorCommand}
    (h : divisionProtocol.next safe a b = some r) {t : Tid} {m : Mem}
    (hcmd : (Event.did t a b m).received = some cmd) :
    r = (cmd.divides && decide (cmd.type ≠ .emergencyStop)) := by
  induction a with
  | xQueueReceive =>
    cases hcmd
    cases h
    rfl
  | _ => cases hcmd

theorem division_same {safe r : Bool} {β : Type} {a : Act β} {b : β}
    (h : divisionProtocol.next safe a b = some r) {t : Tid} {m : Mem}
    (hnone : (Event.did t a b m).received = none) :
    r = safe ∧ ((Event.did t a b m).aborts → safe = false) := by
  induction a with
  | abort =>
    have hnext : (if safe then none else some safe) = some r := h
    cases safe with
    | true => cases hnext
    | false =>
      cases hnext
      exact ⟨rfl, fun _ => rfl⟩
  | xQueueReceive =>
    cases hnone
    cases h
    exact ⟨rfl, fun h => by cases t <;> cases h⟩
  | _ =>
    cases h
    exact ⟨rfl, fun h => by cases t <;> cases h⟩

theorem Event.aborts_of_received {ev : Event} {cmd : MotorCommand} (h : ev.received = some cmd) :
    ev.aborts = false := by
  cases ev with
  | happened h m => cases h
  | did t a b m =>
    induction a <;> first | cases h; done | (cases t <;> rfl)

/-- The command that is received is safe, since it was sent so. -/
theorem DivisionInvariant.received {w : World} {β : Type} {a : Act β} {e : Input} {r : Bool}
    {cmd : MotorCommand} (hI : DivisionInvariant w) (hO : Orderly w)
    (hasked : ∀ t cmd, serving t (w.did .motor a e).past = some cmd → cmd.divides)
    (hnext : divisionProtocol.next (dividesSafely w.past) a (a.run e w.mem).1 = some r)
    (hafter : dividesSafely (w.did .motor a e).past = r)
    (hcmd : (Event.did .motor a (a.run e w.mem).1 w.mem).received = some cmd) :
    DivisionInvariant (w.did .motor a e) := by
  have hreceives : (Event.did .motor a (a.run e w.mem).1 w.mem).receives = true := by
    rw [Event.receives, hcmd]
    rfl
  refine ⟨⟨fun habort => ?_, hI.never⟩, fun o ho => ?_, hasked, fun hdanger => ?_⟩
  · rw [Event.aborts_of_received hcmd] at habort
    cases habort
  · rw [World.did_past, pendingOrders, hreceives, if_pos rfl] at ho
    exact hI.pending o (List.mem_of_mem_tail ho)
  · obtain ⟨o, ho, hocmd⟩ := Option.map_eq_some_iff.mp (hO.received hcmd)
    have hpending : o ∈ pendingOrders w.past := by
      rw [World.did_past, currentOrder, hreceives, if_pos rfl] at ho
      exact List.mem_of_mem_head? ho
    have hdivides : cmd.divides = true := hocmd ▸ hI.pending o hpending
    rw [hafter, division_received hnext hcmd, hdivides] at hdanger
    rw [ho, Option.any_some, hocmd]
    simpa using hdanger

theorem DivisionInvariant.motor {w : World} {β : Type} {a : Act β} {e : Input} {q : MotorPhase}
    {r : Bool} (hI : DivisionInvariant w) (hO : Orderly w)
    (hasked : ∀ t cmd, serving t (w.did .motor a e).past = some cmd → cmd.divides)
    (hs : LayerStep divisionProtocol true w a e q r) : DivisionInvariant (w.did .motor a e) := by
  have hnext : divisionProtocol.next (dividesSafely w.past) a (a.run e w.mem).1 = some r := hs.next
  have hafter : dividesSafely (w.did .motor a e).past = r := hs.after
  cases hreceived : (Event.did .motor a (a.run e w.mem).1 w.mem).received with
  | some cmd => exact hI.received hO hasked hnext hafter hreceived
  | none =>
    obtain ⟨hsame, haborts⟩ := division_same hnext hreceived
    have hreceives : (Event.did .motor a (a.run e w.mem).1 w.mem).receives = false := by
      rw [Event.receives, hreceived]
      rfl
    have horder : (Event.did .motor a (a.run e w.mem).1 w.mem).order w.past = none := by
      rcases hs.step with hquiet | hmotor
      · exact Event.order_of_quiet hquiet.quiet _ _
      · exact hmotor.move.no_order .motor _ _
    refine ⟨⟨fun habort => hI.unsafely (haborts habort), hI.never⟩, ?_, hasked, fun hdanger => ?_⟩
    · rw [World.did_past, pendingOrders_same hreceives horder]
      exact hI.pending
    · rw [hafter, hsame] at hdanger
      rw [World.did_past, currentOrder_same hreceives]
      exact hI.unsafely hdanger

/-- In a run in which every speed sequence that is accepted gives three frequencies that are not
zero, the motor task never divides by zero. -/
theorem neverDividesByZero_of_threeFrequencies {b : Boot} {c : Config Act Tid World}
    (h : Steps threeFrequencies.assumption b.config c) : NeverDividesByZero c.shared.past := by
  have hsteps : Steps (threeFrequencies.assumption.within fun w => Orderly w ∧ SentAsked w.past)
      b.config c :=
    h.within fun d hd => ⟨orderly_of_steps hd, sentAsked_of_steps hd⟩
  have h0 : DivisionInvariant b.world := by
    have hsafely : dividesSafely b.world.past = true := rfl
    refine ⟨trivial, fun o ho => ?_, fun t cmd hcmd => ?_, fun hdanger => ?_⟩
    · cases ho
    · cases hcmd
    · rw [hsafely] at hdanger
      cases hdanger
  suffices hI : DivisionInvariant c.shared from hI.never
  have hasked : ∀ {w : World} {t : Tid} {β : Type} {a : Act β} {e : Input},
      DivisionInvariant w → threeFrequencies.assumption.allows t a e w →
      ∀ s cmd, serving s (w.did t a e).past = some cmd → cmd.divides := by
    intro w t β a e hI hC s cmd hcmd
    rcases serving_cases hcmd with hcmd | htaken
    · exact hI.asked s cmd hcmd
    · have hall : ((Event.did t a (a.run e w.mem).1 w.mem).taken.all (·.divides)) = true := hC
      rw [htaken] at hall
      exact hall
  refine layered_invariant divides_motorTaskEntry hsteps h0 ?_ ?_ ?_ ?_
  · intro w β a e q r hI hC hs
    exact hI.motor hC.2.1.1 (hasked hI hC.1) hs
  · intro w t β a e q hI hC ht hs hsafely
    have hreceives : (Event.did t a (a.run e w.mem).1 w.mem).receives = false := by
      rcases hs with hs | hs
      · exact Event.receives_of_quiet hs.quiet _ _
      · exact (hs.move.not_owner t w.mem).1
    refine hI.other rfl (Event.aborts_other (Tid.ne_motor_of_isClient ht) _ _ _) hreceives hsafely
      ?_ (hasked hI hC.1)
    intro o ho
    have hasked : SentAsked (w.did t a e).past := hC.2.2.2
    have hsent : sentFor o.request o.cmd = true := hasked.1 o ho
    obtain ⟨-, hrequest⟩ := Event.order_did ho
    obtain ⟨cmd, hcmd, hsends⟩ := (Option.any_eq_true _ _).mp hsent
    rw [hrequest] at hcmd
    exact Command.divides_of_sends (hI.asked t cmd hcmd) hsends
  · intro w β a e hI hC hs hsafely
    refine hI.other rfl (Event.aborts_other Tid.timer_ne_motor _ _ _) (Event.receives_of_quiet hs.quiet _ _)
      hsafely ?_ (hasked hI hC.1)
    intro o ho
    rw [Event.order_of_quiet hs.quiet] at ho
    cases ho
  · intro w h m hI _ _
    have horder : ∀ o, (Event.happened h w.mem).order w.past = some o → o.cmd.divides := by
      intro o ho
      cases ho
    exact hI.other rfl rfl rfl rfl horder hI.asked

/-- A request for a speed sequence at the given frequencies. -/
def speedSequence (freqs : List ℚ) : Command := { type := .calRunSpeedSeq, freqsArray := freqs }

/-- A speed sequence whose first frequency is rounded to zero, with both switches reached early, up
to its first empty. -/
def Script.zeroFrequency : Script :=
  boot ++ turns .http 1 ++ request .http (speedSequence [1 / 4, 100]) 10 ++
    [.env (.level .full true), .env (.interrupt .full), .env (.level .empty true),
      .env (.interrupt .empty)] ++
    turns .motor 10 ++ [.thread .motor (.value 1000)] ++ turns .motor 8

theorem zeroFrequency_aborts : ∃ c, Reachable {} c ∧ ¬ NeverDividesByZero c.shared.past := by
  have hrun : (device.run (Guard.any device) Script.zeroFrequency (Boot.config {})).any
      (fun c => decide (¬ NeverDividesByZero c.shared.past)) = true := by decide +kernel
  obtain ⟨c, hsteps, hc⟩ := Machine.exists_of_run hrun
  exact ⟨c, hsteps.weaken, of_decide_eq_true hc⟩

/-- A speed sequence of three frequencies, up to its first reading of the clock. -/
def Script.acceptedSequence : Script :=
  boot ++ turns .http 1 ++ request .http (speedSequence [50, 60, 70]) 10 ++ turns .motor 6

theorem neverDividesByZero_in_acceptedSequence :
    ∃ c, Steps threeFrequencies.assumption (Boot.config {}) c ∧
      (currentOrder c.shared.past).any (·.cmd.type = .startCalSpeedSeq) = true ∧
      NeverDividesByZero c.shared.past := by
  have hrun : (device.run threeFrequencies Script.acceptedSequence (Boot.config {})).any
      (fun c => (currentOrder c.shared.past).any (·.cmd.type = .startCalSpeedSeq)) = true := by
    decide +kernel
  obtain ⟨c, hsteps, hc⟩ := Machine.exists_of_run hrun
  exact ⟨c, hsteps, hc, neverDividesByZero_of_threeFrequencies hsteps⟩

end Runs
end Ecotiter
