import Ecotiter.ValveFlow

/-!
# Failed calls of the driver

Whether a call of `moveStepsIntervals` has failed with `Rmt` can be read off the answers of the
peripheral. The motions drop this result: what an operation publishes is never an error.
-/

namespace Ecotiter
open Interleaving Firmware

/-- What the answers of the peripheral say about the operation under way. -/
structure Outcome where
  retries : ℕ := 0       -- attempts at the current chunk that have to be repeated
  failed : Bool := false  -- a call of the driver has returned `Rmt`
  deriving DecidableEq

namespace Outcome

def onTransmit (o : Outcome) (err : EspErr) : Outcome :=
  if err = .ok then o
  else if err = .invalidState ∧ o.retries < StepperMotor.maxRetries then
    { o with retries := o.retries + 1 }
  else { o with failed := true }

/-- Only the wait for a chunk has a timeout; the one that empties the queue of the peripheral has
none, and its answer is ignored. -/
def onAwait (o : Outcome) (timeoutMs : ℕ) (err : EspErr) : Outcome :=
  if timeoutMs = 0 ∨ err = .ok ∨ err = .timeout then o else { o with failed := true }

def step (o : Outcome) : {β : Type} → Act β → β → Outcome
  | _, .poll .chunk _, _ => { o with retries := 0 }
  | _, .rmtTransmit _, err => o.onTransmit err
  | _, .rmtTxWaitAllDone timeoutMs, err => o.onAwait timeoutMs err
  | _, .xQueueReceive, cmd => if cmd.isSome then {} else o
  | _, _, _ => o

end Outcome

def outcomeProtocol : Protocol Act Outcome := ⟨fun o _ a b => some (o.step a b)⟩

@[simp] theorem outcomeProtocol_next {o : Outcome} {β : Type} {a : Act β} {b : β} :
    outcomeProtocol.next o a b = some (o.step a b) := rfl

/-- What the answers of the peripheral say after a history. -/
def outcome (past : List Event) : Outcome := phaseAfter outcomeProtocol {} .motor past

section Driver

/-- A call marks the operation as failed exactly if it returns `Rmt`. -/
def Outcome.Marks (o : Outcome) (r : Except StepperError Unit) (o' : Outcome) : Prop :=
  o'.failed = (o.failed || r matches .error .rmt)

/-- A call that has seen the stop flag disables the driver before it returns. -/
theorem marks_emergencyStop {α : Type} {rest : Firmware α} {Q : α → Outcome → Prop} {o : Outcome}
    (h : outcomeProtocol.Conforms Q rest o) :
    outcomeProtocol.Conforms Q (do StepperMotor.emergencyStop; rest) o := by
  have hrest : EspErr → outcomeProtocol.Conforms Q rest o := fun _ => h
  simpa [StepperMotor.emergencyStop, gpioSetLevel, Outcome.step, Outcome.onAwait] using hrest

theorem marks_transmitChunk {symbols : List RmtSymbol} {stopFlag : StopFlag} {o : Outcome}
    (ho : o.retries = 0) :
    outcomeProtocol.Conforms o.Marks (StepperMotor.transmitChunk symbols stopFlag) o := by
  refine Protocol.Conforms.iterate
    (fun (retries : ℕ) q => q.retries = retries ∧ q.failed = o.failed) ?_ ⟨ho, rfl⟩
  intro retries q hq
  obtain ⟨hretries, hfailed⟩ := hq
  refine .perform fun seen => ⟨q, rfl, ?_⟩
  cases seen with
  | true =>
    refine marks_emergencyStop (Protocol.conforms_pure.mpr ?_)
    simp [Outcome.Marks, hfailed]
  | false =>
    refine .perform fun err => ⟨q.onTransmit err, rfl, ?_⟩
    by_cases hok : err = .ok
    · rw [if_pos hok]
      refine Protocol.conforms_pure.mpr ?_
      simp [Outcome.onTransmit, hok, Outcome.Marks, hfailed]
    · rw [if_neg hok]
      by_cases hend : err ≠ .invalidState ∨ StepperMotor.maxRetries ≤ retries
      · rw [if_pos hend]
        have hnot : ¬ (err = .invalidState ∧ q.retries < StepperMotor.maxRetries) := by
          rw [hretries]
          rintro ⟨hinvalid, hlt⟩
          rcases hend with hne | hle
          · exact hne hinvalid
          · omega
        refine Protocol.conforms_pure.mpr ?_
        simp [Outcome.onTransmit, hok, hnot, Outcome.Marks]
      · rw [if_neg hend]
        have hretry : err = .invalidState ∧ q.retries < StepperMotor.maxRetries := by
          rw [hretries]
          by_cases hinvalid : err = .invalidState
          · exact ⟨hinvalid, by omega⟩
          · exact absurd (.inl hinvalid) hend
        rw [Outcome.onTransmit, if_neg hok, if_pos hretry]
        refine .perform fun _ => ⟨_, rfl, Protocol.conforms_pure.mpr ⟨?_, hfailed⟩⟩
        exact congrArg (· + 1) hretries

theorem marks_awaitChunk {stopFlag : StopFlag} {o : Outcome} :
    outcomeProtocol.Conforms o.Marks (StepperMotor.awaitChunk stopFlag) o := by
  refine Protocol.Conforms.iterate (fun _ q => q = o) ?_ rfl
  intro _ q hq
  rw [hq]
  refine .perform fun err => ⟨o.onAwait 100 err, rfl, ?_⟩
  by_cases hok : err = .ok
  · rw [if_pos hok]
    refine Protocol.conforms_pure.mpr ?_
    simp [Outcome.onAwait, hok, Outcome.Marks]
  · rw [if_neg hok]
    by_cases htimeout : err = .timeout
    · have hsame : o.onAwait 100 err = o := by simp [Outcome.onAwait, htimeout]
      rw [if_neg (fun h => h htimeout), hsame]
      refine .perform fun seen => ⟨o, rfl, ?_⟩
      cases seen with
      | true =>
        refine marks_emergencyStop (Protocol.conforms_pure.mpr ?_)
        simp [Outcome.Marks]
      | false => exact Protocol.conforms_pure.mpr rfl
    · rw [if_pos htimeout]
      refine Protocol.conforms_pure.mpr ?_
      simp [Outcome.onAwait, hok, htimeout, Outcome.Marks]

/-- The history shows which calls of the driver have failed. -/
theorem marks_moveStepsIntervals {intervals : List ℕ} {stopFlag : StopFlag} {o : Outcome} :
    outcomeProtocol.Conforms o.Marks (StepperMotor.moveStepsIntervals intervals stopFlag) o := by
  refine Protocol.Conforms.iterate (fun _ q => q.failed = o.failed) ?_ rfl
  intro offset q hq
  by_cases hend : intervals.length ≤ offset
  · rw [if_pos hend]
    refine Protocol.conforms_pure.mpr ?_
    simp [Outcome.Marks, hq]
  rw [if_neg hend]
  refine .perform fun seen => ⟨{ q with retries := 0 }, rfl, ?_⟩
  cases seen with
  | true =>
    refine marks_emergencyStop (Protocol.conforms_pure.mpr ?_)
    simp [Outcome.Marks, hq]
  | false =>
    refine (marks_transmitChunk rfl).bind ?_
    intro sent q' hsent
    rcases sent with err | _
    · refine Protocol.conforms_pure.mpr ?_
      cases err <;> simpa [Outcome.Marks, hq] using hsent
    · refine marks_awaitChunk.bind ?_
      intro done q'' hdone
      have hq' : q'.failed = o.failed := by simpa [Outcome.Marks, hq] using hsent
      rcases done with err | _
      · refine Protocol.conforms_pure.mpr ?_
        cases err <;> simpa [Outcome.Marks, hq'] using hdone
      · have hq'' : q''.failed = o.failed := by simpa [Outcome.Marks, hq'] using hdone
        exact .perform fun _ => ⟨q'', rfl, Protocol.conforms_pure.mpr hq''⟩

end Driver

section Results

def Act.publishesError : {β : Type} → Act β → Bool
  | _, .xQueueOverwrite r => r.type = .error
  | _, _ => false

/-- The motor task publishes no error. -/
def resultProtocol : Protocol Act Unit :=
  ⟨fun _ _ a _ => if a.publishesError then none else some ()⟩

theorem resultProtocol_next {p : Unit} {β : Type} {a : Act β} {b : β} (h : a.publishesError = false) :
    resultProtocol.next p a b = some p := by
  simp [resultProtocol, h]

theorem only_noError {α : Type} {prog : Firmware α}
    (h : prog.Only fun a => !a.publishesError) {p : Unit} :
    resultProtocol.Conforms (fun _ q => q = p) prog p :=
  h.keeps fun a b ha => resultProtocol_next (by simpa using ha)

theorem Act.noError_of_ofDrive {β : Type} (a : Act β) (h : a.ofDrive) :
    (!a.publishesError) = true := by
  induction a <;> first | rfl | cases h

theorem result_directRule (cmd : MotorCommand) :
    DirectRule (fun a => !a.publishesError) cmd where
  drive a h := Act.noError_of_ofDrive a (Act.ofDrive_of_ofMotion a h)
  publish r hr := by simpa [Act.publishesError] using hr
  timer := ⟨rfl, rfl, rfl, rfl⟩
  abort := .inr rfl

theorem result_runnerRule : RunnerRule resultProtocol () (fun _ => True) (· = ()) := by
  have hkeep : ∀ {β : Type} (a : Act β) (b : β), (!a.publishesError) = true →
      resultProtocol.next () a b = some () :=
    fun a b ha => resultProtocol_next (by simpa using ha)
  refine .of_only hkeep (fun _ _ => trivial) (fun _ => trivial) ?_ ?_ ?_
  · intro f _
    exact ⟨fun a h => Act.noError_of_ofDrive a (Act.ofDrive_of_ofMotion a h), fun _ => rfl,
      fun _ => rfl, fun _ => rfl, .inr rfl⟩
  · intro β a ha
    induction a <;> first | rfl | cases ha
  · intro r hr
    simpa [Act.publishesError] using hr

theorem result_taskRule : TaskRule resultProtocol (fun _ => True) (fun _ => True) := by
  refine .of_drive (fun _ => trivial) ?_ ?_ ?_
  · intro p _ β a b ha
    have hno : a.publishesError = false := by
      induction a <;> first | rfl | cases ha
    exact ⟨p, resultProtocol_next hno, trivial⟩
  · intro p _ β a b ha
    have hno : a.publishesError = false := by
      induction a <;> first | rfl | cases ha
    exact ⟨p, resultProtocol_next hno, trivial⟩
  · intro p _ cmd
    refine ⟨p, rfl, ?_⟩
    split
    case isTrue => trivial
    case isFalse hplain =>
      by_cases hs : cmd.type.selects
      · exact (result_runnerRule.handle hs (fun _ _ => rfl) fun _ _ _ => trivial).mono
          fun _ _ _ => trivial
      · have honly := (result_directRule cmd).only_handle (Bool.eq_false_iff.mpr hs)
          (Bool.eq_false_iff.mpr hplain)
        exact (only_noError honly).mono fun _ _ _ => trivial

theorem publishes_motorTaskEntry :
    resultProtocol.Conforms (fun _ _ => True) MotorTask.motorTaskEntry () :=
  result_taskRule.motorTaskEntry trivial

end Results

/-- The result the motor task publishes. -/
def Event.publication : Event → Option SmResult
  | .did _ (.xQueueOverwrite r) _ _ => some r
  | _ => none

def Event.beginsMotion (past : List Event) (ev : Event) : Bool :=
  ((motorPhase past).begins (motorPhase (ev :: past))).isSome

/-- An operation in which a call of the driver has failed publishes an error and starts no further
motion. -/
def FailuresReported : List Event → Prop :=
  Throughout fun ev past => (outcome past).failed →
    (ev.publication.all fun r => r.type = .error) ∧ ev.beginsMotion past = false

instance : DecidablePred FailuresReported := decidableThroughout _

/-- An operation in which a call of the driver has failed comes neither to its result nor to another
motion. -/
def FailuresFinal : List Event → Prop :=
  Throughout fun ev past => (outcome past).failed →
    ev.publication = none ∧ ev.beginsMotion past = false

def NoErrorPublished : List Event → Prop :=
  Throughout fun ev _ => ev.publication.all fun r => r.type ≠ .error

theorem Event.publication_of_quiet {t : Tid} {β : Type} {a : Act β} (ha : a.quiet) (b : β)
    (m : Mem) : (Event.did t a b m).publication = none := by
  induction a <;> first | rfl | cases ha

theorem ClientMove.not_publication {isMain : Bool} {β : Type} {a : Act β} {b : β}
    {p q : ClientPhase} (h : ClientMove isMain a b p q) (t : Tid) (m : Mem) :
    (Event.did t a b m).publication = none := by
  induction h <;> rfl

/-- In no run is an error published. -/
theorem noErrorPublished {b : Boot} {c : Config Act Tid World} (h : Reachable b c) :
    NoErrorPublished c.shared.past := by
  have hother : ∀ {ev : Event} {past : List Event}, NoErrorPublished past → ev.publication = none →
      NoErrorPublished (ev :: past) := by
    intro ev past hpast hev
    exact ⟨by simp [hev], hpast⟩
  let I : World → Prop := fun w => NoErrorPublished w.past
  have h0 : I b.world := trivial
  suffices hI : I c.shared from hI
  refine layered_invariant publishes_motorTaskEntry h h0 ?_ ?_ ?_ ?_
  · intro w β a e q r hI _ hs
    refine ⟨?_, hI⟩
    have hnext : (if a.publishesError then none else some ()) = some r := hs.next
    induction a with
    | xQueueOverwrite result =>
      have hno : result.type ≠ .error := by
        intro herror
        simp [Act.publishesError, herror] at hnext
      exact decide_eq_true hno
    | _ => rfl
  · intro w t β a e q hI _ _ hs _
    refine hother hI ?_
    rcases hs with hs | hs
    · exact Event.publication_of_quiet hs.quiet _ _
    · exact hs.move.not_publication t w.mem
  · intro w β a e hI _ hs _
    exact hother hI (Event.publication_of_quiet hs.quiet _ _)
  · intro w h m hI _ _
    exact hother hI rfl

def moveToFull : Command := { type := .moveToStop, direction := some .liqIn, freqHz := some 100 }

/-- The peripheral rejects the first chunk of a `moveToStop`, whose result is published then. -/
def Script.failedMotion : Script :=
  boot ++ turns .http 1 ++ request .http moveToFull 6 ++ turns .motor 10 ++
    [.thread .motor (.err .fail)] ++ turns .motor 4

end Ecotiter
