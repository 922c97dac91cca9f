import Ecotiter.MotorActions
import Ecotiter.RunnerRules

/-!
# How the motor task follows a protocol

The motor task sets itself up, homes, and then executes one command after the other. `TaskRule` is
what a protocol has to say about the phases between the commands; the whole task then follows it.
-/

namespace Ecotiter
open Interleaving Firmware

/-- A protocol whose phase no action of a runner disturbs. -/
theorem RunnerRule.of_only {φ : Type} {P : Protocol Act φ} {r : φ} {hz : ℕ → Prop}
    {S : {β : Type} → Act β → Bool}
    (hkeep : ∀ {β : Type} (a : Act β) (b : β), S a → P.next r a b = some r)
    (hup : ∀ {f g}, f ≤ g → hz f → hz g) (hspeed : ∀ v, hz (mlMinToHz v))
    (hstroke : ∀ {f}, hz f → StrokeRule S f) (hreads : ∀ {β : Type} (a : Act β), a.ofRunner → S a)
    (hpublish : ∀ result : SmResult, result.type ≠ .error → S (.xQueueOverwrite result)) :
    RunnerRule P r hz (· = r) where
  upward := hup
  speed := hspeed
  fill hf := (hstroke hf).only_moveFill.keeps hkeep
  empty hf := (hstroke hf).only_moveEmpty.keeps hkeep
  settle := (hstroke (hspeed 0)).only_settleValve.keeps hkeep
  reads a b ha := hkeep a b (hreads a ha)
  publish speed steps results count ht := by
    have hdrive : ∀ {β : Type} (a : Act β), a.ofMotion → S a := (hstroke (hspeed 0)).drive
    have honly : (storeResult _ speed steps results count).Only S :=
      .andThen (hpublish _ ht) fun _ => .andThen (hdrive _ rfl) fun _ =>
        ⟨hdrive (.store .buretteState .idle) rfl, fun _ => trivial⟩
    exact honly.keeps hkeep

/-- What the commands without a runner do besides driving the motor. -/
structure DirectRule (S : {β : Type} → Act β → Bool) (cmd : MotorCommand) : Prop where
  drive : ∀ {β : Type} (a : Act β), a.ofMotion → S a
  publish : ∀ r : SmResult, r.type ≠ .error → S (.xQueueOverwrite r)
  timer : S (.exchangeTimerArmed false) ∧ S .espTimerIsCreated ∧ S .espTimerStop ∧
    S (.store .valveIsSettling false)
  abort : (cmd.type = .moveContinuous → cmd.speedHz ≠ 0) ∧ cmd.type ≠ .emergencyStop ∨ S .abort

theorem DirectRule.only_storeResult {S : {β : Type} → Act β → Bool} {cmd : MotorCommand}
    (h : DirectRule S cmd) {steps : ℤ} {speed : ℚ} {results : List ℚ} {count : ℕ} :
    (storeResult .none steps speed results count).Only S := by
  refine .andThen (h.publish _ nofun) fun _ => .andThen (h.drive _ rfl) fun _ => ?_
  exact ⟨h.drive (.store .buretteState .idle) rfl, fun _ => trivial⟩

theorem DirectRule.only_handleEmergencyStop {S : {β : Type} → Act β → Bool} {cmd : MotorCommand}
    (h : DirectRule S cmd) (ht : cmd.type = .emergencyStop) :
    MotorTask.handleEmergencyStop.Only S := by
  obtain ⟨hexchange, hcreated, hstop, hsettling⟩ := h.timer
  have habort : S .abort = true := h.abort.resolve_left fun hne => hne.2 ht
  have hrest : (do
      store .valveIsSettling false
      storeStop .stopFull true
      storeStop .stopEmpty true
      store .buretteState .error : Firmware Unit).Only S :=
    .andThen hsettling fun _ => .andThen (h.drive _ rfl) fun _ =>
      .andThen (h.drive _ rfl) fun _ => ⟨h.drive (.store .buretteState .error) rfl, fun _ => trivial⟩
  refine .bind ?_ fun _ => hrest
  refine .andThen hexchange fun armed => ?_
  cases armed with
  | false => exact trivial
  | true =>
    refine .andThen hcreated fun created => ?_
    cases created with
    | false => exact trivial
    | true =>
      refine .andThen hstop fun err => ?_
      split
      · exact ⟨habort, fun _ => trivial⟩
      · exact trivial

/-- The other commands without a runner. -/
theorem DirectRule.only_handle {S : {β : Type} → Act β → Bool} {cmd : MotorCommand}
    (h : DirectRule S cmd) (ht : cmd.type.selects = false) (hp : cmd.type.plain = false) :
    (MotorTask.handle cmd).Only S := by
  cases hc : cmd.type with
  | moveSteps =>
    simp only [MotorTask.handle, hc]
    refine .andThen (h.drive _ rfl) fun before => ?_
    refine (only_executeMoveSteps.mono h.drive).bind fun _ => ?_
    exact .andThen (h.drive _ rfl) fun pos => h.only_storeResult
  | moveContinuous =>
    simp only [MotorTask.handle, hc]
    have hmove : (moveToEndstop cmd.direction cmd.speedHz .stopFull).Only S :=
      only_moveToEndstop h.drive (h.abort.imp_left fun hne => hne.1 hc)
    exact hmove.bind fun _ => h.only_storeResult
  | emergencyStop =>
    simp only [MotorTask.handle, hc]
    exact h.only_handleEmergencyStop hc
  | startRinse | startCalDose | startCalSpeed | startCalSpeedSeq =>
    rw [hc] at ht
    cases ht
  | _ =>
    rw [hc] at hp
    cases hp

/-- What the motor task does once, before it homes. -/
def Act.ofSetup : {β : Type} → Act β → Bool
  | _, .createMotorCmdQueue | _, .createSmResultQueue | _, .gpioIsrHandlerAdd _ => true
  | _, _ => false

/-- What the motor task does between two commands. -/
def Act.ofLoop : {β : Type} → Act β → β → Bool
  | _, .store .homingDone _, _ | _, .taskWdtReset, _ => true
  | _, .xQueueReceive, cmd => cmd.isNone
  | _, _, _ => false

/-- `J` holds between two commands, `F` before a command without a motion, and before a homing. -/
structure TaskRule {φ : Type} (P : Protocol Act φ) (J F : φ → Prop) : Prop where
  between : ∀ {p}, F p → J p
  setup : ∀ {p}, F p → ∀ {β : Type} (a : Act β) (b : β), a.ofSetup → ∃ q, P.next p a b = some q ∧ F q
  drive : ∀ {p}, F p → ∀ {β : Type} (a : Act β) (b : β), a.ofMotion →
    ∃ q, P.next p a b = some q ∧ F q
  homing : ∀ {p}, F p → ∀ switch, P.Conforms (fun _ => J) (runHoming switch) p
  announce : ∀ {p}, J p → ∃ q, P.next p (.store .homingDone true) () = some q ∧ J q
  feed : ∀ {p}, J p → ∃ q, P.next p .taskWdtReset () = some q ∧ J q
  idle : ∀ {p}, J p → ∃ q, P.next p .xQueueReceive none = some q ∧ J q
  receive : ∀ {p}, J p → ∀ cmd : MotorCommand, ∃ q, P.next p .xQueueReceive (some cmd) = some q ∧
    if cmd.type.plain then F q else P.Conforms (fun _ => J) (MotorTask.handle cmd) q

/-- A protocol that only the commands with a motion concern. -/
theorem TaskRule.of_drive {φ : Type} {P : Protocol Act φ} {J F : φ → Prop}
    (hbetween : ∀ {p}, F p → J p)
    (hact : ∀ {p}, F p → ∀ {β : Type} (a : Act β) (b : β), a.ofSetup || a.ofDrive →
      ∃ q, P.next p a b = some q ∧ F q)
    (hloop : ∀ {p}, J p → ∀ {β : Type} (a : Act β) (b : β), a.ofLoop b →
      ∃ q, P.next p a b = some q ∧ J q)
    (hreceive : ∀ {p}, J p → ∀ cmd : MotorCommand, ∃ q,
      P.next p .xQueueReceive (some cmd) = some q ∧
        if cmd.type.plain then F q else P.Conforms (fun _ => J) (MotorTask.handle cmd) q) :
    TaskRule P J F where
  between := hbetween
  setup hp _ a b ha := hact hp a b (by rw [ha, Bool.true_or])
  drive hp _ a b ha := hact hp a b (by rw [Act.ofDrive_of_ofMotion a ha, Bool.or_true])
  homing hp switch :=
    (only_runHoming.conforms (fun p hp β a b ha => hact hp a b (by rw [ha, Bool.or_true])) hp).mono
      fun _ _ => hbetween
  announce hp := hloop hp (.store .homingDone true) () rfl
  feed hp := hloop hp .taskWdtReset () rfl
  idle hp := hloop hp .xQueueReceive none rfl
  receive := hreceive

namespace TaskRule
variable {φ : Type} {P : Protocol Act φ} {J F : φ → Prop}

/-- The commands without a motion, and a homing. -/
theorem handle_plain (h : TaskRule P J F) {cmd : MotorCommand} (ht : cmd.type.plain) {p : φ}
    (hp : F p) : P.Conforms (fun _ => J) (MotorTask.handle cmd) p := by
  by_cases hhome : cmd.type = .home
  · rw [MotorTask.handle, hhome]
    exact h.homing hp .empty
  · refine ((only_handle_motion ht hhome).conforms (fun p hp β a b ha => h.drive hp a b ha) hp).mono ?_
    exact fun _ _ => h.between

theorem commandLoop (h : TaskRule P J F) {p : φ} (hp : J p) :
    P.Conforms (fun _ _ => True) MotorTask.commandLoop p := by
  refine Protocol.Conforms.iterate (fun _ => J) ?_ hp
  intro _ p hp
  obtain ⟨q, hq, hJ⟩ := h.feed hp
  refine Protocol.conforms_act.mpr fun _ => ⟨q, hq, Protocol.conforms_act.mpr fun cmd => ?_⟩
  cases cmd with
  | none =>
    obtain ⟨r, hr, hJ⟩ := h.idle hJ
    exact ⟨r, hr, Protocol.conforms_pure.mpr hJ⟩
  | some cmd =>
    obtain ⟨r, hr, hnext⟩ := h.receive hJ cmd
    have hhandle : P.Conforms (fun _ => J) (MotorTask.handle cmd) r := by
      split at hnext
      case isTrue hplain => exact h.handle_plain hplain hnext
      case isFalse => exact hnext
    refine ⟨r, hr, hhandle.bind ?_⟩
    intro _ q hq
    exact Protocol.conforms_pure.mpr hq

theorem motorTaskEntry (h : TaskRule P J F) {p : φ} (hp : F p) :
    P.Conforms (fun _ _ => True) MotorTask.motorTaskEntry p := by
  have hsetup : ∀ {β α : Type} {a : Act β} {f : β → Firmware α} {p : φ}, a.ofSetup → F p →
      (∀ b q, F q → P.Conforms (fun _ _ => True) (f b) q) →
      P.Conforms (fun _ _ => True) (Program.perform a >>= f) p := by
    intro β α a f p ha hp hf
    refine Protocol.conforms_act.mpr fun b => ?_
    obtain ⟨q, hq, hF⟩ := h.setup hp a b ha
    exact ⟨q, hq, hf b q hF⟩
  have hqueues : P.Conforms (fun _ => F) MotorTask.createMotorQueues p := by
    refine Protocol.conforms_act.mpr fun created => ?_
    obtain ⟨q, hq, hF⟩ := h.setup hp .createMotorCmdQueue created rfl
    refine ⟨q, hq, ?_⟩
    cases created with
    | false => exact Protocol.conforms_pure.mpr hF
    | true =>
      refine Protocol.conforms_act.mpr fun b => ?_
      obtain ⟨r, hr, hF⟩ := h.setup hF .createSmResultQueue b rfl
      exact ⟨r, hr, Protocol.conforms_pure.mpr hF⟩
  refine hqueues.bind fun created q hq => ?_
  cases created with
  | false => exact Protocol.conforms_pure.mpr trivial
  | true =>
    refine hsetup rfl hq fun _ q hq => hsetup rfl hq fun _ q hq => ?_
    have htmc : P.Conforms (fun _ => F) MotorTask.configureTmcUart q :=
      only_configureTmcUart.conforms (fun p hp β a b ha => h.drive hp a b ha) hq
    refine htmc.bind fun _ q hq => (h.homing hq .full).bind fun _ q hq => ?_
    obtain ⟨r, hr, hJ⟩ := h.announce hq
    exact Protocol.conforms_act.mpr fun _ => ⟨r, hr, h.commandLoop hJ⟩

end TaskRule
end Ecotiter
