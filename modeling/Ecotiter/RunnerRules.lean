import Ecotiter.MotorTask
import Ecotiter.ProgramProtocol

/-!
# How the runners follow a protocol

The runners of rinse and of the calibrations consist of fills, empties, waits for the valve, readings
and one result. `RunnerRule` is what a protocol has to say about these parts; every runner then
follows it. The state machines never come to their error action, so the result is never an error.
-/

namespace Ecotiter
open Interleaving Firmware

/-- The commands that are executed by a runner; their motions select the valve. -/
def MotorCommandType.selects : MotorCommandType → Bool
  | .startRinse | .startCalDose | .startCalSpeed | .startCalSpeedSeq => true
  | _ => false

/-- What a runner reads between its strokes. -/
def Act.ofRunner : {β : Type} → Act β → Bool
  | _, .taskWdtReset | _, .positionLoad | _, .xTaskGetTickCount | _, .load .volumeMl => true
  | _, _ => false

/-- In phase `r` the protocol admits strokes at the frequencies `hz`, waits and readings, and a
result that is no error leads to a phase in `Done`. -/
structure RunnerRule {φ : Type} (P : Protocol Act φ) (r : φ) (hz : ℕ → Prop) (Done : φ → Prop) :
    Prop where
  upward : ∀ {f g}, f ≤ g → hz f → hz g
  speed : ∀ v, hz (mlMinToHz v)
  fill : ∀ {f}, hz f → P.Conforms (fun _ q => q = r) (moveFill f) r
  empty : ∀ {f}, hz f → P.Conforms (fun _ q => q = r) (moveEmpty f) r
  settle : P.Conforms (fun _ q => q = r) (settleValve .stopFull) r
  reads : ∀ {β : Type} (a : Act β) (b : β), a.ofRunner → P.next r a b = some r
  publish : ∀ {type} steps speed results count, type ≠ .error →
    P.Conforms (fun _ => Done) (storeResult type steps speed results count) r

/-- The rinse machine is between two motions. -/
def RinseSm.Live (sm : RinseSm) : Prop := sm.started = true ∧ sm.isComplete = false

theorem RinseSm.live_start (cycles : ℕ) (cur nominal : ℚ) :
    (RinseSm.start cycles cur nominal).Live := by
  unfold start Live isComplete
  split <;> exact ⟨rfl, rfl⟩

theorem RinseSm.Live.next {sm : RinseSm} (h : sm.Live) :
    sm.onMotorComplete.1 ≠ .error ∧
      (sm.onMotorComplete.1 ≠ .complete → sm.onMotorComplete.2.Live) := by
  obtain ⟨total, current, phase, started⟩ := sm
  obtain ⟨hstarted, hphase⟩ := h
  cases hstarted
  cases phase with
  | done => cases hphase
  | preFill | emptying => exact ⟨nofun, fun _ => ⟨rfl, rfl⟩⟩
  | filling =>
    simp only [onMotorComplete, Bool.not_true, Bool.false_eq_true, if_false]
    split
    · exact ⟨nofun, fun h => absurd rfl h⟩
    · exact ⟨nofun, fun _ => ⟨rfl, rfl⟩⟩

/-- The sequence machine is between two motions; the frequency of the next one is given. -/
structure CalSpeedSeqSm.Live (freqs : List ℕ) (sm : CalSpeedSeqSm) : Prop where
  started : sm.started = true
  running : sm.isComplete = false
  freqs : sm.freqs = freqs
  index : sm.seqIdx < CalSpeedSeqSm.calSeqPoints

theorem CalSpeedSeqSm.live_start (freqs : List ℕ) : (start freqs).Live freqs :=
  ⟨rfl, rfl, rfl, Nat.succ_pos 2⟩

theorem CalSpeedSeqSm.Live.next {freqs : List ℕ} {sm : CalSpeedSeqSm} (h : sm.Live freqs)
    (now : ℕ) :
    (sm.onTick now).1 ≠ .error ∧
      ((sm.onTick now).1 ≠ .complete → (sm.onTick now).2.Live freqs) := by
  obtain ⟨phase, fs, results, idx, elapsed, settle, first, started⟩ := sm
  obtain ⟨hstarted, hrunning, hfreqs, hindex⟩ := h
  cases hstarted
  simp only [onTick, Bool.not_true, Bool.false_eq_true, if_false]
  cases phase with
  | done => cases hrunning
  | idle | nextPoint => exact ⟨nofun, fun h => absurd rfl h⟩
  | fillFirst => exact ⟨nofun, fun _ => ⟨rfl, rfl, hfreqs, hindex⟩⟩
  | valveSettleAfterFill | valveSettleAfterEmpty =>
    simp only
    split <;> exact ⟨nofun, fun _ => ⟨rfl, rfl, hfreqs, hindex⟩⟩
  | empty =>
    simp only
    split
    · exact ⟨nofun, fun h => absurd rfl h⟩
    case isFalse hlt => exact ⟨nofun, fun _ => ⟨rfl, rfl, hfreqs, Nat.lt_of_not_le hlt⟩⟩

namespace RunnerRule
variable {φ : Type} {P : Protocol Act φ} {r : φ} {hz : ℕ → Prop} {Done : φ → Prop}

theorem read {α β : Type} (h : RunnerRule P r hz Done) {a : Act β} (ha : a.ofRunner)
    {f : β → Firmware α} {Q : α → φ → Prop} (hf : ∀ b, P.Conforms Q (f b) r) :
    P.Conforms Q (Program.perform a >>= f) r := by
  refine Protocol.conforms_act.mpr ?_
  intro b
  exact ⟨r, h.reads a b ha, hf b⟩

theorem rinseLoop (h : RunnerRule P r hz Done) {speedHz : ℕ} (hspeed : hz speedHz) {sm : RinseSm}
    (hsm : sm.Live) : P.Conforms (fun _ => Done) (Ecotiter.rinseLoop speedHz sm) r := by
  refine Protocol.Conforms.iterate (fun (sm : RinseSm) q => sm.Live ∧ q = r) ?_ ⟨hsm, rfl⟩
  rintro sm _ ⟨hsm, rfl⟩
  simp only [hsm.2, Bool.false_eq_true, if_false]
  refine h.read rfl fun _ => h.read rfl fun _ => ?_
  have hnext := hsm.next
  generalize sm.onMotorComplete = r at hnext
  obtain ⟨action, sm'⟩ := r
  cases action with
  | fillToLimit =>
    refine (h.fill hspeed).bind ?_
    rintro _ _ rfl
    exact Protocol.conforms_pure.mpr ⟨hnext.2 nofun, rfl⟩
  | emptyToLimit =>
    refine (h.empty hspeed).bind ?_
    rintro _ _ rfl
    exact Protocol.conforms_pure.mpr ⟨hnext.2 nofun, rfl⟩
  | complete =>
    refine (h.publish _ _ _ _ (by decide)).bind ?_
    intro _ q hq
    exact Protocol.conforms_pure.mpr hq
  | error => exact absurd rfl hnext.1

theorem runRinseSm (h : RunnerRule P r hz Done) (speed cur nominal : ℚ) (cycles : ℕ) :
    P.Conforms (fun _ => Done) (Ecotiter.runRinseSm speed cycles cur nominal) r := by
  have hstart := RinseSm.live_start cycles cur nominal
  unfold Ecotiter.runRinseSm
  by_cases hp : (RinseSm.start cycles cur nominal).phase = .preFill
  · simp only [hp, if_true]
    refine (h.fill (h.speed speed)).bind ?_
    rintro _ _ rfl
    exact h.rinseLoop (h.speed speed) hstart
  · simp only [hp, if_false]
    exact h.rinseLoop (h.speed speed) hstart

/-- A calibration run asks for a stroke until it is complete. -/
theorem runCalDoseSm (h : RunnerRule P r hz Done) (speed cur nominal : ℚ) :
    P.Conforms (fun _ => Done) (Ecotiter.runCalDoseSm speed cur nominal) r := by
  unfold Ecotiter.runCalDoseSm
  have hfill : P.Conforms (fun s q => s.1 = .emptyToLimit ∧ q = r)
      (calDoseFill (mlMinToHz speed) (CalDoseSm.start.onStart cur nominal)) r := by
    unfold calDoseFill
    split
    · refine (h.fill (h.speed speed)).bind ?_
      rintro _ _ rfl
      exact h.read rfl fun _ => Protocol.conforms_pure.mpr ⟨rfl, rfl⟩
    case isFalse hne =>
      refine Protocol.conforms_pure.mpr ⟨?_, rfl⟩
      revert hne
      simp only [CalDoseSm.onStart, CalDoseSm.start, Bool.not_true, Bool.false_eq_true, if_false]
      split <;> simp
  refine hfill.bind ?_
  intro filled q hq
  rw [hq.2]
  have hempty : P.Conforms (fun s q => s.1 = .complete ∧ q = r)
      (calDoseEmpty (mlMinToHz speed) filled) r := by
    unfold calDoseEmpty
    rw [if_pos hq.1]
    refine (h.empty (h.speed speed)).bind ?_
    rintro _ _ rfl
    exact h.read rfl fun _ => Protocol.conforms_pure.mpr ⟨rfl, rfl⟩
  refine hempty.bind ?_
  intro emptied q hq
  rw [hq.2, if_pos hq.1]
  exact h.publish _ _ _ _ (by decide)

theorem runCalSpeedSm (h : RunnerRule P r hz Done) (speed cur nominal : ℚ) (freq : ℕ) :
    P.Conforms (fun _ => Done) (Ecotiter.runCalSpeedSm speed freq cur nominal) r := by
  unfold Ecotiter.runCalSpeedSm
  have hfill : P.Conforms (fun s q => s.1 = .emptyToLimit ∧ q = r)
      (calSpeedFill (mlMinToHz speed) (CalSpeedSingleSm.start.onStart cur nominal)) r := by
    unfold calSpeedFill
    split
    · refine (h.fill (h.speed speed)).bind ?_
      rintro _ _ rfl
      exact h.read rfl fun _ => Protocol.conforms_pure.mpr ⟨rfl, rfl⟩
    case isFalse hne =>
      refine Protocol.conforms_pure.mpr ⟨?_, rfl⟩
      revert hne
      simp only [CalSpeedSingleSm.onStart, CalSpeedSingleSm.start, Bool.not_true,
        Bool.false_eq_true, if_false]
      split <;> simp
  refine hfill.bind ?_
  intro filled q hq
  rw [hq.2]
  have hempty : P.Conforms (fun s q => s.1 = .complete ∧ q = r)
      (calSpeedEmpty freq nominal filled) r := by
    unfold calSpeedEmpty
    rw [if_pos hq.1]
    have hfreq : hz (if freq < mlMinToHz Config.minCalSpeedMlMin then
        mlMinToHz Config.minCalSpeedMlMin else freq) := by
      split
      · exact h.speed _
      case isFalse hle => exact h.upward (Nat.le_of_not_lt hle) (h.speed _)
    refine (h.empty hfreq).bind ?_
    rintro _ _ rfl
    exact h.read rfl fun _ => Protocol.conforms_pure.mpr ⟨rfl, rfl⟩
  refine hempty.bind ?_
  intro emptied q hq
  rw [hq.2, if_pos hq.1]
  exact h.publish _ _ _ _ (by decide)

/-- The sequence runs its empties at the frequencies it is given. -/
theorem runCalSpeedSeqSm (h : RunnerRule P r hz Done) {freqs : List ℕ}
    (hfreqs : ∀ i < CalSpeedSeqSm.calSeqPoints, hz (freqs.getD i 0)) (speed cur nominal : ℚ) :
    P.Conforms (fun _ => Done) (Ecotiter.runCalSpeedSeqSm freqs speed cur nominal) r := by
  have hstart : (if nominal - 1 / 10 ≤ cur then { CalSpeedSeqSm.start freqs with firstEver := false }
      else CalSpeedSeqSm.start freqs).Live freqs := by
    have hlive := CalSpeedSeqSm.live_start freqs
    split
    · exact ⟨hlive.1, hlive.2, hlive.3, hlive.4⟩
    · exact hlive
  refine Protocol.Conforms.iterate (fun (sm : CalSpeedSeqSm) q => sm.Live freqs ∧ q = r) ?_
    ⟨hstart, rfl⟩
  intro sm q hq
  obtain ⟨hsm, hq⟩ := hq
  rw [hq]
  simp only [hsm.running, Bool.false_eq_true, if_false]
  refine h.read rfl fun _ => h.read rfl fun now => ?_
  have hnext := hsm.next now
  generalize sm.onTick now = next at hnext
  obtain ⟨action, sm'⟩ := next
  have hdispatch : P.Conforms (fun goes q => if goes then action ≠ .complete ∧ q = r else Done q)
      (dispatchCalSpeedAction sm' action (mlMinToHz speed)) r := by
    cases action with
    | fillToLimit =>
      refine (h.fill (h.speed speed)).bind ?_
      rintro _ _ rfl
      exact Protocol.conforms_pure.mpr ⟨nofun, rfl⟩
    | emptyToLimit =>
      have hlive := hnext.2 nofun
      have hfreq : hz (sm'.freqs.getD sm'.seqIdx 0) := hlive.freqs ▸ hfreqs _ hlive.index
      refine (h.empty hfreq).bind ?_
      rintro _ _ rfl
      exact Protocol.conforms_pure.mpr ⟨nofun, rfl⟩
    | settleValve =>
      refine h.settle.bind ?_
      rintro _ _ rfl
      exact Protocol.conforms_pure.mpr ⟨nofun, rfl⟩
    | complete =>
      refine (h.publish _ _ _ _ (by decide)).bind ?_
      intro _ q hq
      exact Protocol.conforms_pure.mpr hq
    | error => exact absurd rfl hnext.1
  refine hdispatch.bind ?_
  intro goes q hq
  cases goes with
  | false => exact Protocol.conforms_pure.mpr hq
  | true => exact Protocol.conforms_pure.mpr ⟨hnext.2 hq.1, hq.2⟩

/-- The commands that are executed by a runner follow the protocol, once the state they announce is
admitted. -/
theorem handle (h : RunnerRule P r hz Done) {cmd : MotorCommand} (ht : cmd.type.selects)
    (hstate : ∀ x, x = .rinsing ∨ x = .dosing → P.next r (.store .buretteState x) () = some r)
    (hfreqs : cmd.type = .startCalSpeedSeq →
      ∀ i < CalSpeedSeqSm.calSeqPoints, hz (cmd.startCalSpeedSeq.freqs.getD i 0)) :
    P.Conforms (fun _ => Done) (MotorTask.handle cmd) r := by
  have hopen : ∀ (x : BuretteState) (run : ℚ × ℚ → Firmware Unit), x = .rinsing ∨ x = .dosing →
      (∀ v, P.Conforms (fun _ => Done) (run v) r) →
      P.Conforms (fun _ => Done)
        (do store .buretteState x; let v ← MotorTask.runnerVolumes; run v) r := by
    intro x run hx hrun
    refine Protocol.conforms_act.mpr fun _ => ⟨r, hstate x hx, ?_⟩
    exact Protocol.conforms_act.mpr fun vol => ⟨r, h.reads (.load .volumeMl) vol rfl, hrun _⟩
  unfold MotorTask.handle
  cases hc : cmd.type with
  | startRinse => exact hopen .rinsing _ (.inl rfl) fun v => h.runRinseSm _ _ _ _
  | startCalDose => exact hopen .dosing _ (.inr rfl) fun v => h.runCalDoseSm _ _ _
  | startCalSpeed => exact hopen .dosing _ (.inr rfl) fun v => h.runCalSpeedSm _ _ _ _
  | startCalSpeedSeq => exact hopen .dosing _ (.inr rfl) fun v => h.runCalSpeedSeqSm (hfreqs hc) _ _ _
  | _ =>
    rw [hc] at ht
    cases ht

end RunnerRule
end Ecotiter
