import Ecotiter.RequestCommands
import Ecotiter.SequentialRuns

/-!
# Rejected commands

What a handler has done when it answers with an error. A handler that starts an operation claims
the burette before it looks at the calibration, and sets the direction before it knows whether the
queue has room; only the claim is put back, and only if the queue is full.
-/

namespace Ecotiter
open Interleaving Firmware

/-- What a rejected command must leave alone. -/
structure Controls where
  buretteState : BuretteState
  direction : Direction
  speed : ℕ
  accel : ℕ
  stopFull : Bool
  stopEmpty : Bool
  valveIsSettling : Bool
  valvePosition : ValvePosition
  motorCmdQueue : Option (List MotorCommand)
  deriving DecidableEq

def Mem.controls (m : Mem) : Controls :=
  ⟨m.buretteState, m.direction, m.speed, m.accel, m.stopFull, m.stopEmpty, m.valveIsSettling,
    m.valvePosition, m.motorCmdQueue⟩

/-- The burette is free to be claimed. -/
def Mem.claimable (m : Mem) : Bool := m.buretteState = .idle && !m.valveIsSettling

/-- The states in which a command is refused after a part of its work has been done. -/
def Mem.refusesHalfDone (m : Mem) (cmd : Command) : Bool :=
  m.claimable && match cmd.type with
    | .fill => m.calCache.isNone || (!m.motorQueueHasRoom && m.direction ≠ .liqIn)
    | .empty => m.calCache.isNone || (!m.motorQueueHasRoom && m.direction ≠ .liqOut)
    | .doseVolume => cmd.volume.any fun v => m.calCache.all fun cal =>
        !doseVolumeValid v cal || (!m.motorQueueHasRoom && m.direction ≠ .liqIn)
    | .rinse => (cmd.volume.map toU32).any (· ≠ 0) && m.calCache.isNone
    | .setDirection => !m.motorQueueHasRoom && cmd.direction.any (· ≠ m.direction)
    | .setSpeed => !m.motorQueueHasRoom && cmd.speed.any (· ≠ m.speed)
    | .setAccel => !m.motorQueueHasRoom && cmd.accel.any (· ≠ m.accel)
    | _ => false

/-- An error leaves the controls as they were in `m`. -/
def KeepsControls (m : Mem) (rsp : CommandResponse) (m' : Mem) : Prop :=
  rsp.kind = .error → m'.controls = m.controls

section Shapes
variable {t : Tid} {m : Mem} {Q : CommandResponse → Mem → Prop}

theorem leaves_claimBurette {state : BuretteState} {next : Firmware CommandResponse}
    (hrun : m.aborted = false) :
    Leaves t Q (claimBurette state next) m ↔
      if m.claimable then Leaves t Q next { m with buretteState := state }
      else Q (makeErrorResponse "burette_busy") m := by
  cases hsettling : m.valveIsSettling with
  | true => simp [claimBurette, load, Act.run, Mem.get, Mem.claimable, hrun, hsettling]
  | false =>
    by_cases hidle : m.buretteState = .idle <;>
      simp [claimBurette, load, Act.run, Mem.get, Mem.claimable, hrun, hsettling, hidle]

theorem leaves_enqueueClaimed {cmd : MotorCommand} {accepted : CommandResponse} {message : String}
    (hrun : m.aborted = false) :
    Leaves t Q (enqueueClaimed cmd accepted message) m ↔
      if m.motorQueueHasRoom then
        Q accepted { m with motorCmdQueue := m.motorCmdQueue.map (· ++ [cmd]) }
      else Q (makeErrorResponse message) { m with buretteState := .idle } := by
  rw [enqueueClaimed, leaves_bind, leaves_sendMotorCommand hrun]
  split <;> simp [store, Act.run, Mem.set, hrun]

theorem Mem.set_aborted {α : Type} (v : Var α) (x : α) (m : Mem) :
    (m.set v x).aborted = m.aborted := by
  induction v <;> rfl

theorem leaves_applySetting {α : Type} {v : Var α} {x : α} {cmd : MotorCommand}
    (hrun : m.aborted = false) :
    Leaves t Q (BuretteOps.applySetting v x cmd) m ↔
      if m.claimable then
        if (m.set v x).motorQueueHasRoom then
          Q (makeSingleResponse BuretteOps.statusOk)
            { m.set v x with motorCmdQueue := (m.set v x).motorCmdQueue.map (· ++ [cmd]) }
        else Q (makeErrorResponse "busy") (m.set v x)
      else Q (makeErrorResponse "burette_busy") m := by
  have hset : (m.set v x).aborted = false := (m.set_aborted v x).trans hrun
  cases hsettling : m.valveIsSettling with
  | true =>
    simp [BuretteOps.applySetting, load, Act.run, Mem.get, Mem.claimable, hrun, hsettling]
  | false =>
    by_cases hidle : m.buretteState = .idle
    · by_cases hroom : (m.set v x).motorQueueHasRoom <;>
        simp [BuretteOps.applySetting, load, store, Act.run, Mem.get, Mem.claimable, hrun,
          hsettling, hidle, leaves_bind, leaves_sendMotorCommand hset, hroom]
    · simp [BuretteOps.applySetting, load, Act.run, Mem.get, Mem.claimable, hrun, hsettling, hidle]

end Shapes

section Handlers
variable {t : Tid} {m m' : Mem}

theorem keeps_self (rsp : CommandResponse) : KeepsControls m rsp m := fun _ => rfl

theorem keeps_accepted {rsp : CommandResponse} (h : rsp.kind ≠ .error) : KeepsControls m rsp m' :=
  fun hkind => absurd hkind h

@[simp] theorem keeps_error {message : String} :
    KeepsControls m (makeErrorResponse message) m' ↔ m'.controls = m.controls :=
  ⟨fun h => h rfl, fun h _ => h⟩

theorem keeps_claimBurette {state : BuretteState} {next : Firmware CommandResponse}
    (hrun : m.aborted = false) :
    Leaves t (KeepsControls m) (claimBurette state next) m ↔
      (m.claimable → Leaves t (KeepsControls m) next { m with buretteState := state }) := by
  rw [leaves_claimBurette hrun]
  by_cases hclaim : m.claimable <;> simp [hclaim]

theorem keeps_enqueueClaimed {cmd : MotorCommand} {accepted : CommandResponse} {message : String}
    (hrun : m'.aborted = false) (haccepted : accepted.kind ≠ .error) :
    Leaves t (KeepsControls m) (enqueueClaimed cmd accepted message) m' ↔
      m'.motorQueueHasRoom ∨ ({ m' with buretteState := .idle } : Mem).controls = m.controls := by
  rw [leaves_enqueueClaimed hrun]
  by_cases hroom : m'.motorQueueHasRoom
  · simp [hroom, keeps_accepted haccepted]
  · simp [hroom]

/-- A setting that the queue does not take has been published all the same. -/
theorem keeps_applySetting {α : Type} [DecidableEq α] {v : Var α} {x : α} {cmd : MotorCommand}
    (hrun : m.aborted = false) (hset : (m.set v x).motorCmdQueue = m.motorCmdQueue)
    (hchange : (m.set v x).controls = m.controls ↔ x = m.get v) :
    Leaves t (KeepsControls m) (BuretteOps.applySetting v x cmd) m ↔
      (m.claimable && (!m.motorQueueHasRoom && x ≠ m.get v)) = false := by
  have hroom : (m.set v x).motorQueueHasRoom = m.motorQueueHasRoom := by
    simp only [Mem.motorQueueHasRoom, hset]
  rw [leaves_applySetting hrun, hroom]
  by_cases hclaim : m.claimable
  · by_cases hroom : m.motorQueueHasRoom
    · simp only [hclaim, hroom, if_true]
      simp [KeepsControls, makeSingleResponse]
    · simp only [hclaim, hroom, if_true, Bool.false_eq_true, if_false, keeps_error, hchange]
      simp
  · simp [hclaim]


theorem Mem.idle_of_claimable (h : m.claimable) : m.buretteState = .idle := by
  simp only [Mem.claimable, Bool.and_eq_true, decide_eq_true_eq] at h
  exact h.1

attribute [local simp] load store Act.run Mem.get Mem.set Mem.controls Mem.motorQueueHasRoom

theorem keeps_handleFill (hrun : m.aborted = false) :
    Leaves t (KeepsControls m) BuretteOps.handleFill m ↔
      (m.claimable → m.calCache.isSome ∧ (m.motorQueueHasRoom ∨ m.direction = .liqIn)) := by
  rw [BuretteOps.handleFill, keeps_claimBurette hrun]
  refine forall_congr' fun hclaim => ?_
  have hidle := Mem.idle_of_claimable hclaim
  cases hcal : m.calCache with
  | none => simp [hrun, hidle]
  | some cal =>
    simp [hrun, hidle, keeps_enqueueClaimed, makeAckThenResponse, @eq_comm Direction]

theorem keeps_handleEmpty (hrun : m.aborted = false) :
    Leaves t (KeepsControls m) BuretteOps.handleEmpty m ↔
      (m.claimable → m.calCache.isSome ∧ (m.motorQueueHasRoom ∨ m.direction = .liqOut)) := by
  rw [BuretteOps.handleEmpty, keeps_claimBurette hrun]
  refine forall_congr' fun hclaim => ?_
  have hidle := Mem.idle_of_claimable hclaim
  cases hcal : m.calCache with
  | none => simp [hrun, hidle]
  | some cal =>
    simp [hrun, hidle, keeps_enqueueClaimed, makeAckThenResponse, @eq_comm Direction]

theorem keeps_handleDoseVolume (hrun : m.aborted = false) {volume speedMlMin : Option ℚ} :
    Leaves t (KeepsControls m) (BuretteOps.handleDoseVolume volume speedMlMin) m ↔
      (m.claimable → ∀ v ∈ volume, ∃ cal ∈ m.calCache, doseVolumeValid v cal ∧
        (m.motorQueueHasRoom ∨ m.direction = .liqIn)) := by
  cases volume with
  | none => simp [BuretteOps.handleDoseVolume]
  | some v =>
    rw [BuretteOps.handleDoseVolume, keeps_claimBurette hrun]
    refine forall_congr' fun hclaim => ?_
    have hidle := Mem.idle_of_claimable hclaim
    cases hcal : m.calCache with
    | none => simp [hrun, hidle]
    | some cal =>
      cases hvalid : doseVolumeValid v cal with
      | false => simp [hrun, hidle, planDose_valid, hvalid]
      | true =>
        simp [hrun, hidle, planDose_valid, hvalid, keeps_enqueueClaimed,
          makeAckThenResponse, @eq_comm Direction]

theorem keeps_handleRinse (hrun : m.aborted = false) {cycles : Option ℕ} :
    Leaves t (KeepsControls m) (BuretteOps.handleRinse cycles) m ↔
      (m.claimable → (∃ n ∈ cycles, n ≠ 0) → m.calCache.isSome) := by
  unfold BuretteOps.handleRinse
  split
  · simp [keeps_self]
  · simp [keeps_self]
  case h_3 n hn =>
    rw [keeps_claimBurette hrun]
    refine forall_congr' fun hclaim => ?_
    have hidle := Mem.idle_of_claimable hclaim
    cases hcal : m.calCache with
    | none => simpa [hrun, hidle] using hn
    | some cal => simp [hrun, hidle, keeps_enqueueClaimed, makeAckThenResponse]

/-- What follows the planning of a calibration run. -/
theorem keeps_plannedCalRun (hrun : m.aborted = false) {plan : CalRunPlan} {message : String} :
    Leaves t (KeepsControls m)
      (if plan.action = .reject then return makeErrorResponse message
      else do
        if ← Program.perform (.casBuretteState .dosing) then
          enqueueClaimed (BuretteOps.calRunCommand plan) makeAckThenResponse "busy"
        else return makeErrorResponse "burette_busy") m := by
  by_cases hreject : plan.action = .reject
  · simp [hreject]
  · by_cases hidle : m.buretteState = .idle <;>
      simp [hrun, hreject, hidle, keeps_enqueueClaimed, makeAckThenResponse]

theorem keeps_handleCalRun (hrun : m.aborted = false) {mode : Option String}
    {freqHz speedMlMin : Option ℚ} :
    Leaves t (KeepsControls m) (BuretteOps.handleCalRun mode freqHz speedMlMin) m := by
  cases mode with
  | none => simp [BuretteOps.handleCalRun]
  | some mode =>
    cases hsettling : m.valveIsSettling with
    | true => simp [BuretteOps.handleCalRun, hrun, hsettling]
    | false =>
      cases hcal : m.calCache with
      | none => simp [BuretteOps.handleCalRun, hrun, hsettling, hcal]
      | some cal =>
        unfold BuretteOps.handleCalRun
        refine leaves_act.mpr fun _ _ => ?_
        simp only [Act.run, Mem.get, hsettling]
        refine leaves_act.mpr fun _ _ => ?_
        simp only [Act.run, Mem.get, hcal]
        exact leaves_act.mpr fun _ _ => keeps_plannedCalRun hrun

theorem keeps_handleStop (hrun : m.aborted = false) :
    Leaves t (KeepsControls m) BuretteOps.handleStop m := by
  by_cases hidle : m.buretteState = .idle <;> cases hsettling : m.valveIsSettling <;>
    simp [BuretteOps.handleStop, hrun, hidle, hsettling, keeps_enqueueClaimed, makeSingleResponse]

/-- A claim that is followed by the enqueueing alone is put back. -/
theorem keeps_claimAndEnqueue (hrun : m.aborted = false) {state : BuretteState}
    {cmd : MotorCommand} {message : String} :
    Leaves t (KeepsControls m)
      (claimBurette state (enqueueClaimed cmd makeAckThenResponse message)) m := by
  rw [keeps_claimBurette hrun]
  intro hclaim
  simp [hrun, Mem.idle_of_claimable hclaim, keeps_enqueueClaimed, makeAckThenResponse]

theorem Act.run_controls {β : Type} {a : Act β} (h : a.keepsRecords) (e : Input) (m : Mem) :
    (a.run e m).2.controls = m.controls := by
  induction a with
  | store v x => induction v <;> first | rfl | cases h
  | nvsSet k x =>
    simp only [Act.run]
    split <;> rfl
  | _ => first | rfl | cases h

/-- A handler that keeps records does not touch the controls. -/
theorem keeps_recordHandlers {cmd : Command} (h : cmd.type.keepsRecords) :
    Leaves t (KeepsControls m) (handlerOf cmd) m := by
  have hkeeps : Leaves t (fun _ m' => m'.controls = m.controls) (handlerOf cmd) m :=
    (only_recordHandlers h).post (fun a e m' ha hm => (Act.run_controls ha e m').trans hm) rfl
  exact hkeeps.mono fun _ _ hm _ => hm

theorem keeps_handleSetPosition (hrun : m.aborted = false) {pos : Option ValvePosition} :
    Leaves t (KeepsControls m) (ValveHandlers.handleSetPosition pos) m := by
  cases pos with
  | none => simp [ValveHandlers.handleSetPosition]
  | some pos =>
    by_cases hidle : m.buretteState = .idle
    · cases hsettling : m.valveIsSettling with
      | true => simp [ValveHandlers.handleSetPosition, hrun, hidle, hsettling]
      | false =>
        simp [ValveHandlers.handleSetPosition, hrun, hidle, hsettling, leaves_bind]
        exact leaves_of_forall fun _ _ => leaves_of_forall fun _ _ =>
          keeps_accepted ResponseKind.single_ne_error
    · simp [ValveHandlers.handleSetPosition, hrun, hidle]

theorem keeps_handleStallGuardGet :
    Leaves t (KeepsControls m) StallGuard.handleStallGuardGet m := by
  rw [StallGuard.handleStallGuardGet, leaves_bind]
  refine leaves_of_forall fun _ _ => ?_
  rw [leaves_bind]
  exact leaves_of_forall fun _ _ => leaves_pure.mpr (keeps_accepted ResponseKind.single_ne_error)

theorem keeps_handleStallGuardSetThreshold {threshold : Option ℕ} :
    Leaves t (KeepsControls m) (StallGuard.handleStallGuardSetThreshold threshold) m := by
  cases threshold with
  | none => simp [StallGuard.handleStallGuardSetThreshold]
  | some threshold =>
    refine leaves_act.mpr fun _ _ => leaves_act.mpr fun _ _ => leaves_act.mpr fun _ e => ?_
    cases (Act.nvsOpen true).run e _ with
    | mk opened m' =>
      cases opened with
      | false => exact leaves_ret.mpr (keeps_accepted ResponseKind.single_ne_error)
      | true => exact leaves_act.mpr fun _ _ => leaves_ret.mpr (keeps_accepted ResponseKind.single_ne_error)

end Handlers

section Dispatch
variable {t : Tid} {m : Mem}

/-- The handlers keep the controls exactly where they do not refuse half done. -/
theorem keeps_handlerOf (hrun : m.aborted = false) {cmd : Command}
    (hcmd : cmd.type ≠ .emergencyStop) :
    Leaves t (KeepsControls m) (handlerOf cmd) m ↔ m.refusesHalfDone cmd = false := by
  by_cases hrecords : cmd.type.keepsRecords
  · refine iff_of_true (keeps_recordHandlers hrecords) ?_
    unfold Mem.refusesHalfDone
    cases ht : cmd.type <;> first | exact Bool.and_false _ | (rw [ht] at hrecords; cases hrecords)
  unfold handlerOf Mem.refusesHalfDone
  cases ht : cmd.type with
  | fill => by_cases hroom : m.motorQueueHasRoom <;> simp [keeps_handleFill hrun, hroom]
  | empty => by_cases hroom : m.motorQueueHasRoom <;> simp [keeps_handleEmpty hrun, hroom]
  | doseVolume =>
    cases hv : cmd.volume with
    | none => simp [keeps_handleDoseVolume hrun]
    | some v =>
      cases hcal : m.calCache with
      | none => simp [keeps_handleDoseVolume hrun, hcal]
      | some cal =>
        by_cases hroom : m.motorQueueHasRoom <;> simp [keeps_handleDoseVolume hrun, hcal, hroom]
  | rinse => cases hv : cmd.volume <;> simp [keeps_handleRinse hrun]
  | emergencyStop => exact absurd ht hcmd
  | stop => simp only [keeps_handleStop hrun, Bool.and_false]
  | moveToStop =>
    simp only [BuretteOps.handleMoveContinuous, Bool.and_false, iff_true]
    split
    · split
      · exact leaves_ret.mpr (keeps_self _)
      · exact keeps_claimAndEnqueue hrun
    · exact leaves_ret.mpr (keeps_self _)
  | calRun => simp only [keeps_handleCalRun hrun, Bool.and_false]
  | calRunSpeedSeq =>
    simp only [BuretteCal.handleRunCalibration, Bool.and_false, iff_true]
    split
    · exact leaves_ret.mpr (keeps_self _)
    · exact keeps_claimAndEnqueue hrun
  | moveSteps =>
    simp only [BuretteOps.handleMoveSteps, Bool.and_false, iff_true]
    split
    · exact leaves_ret.mpr (keeps_self _)
    · exact keeps_claimAndEnqueue hrun
  | setDirection =>
    cases hd : cmd.direction with
    | none => simp [BuretteOps.handleSetDirection]
    | some d => exact keeps_applySetting hrun rfl (by simp [Mem.controls, Mem.set, Mem.get])
  | setSpeed =>
    cases hd : cmd.speed with
    | none => simp [BuretteOps.handleSetSpeed]
    | some d => exact keeps_applySetting hrun rfl (by simp [Mem.controls, Mem.set, Mem.get])
  | setAccel =>
    cases hd : cmd.accel with
    | none => simp [BuretteOps.handleSetAccel]
    | some d => exact keeps_applySetting hrun rfl (by simp [Mem.controls, Mem.set, Mem.get])
  | stallGuardGet => simp only [keeps_handleStallGuardGet, Bool.and_false]
  | stallGuardSetThreshold => simp only [keeps_handleStallGuardSetThreshold, Bool.and_false]
  | valveSetPosition => simp only [keeps_handleSetPosition hrun, Bool.and_false]
  | _ => rw [ht] at hrecords; exact absurd rfl hrecords

theorem keeps_dispatch (hrun : m.aborted = false) {cmd : Command}
    (hcmd : cmd.type ≠ .emergencyStop) :
    Leaves t (KeepsControls m) (dispatch cmd) m ↔ m.refusesHalfDone cmd = false := by
  rw [dispatch, withId, leaves_bind, ← @keeps_handlerOf t m hrun cmd hcmd]
  simp only [leaves_pure]
  rfl

end Dispatch

/-- A command that is rejected in this state leaves the controls as they are. -/
def RejectsCleanly (t : Tid) (cmd : Command) (w : World) : Prop :=
  (dispatch cmd).Post (.any device) t (fun rsp w' => KeepsControls w.mem rsp w'.mem) w

/-- In every reachable state the commands other than the emergency stop reject cleanly exactly
where they do not refuse half done. -/
theorem rejectsCleanly_iff {b : Boot} {c : Config Act Tid World} (_ : Reachable b c)
    (hrun : c.shared.mem.aborted = false) {t : Tid} {cmd : Command}
    (hcmd : cmd.type ≠ .emergencyStop) :
    RejectsCleanly t cmd c.shared ↔ c.shared.mem.refusesHalfDone cmd = false := by
  rw [RejectsCleanly, leaves_iff, keeps_dispatch hrun hcmd]

theorem rejectsCleanly_afterBoot : ∃ c, Reachable {} c ∧
    (RejectsCleanly .http { type := .fill } c.shared ↔
      c.shared.mem.refusesHalfDone { type := .fill } = false) := by
  have hrun : (device.run (Guard.any device) Script.boot (Boot.config {})).any
      (fun c => !c.shared.mem.aborted) = true := rfl
  obtain ⟨c, hsteps, hc⟩ := Machine.exists_of_run hrun
  have hrunning : c.shared.mem.aborted = false := by simpa using hc
  exact ⟨c, hsteps.weaken, rejectsCleanly_iff hsteps.weaken hrunning nofun⟩

/-- Without a calibration in the cache a fill is rejected, but the burette stays claimed. -/
theorem fill_refused_halfDone : ∃ c, Reachable { calCache := none } c ∧
    c.shared.mem.aborted = false ∧ ¬ RejectsCleanly .http { type := .fill } c.shared := by
  have hrun : (device.run (Guard.any device) Script.boot
      (Boot.config { calCache := none })).any (fun c => !c.shared.mem.aborted &&
        c.shared.mem.refusesHalfDone { type := .fill }) = true := rfl
  obtain ⟨c, hsteps, hc⟩ := Machine.exists_of_run hrun
  obtain ⟨hrunning, hhalf⟩ := (Bool.and_eq_true _ _).mp hc
  have hrunning : c.shared.mem.aborted = false := by simpa using hrunning
  refine ⟨c, hsteps.weaken, hrunning, fun hclean => ?_⟩
  have hfine : c.shared.mem.refusesHalfDone { type := .fill } = false :=
    (keeps_dispatch hrunning (by decide)).mp (leaves_iff.mp hclean)
  rw [hhalf] at hfine
  cases hfine

end Ecotiter
