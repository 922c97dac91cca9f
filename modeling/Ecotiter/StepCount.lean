import Mathlib.Algebra.GroupWithZero.Nat
import Ecotiter.MotorView

/-!
# The steps of a motion

What a motion by a number of steps hands to the peripheral, what it waits for, what it adds to the
position and what it publishes, read from the motor task's own history.
-/

namespace Ecotiter
open Interleaving Firmware

/-- The sizes of the chunks the peripheral accepted, latest first. -/
def sentChunks : List Event → List ℕ
  | .did _ (.rmtTransmit symbols) err _ :: past =>
    if err = .ok then symbols.length :: sentChunks past else sentChunks past
  | _ :: past => sentChunks past
  | [] => []

/-- The sizes of the chunks whose transmission was waited for to its end, latest first. The wait of
0 ms is that of an emergency stop. -/
def completedChunks : List Event → List ℕ
  | .did _ (.rmtTxWaitAllDone ms) err _ :: past =>
    if ms ≠ 0 ∧ err = .ok then (sentChunks past).headD 0 :: completedChunks past
    else completedChunks past
  | _ :: past => completedChunks past
  | [] => []

/-- The steps of the published results, latest first. -/
def publishedSteps : List Event → List ℤ
  | .did _ (.xQueueOverwrite r) _ _ :: past => r.stepsTaken :: publishedSteps past
  | _ :: past => publishedSteps past
  | [] => []

/-- The counts of a history and the position counter. -/
structure Tally where
  sent : List ℕ
  completed : List ℕ
  published : List ℤ
  position : ℤ

namespace Tally

/-- The peripheral has accepted a chunk. -/
def send (T : Tally) (n : ℕ) : Tally := { T with sent := n :: T.sent }

/-- The chunk accepted last has been transmitted. -/
def complete (T : Tally) : Tally := { T with completed := T.sent.headD 0 :: T.completed }

/-- The position counter has been moved on. -/
def count (T : Tally) (n : ℕ) : Tally := { T with position := toI32 (T.position + n) }

def publish (T : Tally) (steps : ℤ) : Tally := { T with published := steps :: T.published }

end Tally

def MotorView.tally (v : MotorView) : Tally :=
  ⟨sentChunks v.own, completedChunks v.own, publishedSteps v.own, v.position⟩

/-- The actions that leave the counts alone. -/
def Act.keepsTally : {β : Type} → Act β → Bool
  | _, .rmtTransmit _ | _, .xQueueOverwrite _ | _, .positionFetchAdd _ | _, .positionStore _ => false
  | _, .rmtTxWaitAllDone ms => ms = 0
  | _, _ => true

section
variable {α β : Type} {v : MotorView} {t : Tid} {x : Input × Mem}
  {D : Assumption motorView} {Q : α → MotorView → Prop}

theorem MotorView.tally_did {a : Act β} (h : a.keepsTally) : (v.did t a x).tally = v.tally := by
  have hmoves : a.movesPosition = false := by
    induction a with
    | positionFetchAdd n | positionStore n => cases h
    | _ => rfl
  have hposition : (v.did t a x).position = v.position := a.position_of_keeps hmoves _ _
  have hown : (v.did t a x).own = .did t a (a.run x.1 (v.mem x)).1 (v.mem x) :: v.own := rfl
  unfold MotorView.tally
  rw [hposition, hown]
  induction a with
  | rmtTxWaitAllDone ms =>
    have hms : ms = 0 := by simpa [Act.keepsTally] using h
    simp [sentChunks, completedChunks, publishedSteps, hms]
  | rmtTransmit symbols | xQueueOverwrite r => cases h
  | _ => rfl

theorem MotorView.tally_transmit (v : MotorView) (t : Tid) (x : Input × Mem)
    (symbols : List RmtSymbol) :
    (v.did t (.rmtTransmit symbols) x).tally =
      if x.1.espErr = .ok then v.tally.send symbols.length else v.tally := by
  simp only [Tally.send, MotorView.tally, MotorView.did, MotorView.mem, Act.run, sentChunks,
    completedChunks, publishedSteps]
  split <;> rfl

theorem MotorView.tally_wait (v : MotorView) (t : Tid) (x : Input × Mem) {ms : ℕ}
    (hms : ms ≠ 0) :
    (v.did t (.rmtTxWaitAllDone ms) x).tally =
      if x.1.espErr = .ok then v.tally.complete else v.tally := by
  simp only [Tally.complete, MotorView.tally, MotorView.did, MotorView.mem, Act.run, sentChunks,
    completedChunks, publishedSteps, hms, ne_eq, not_false_eq_true, true_and]
  split <;> rfl

theorem MotorView.tally_fetchAdd {n : ℕ} :
    (v.did t (.positionFetchAdd n) x).tally = v.tally.count n := rfl

theorem MotorView.tally_publish {r : SmResult} :
    (v.did t (.xQueueOverwrite r) x).tally = v.tally.publish r.stepsTaken := rfl

end

theorem toI32_add (x y : ℤ) : toI32 (toI32 x + y) = toI32 (x + y) := Int.bmod_add_bmod

theorem toI32_sub_self (x y : ℤ) : toI32 (toI32 (x + y) - x) = toI32 y := by
  unfold toI32
  rw [Int.bmod_sub_bmod, show x + y - x = y by omega]

theorem toI32_eq {x : ℤ} (hlow : -2 ^ 31 ≤ x) (hhigh : x < 2 ^ 31) : toI32 x = x :=
  Int.bmod_eq_of_le_mul_two (by omega) (by omega)

section Posts
variable {α β : Type} {v : MotorView} {D : Assumption motorView} {Q : α → MotorView → Prop}
  {T T' T'' : Tally} {done done' : List ℕ} {stopFlag : StopFlag}

/-- An action that leaves the counts alone. -/
theorem post_keeps {a : Act β} {next : β → Firmware α} (ha : a.keepsTally) (hv : v.tally = T)
    (h : ∀ b w, w.tally = T → (next b).Post D .motor Q w) :
    (Program.act a next).Post D .motor Q v := by
  refine Program.post_act.mpr fun _ x _ => h _ _ ?_
  exact (MotorView.tally_did ha).trans hv

theorem post_emergencyStop (hv : v.tally = T) :
    StepperMotor.emergencyStop.Post D .motor (fun _ w => w.tally = T) v := by
  refine post_keeps rfl hv fun _ v₁ hv₁ => post_keeps rfl hv₁ fun _ v₂ hv₂ => ?_
  exact Program.post_ret.mpr hv₂

theorem post_transmitChunk {symbols : List RmtSymbol} (hv : v.tally = T) :
    (StepperMotor.transmitChunk symbols stopFlag).Post D .motor
      (fun r w => w.tally = bif r.toBool then T.send symbols.length else T) v := by
  refine .iterate (fun _ w => w.tally = T) (fun retries w hw => ?_) hv
  refine post_keeps rfl hw fun stop v₁ hv₁ => ?_
  cases stop with
  | true =>
    change Program.Post D .motor _ (StepperMotor.emergencyStop >>= _) v₁
    refine Program.post_bind.mpr ((post_emergencyStop hv₁).mono fun _ v₂ hv₂ => ?_)
    exact Program.post_ret.mpr hv₂
  | false =>
    refine Program.post_act.mpr fun _ x _ => ?_
    have hsent := v₁.tally_transmit .motor x symbols
    change Program.Post D .motor _ (if x.1.espErr = .ok then _ else _) (v₁.did _ _ x)
    by_cases hok : x.1.espErr = .ok
    · rw [if_pos hok, hv₁] at hsent
      rw [if_pos hok]
      exact Program.post_ret.mpr hsent
    · rw [if_neg hok, hv₁] at hsent
      rw [if_neg hok]
      split
      · exact Program.post_ret.mpr hsent
      · exact post_keeps rfl hsent fun _ v₂ hv₂ => Program.post_ret.mpr hv₂

theorem post_awaitChunk (hv : v.tally = T) :
    (StepperMotor.awaitChunk stopFlag).Post D .motor
      (fun r w => w.tally = bif r.toBool then T.complete else T) v := by
  refine .iterate (fun _ w => w.tally = T) (fun _ w hw => ?_) hv
  refine Program.post_act.mpr fun _ x _ => ?_
  have hdone := w.tally_wait .motor x (show 100 ≠ 0 by decide)
  change Program.Post D .motor _ (if x.1.espErr = .ok then _ else _) (w.did _ _ x)
  by_cases hok : x.1.espErr = .ok
  · rw [if_pos hok, hw] at hdone
    rw [if_pos hok]
    exact Program.post_ret.mpr hdone
  · rw [if_neg hok, hw] at hdone
    rw [if_neg hok]
    split
    · exact Program.post_ret.mpr hdone
    · refine post_keeps rfl hdone fun stop v₁ hv₁ => ?_
      cases stop with
      | true =>
        change Program.Post D .motor _ (StepperMotor.emergencyStop >>= _) v₁
        refine Program.post_bind.mpr ((post_emergencyStop hv₁).mono fun _ v₂ hv₂ => ?_)
        exact Program.post_ret.mpr hv₂
      | false => exact Program.post_ret.mpr hv₁

/-- These chunks have been completed and added to the position, and nothing was published. -/
structure Tally.Advanced (done : List ℕ) (T T' : Tally) : Prop where
  completed : T'.completed = done ++ T.completed
  position : T'.position = toI32 (T.position + done.sum)
  published : T'.published = T.published

theorem Tally.Advanced.refl (h : toI32 T.position = T.position) : T.Advanced [] T where
  completed := rfl
  position := by simp [h]
  published := rfl

theorem Tally.Advanced.trans (h : T.Advanced done T') (h' : T'.Advanced done' T'') :
    T.Advanced (done' ++ done) T'' where
  completed := by rw [h'.completed, h.completed, List.append_assoc]
  position := by
    rw [h'.position, h.position, toI32_add, List.sum_append]
    congr 1
    omega
  published := h'.published.trans h.published

/-- One more chunk has been sent, completed and counted. -/
theorem Tally.Advanced.chunk (h : T.Advanced done T') (n : ℕ) :
    T.Advanced (n :: done) ((T'.send n).complete.count n) where
  completed := congrArg (n :: ·) h.completed
  position := by
    change toI32 (T'.position + n) = _
    rw [h.position, toI32_add, List.sum_cons]
    congr 1
    omega
  published := h.published

theorem post_moveStepsIntervals {intervals : List ℕ} (hv : v.tally = T)
    (hT : toI32 T.position = T.position) :
    (StepperMotor.moveStepsIntervals intervals stopFlag).Post D .motor
      (fun r w => ∃ done, T.Advanced done w.tally ∧ done.sum ≤ intervals.length ∧
        (r = .ok () → done.sum = intervals.length)) v := by
  have hpos : 0 < Config.rmtChunkSymbols := by decide
  let J : ℕ → MotorView → Prop := fun offset w =>
    ∃ done, T.Advanced done w.tally ∧ done.sum = offset ∧ offset ≤ intervals.length
  have hJ : J 0 v := ⟨[], by rw [hv]; exact .refl hT, rfl, Nat.zero_le _⟩
  refine .iterate J (fun offset w hw => ?_) hJ
  obtain ⟨done, hdone, rfl, hle⟩ := hw
  by_cases hend : intervals.length ≤ done.sum
  · rw [if_pos hend]
    exact Program.post_ret.mpr ⟨done, hdone, hle, fun _ => Nat.le_antisymm hle hend⟩
  · rw [if_neg hend]
    refine post_keeps rfl rfl fun stop v₁ hv₁ => ?_
    cases stop with
    | true =>
      change Program.Post D .motor _ (StepperMotor.emergencyStop >>= _) v₁
      refine Program.post_bind.mpr ((post_emergencyStop hv₁).mono fun _ v₂ hv₂ => ?_)
      exact Program.post_ret.mpr ⟨done, hv₂ ▸ hdone, hle, nofun⟩
    | false =>
      change Program.Post D .motor _ (StepperMotor.transmitChunk _ stopFlag >>= _) v₁
      refine Program.post_bind.mpr ((post_transmitChunk hv₁).mono fun r v₂ hv₂ => ?_)
      cases r with
      | error err => exact Program.post_ret.mpr ⟨done, hv₂ ▸ hdone, hle, nofun⟩
      | ok =>
        refine Program.post_bind.mpr ((post_awaitChunk hv₂).mono fun r v₃ hv₃ => ?_)
        cases r with
        | error err =>
          have hsent : T.Advanced done v₃.tally := by
            rw [show v₃.tally = _ from hv₃]
            exact ⟨hdone.completed, hdone.position, hdone.published⟩
          exact Program.post_ret.mpr ⟨done, hsent, hle, nofun⟩
        | ok =>
          refine Program.post_act.mpr fun _ x _ => Program.post_ret.mpr ?_
          have hchunk : (List.map stepSymbol ((intervals.drop done.sum).take
              (min (intervals.length - done.sum) Config.rmtChunkSymbols))).length =
                min (intervals.length - done.sum) Config.rmtChunkSymbols := by
            simp only [List.length_map, List.length_take, List.length_drop]
            omega
          have hcounted := hdone.chunk (min (intervals.length - done.sum) Config.rmtChunkSymbols)
          rw [hchunk] at hv₃
          refine ⟨_, ?_, List.sum_cons.trans (Nat.add_comm _ _), by omega⟩
          change Tally.Advanced _ T (v₃.tally.count _)
          rw [show v₃.tally = _ from hv₃]
          exact hcounted

/-- The steps completed are those that are no longer left. -/
theorem post_stepsLoop {intervalUs : ℕ} {steps : ℤ} (hv : v.tally = T)
    (hT : toI32 T.position = T.position) (hsteps : 0 ≤ steps) :
    (stepsLoop intervalUs steps).Post D .motor
      (fun _ w => ∃ done, T.Advanced done w.tally ∧ (done.sum : ℤ) ≤ steps) v := by
  let J : ℤ → MotorView → Prop := fun remaining w =>
    ∃ done, T.Advanced done w.tally ∧ (done.sum : ℤ) = steps - remaining ∧ 0 ≤ remaining
  have hJ : J steps v := ⟨[], by rw [hv]; exact .refl hT, by simp, hsteps⟩
  refine .iterate J (fun remaining w hw => ?_) hJ
  obtain ⟨done, hdone, hsum, hle⟩ := hw
  by_cases hend : remaining ≤ 0
  · rw [if_pos hend]
    exact Program.post_ret.mpr ⟨done, hdone, by omega⟩
  · rw [if_neg hend]
    refine post_keeps rfl rfl fun _ v₁ hv₁ => post_keeps rfl hv₁ fun stop v₂ hv₂ => ?_
    cases stop with
    | true => exact Program.post_ret.mpr ⟨done, hv₂ ▸ hdone, by omega⟩
    | false =>
      have hrange : toI32 w.tally.position = w.tally.position := by
        rw [hdone.position]
        exact Int.bmod_bmod
      change Program.Post D .motor _ (StepperMotor.moveStepsIntervals _ .stopFull >>= _) v₂
      refine Program.post_bind.mpr
        ((post_moveStepsIntervals hv₂ hrange).mono fun r v₃ hv₃ => ?_)
      obtain ⟨more, hmore, hless, hall⟩ := hv₃
      rw [List.length_replicate] at hless hall
      have hfailed : ∃ done, T.Advanced done v₃.tally ∧ (done.sum : ℤ) ≤ steps := by
        refine ⟨_, hdone.trans hmore, ?_⟩
        rw [List.sum_append]
        omega
      cases r with
      | error err =>
        cases err with
        | rmt => exact Program.post_ret.mpr hfailed
        | limitSwitchTriggered =>
          refine post_keeps rfl rfl fun _ v₄ hv₄ => Program.post_ret.mpr ?_
          change ∃ done, T.Advanced done v₄.tally ∧ (done.sum : ℤ) ≤ steps
          rw [hv₄]
          exact hfailed
      | ok =>
        refine Program.post_ret.mpr ⟨_, hdone.trans hmore, ?_, ?_⟩
        · rw [List.sum_append]
          have hsent := hall rfl
          omega
        · omega

theorem quotient_clampStepFreq (n speed : ℕ) :
    quotient n (clampStepFreq speed) = (pure (n / clampStepFreq speed) : Firmware ℕ) := by
  have hne : clampStepFreq speed ≠ 0 :=
    Nat.ne_of_gt (Nat.lt_of_lt_of_le (by decide) (clampStepFreq_bounds speed).1)
  exact if_neg hne

theorem post_executeMoveSteps {steps : ℤ} (hv : v.tally = T)
    (hT : toI32 T.position = T.position) (hsteps : 0 ≤ steps) :
    (executeMoveSteps steps).Post D .motor
      (fun _ w => ∃ done, T.Advanced done w.tally ∧ (done.sum : ℤ) ≤ steps) v := by
  unfold executeMoveSteps
  split
  · exact Program.post_ret.mpr ⟨[], by rw [hv]; exact .refl hT, hsteps⟩
  · refine post_keeps rfl hv fun dir v₁ hv₁ => post_keeps rfl hv₁ fun _ v₂ hv₂ => ?_
    refine post_keeps rfl hv₂ fun _ v₃ hv₃ => post_keeps rfl hv₃ fun speed v₄ hv₄ => ?_
    change Program.Post D .motor _ (quotient _ _ >>= _) v₄
    rw [quotient_clampStepFreq]
    exact post_stepsLoop hv₄ hT hsteps

theorem post_storeResult {type : SmResultType} {steps : ℤ} {speed : ℚ} {results : List ℚ}
    {count : ℕ} (hv : v.tally = T) :
    (storeResult type steps speed results count).Post D .motor
      (fun _ w => w.tally = T.publish steps) v := by
  refine Program.post_act.mpr fun _ x _ => ?_
  have hpublished : (v.did .motor (.xQueueOverwrite (smResult type steps speed results count))
      x).tally = T.publish steps := by
    rw [MotorView.tally_publish, hv]
    rfl
  refine post_keeps rfl hpublished fun _ v₁ hv₁ => post_keeps rfl hv₁ fun _ v₂ hv₂ => ?_
  exact Program.post_ret.mpr hv₂

/-- What is published is what has been completed, whatever ended the motion. -/
theorem post_handleMoveSteps {cmd : MotorCommand} (hv : v.tally = T)
    (hT : toI32 T.position = T.position) (hlow : 0 ≤ cmd.steps) (hhigh : cmd.steps < 2 ^ 31) :
    (MotorTask.handleMoveSteps cmd).Post D .motor
      (fun _ w => ∃ done T', T.Advanced done T' ∧ (done.sum : ℤ) ≤ cmd.steps ∧
        w.tally = T'.publish done.sum) v := by
  refine Program.post_act.mpr fun _ x _ => ?_
  have hstart : ((Act.positionLoad).run x.1 (v.mem x)).1 = T.position := by
    rw [← hv]
    rfl
  rw [show (motorView.exec .motor Act.positionLoad x v).1 = T.position from hstart]
  have hv₁ : (v.did .motor .positionLoad x).tally = T := (MotorView.tally_did rfl).trans hv
  change Program.Post D .motor _ (executeMoveSteps cmd.steps >>= _) _
  refine Program.post_bind.mpr ((post_executeMoveSteps hv₁ hT hlow).mono fun _ v₂ hv₂ => ?_)
  obtain ⟨done, hdone, hless⟩ := hv₂
  refine Program.post_act.mpr fun _ x₂ _ => ?_
  have hv₃ : (v₂.did .motor .positionLoad x₂).tally = v₂.tally := MotorView.tally_did rfl
  have htaken : toI32 (v₂.tally.position - T.position) = done.sum := by
    rw [hdone.position, toI32_sub_self]
    exact toI32_eq (by omega) (by omega)
  let taken := toI32 (v₂.tally.position - T.position)
  change Program.Post D .motor _
    (storeResult .none (if taken < 0 then toI32 (-taken) else taken) 0 [] 0) _
  have hnonneg : ¬ taken < 0 := by
    change ¬ toI32 (v₂.tally.position - T.position) < 0
    omega
  rw [if_neg hnonneg]
  refine (post_storeResult hv₃).mono fun _ w hw => ⟨done, v₂.tally, hdone, hless, ?_⟩
  rw [hw, ← htaken]

end Posts
/-- The attempts to hand a chunk to the peripheral. -/
def transmits : List Event → ℕ
  | .did _ (.rmtTransmit _) _ _ :: past => transmits past + 1
  | _ :: past => transmits past
  | [] => 0

/-- The waits for the end of a transmission. -/
def waits : List Event → ℕ
  | .did _ (.rmtTxWaitAllDone _) _ _ :: past => waits past + 1
  | _ :: past => waits past
  | [] => 0

/-- The answers of `rmt_transmit`: fewer than ten failures in a row, each of which may be tried
again. -/
structure Recovers (tx : ℕ → EspErr) : Prop where
  repeatable : ∀ n, tx n = .ok ∨ tx n = .invalidState
  soon : ∀ n, ∃ i < 10, tx (n + i) = .ok

/-- The answers of `rmt_tx_wait_all_done`: any number of timeouts, but not forever. -/
structure Finishes (wait : ℕ → EspErr) : Prop where
  repeatable : ∀ n, wait n = .ok ∨ wait n = .timeout
  eventually : ∀ n, ∃ i, wait (n + i) = .ok

/-- No stop flag is seen, and the peripheral answers as given. -/
def undeterred (tx wait : ℕ → EspErr) : Assumption motorView where
  allows _ _ a x v :=
    match a with
    | .poll _ flag => x.2.flag flag = false
    | .rmtTransmit _ => x.1.espErr = tx (transmits v.own)
    | .rmtTxWaitAllDone _ => x.1.espErr = wait (waits v.own)
    | _ => True
  allowsEnv _ _ := False

section Undeterred
variable {α β : Type} {v : MotorView} {tx wait : ℕ → EspErr} {Q : α → MotorView → Prop}
  {T T' : Tally} {chunks : List ℕ} {stopFlag : StopFlag}

theorem undeterred_can (t : Tid) (a : Act β) (v : MotorView) :
    ∃ x, (undeterred tx wait).allows t a x v := by
  let m : Mem := { full := { level := false }, empty := { level := false } }
  induction a with
  | poll site flag => exact ⟨(.nothing, m), by cases flag <;> rfl⟩
  | rmtTransmit symbols => exact ⟨(.err (tx (transmits v.own)), m), rfl⟩
  | rmtTxWaitAllDone ms => exact ⟨(.err (wait (waits v.own)), m), rfl⟩
  | _ => exact ⟨(.nothing, m), trivial⟩

theorem always_step {a : Act β} {next : β → Firmware α}
    (h : ∀ x, (undeterred tx wait).allows .motor a x v →
      (next (a.run x.1 (v.mem x)).1).Always (undeterred tx wait) .motor Q (v.did .motor a x)) :
    (Program.act a next).Always (undeterred tx wait) .motor Q v :=
  .act rfl (undeterred_can .motor a v) h

/-- A look at the stop flag. -/
theorem always_poll {site : PollSite} {next : Bool → Firmware α}
    (h : ∀ x, (next false).Always (undeterred tx wait) .motor Q
      (v.did .motor (.poll site stopFlag) x)) :
    (Program.act (.poll site stopFlag) next).Always (undeterred tx wait) .motor Q v := by
  refine always_step fun x hx => ?_
  have hclear : ((Act.poll site stopFlag).run x.1 (v.mem x)).1 = false := by
    cases stopFlag <;> exact hx
  rw [hclear]
  exact h x

/-- An action that leaves the counts alone. -/
theorem always_keeps {a : Act β} {next : β → Firmware α} (ha : a.keepsTally) (hv : v.tally = T)
    (h : ∀ b w, w.tally = T → (next b).Always (undeterred tx wait) .motor Q w) :
    (Program.act a next).Always (undeterred tx wait) .motor Q v :=
  always_step fun _ _ => h _ _ ((MotorView.tally_did ha).trans hv)

theorem always_transmitChunk {symbols : List RmtSymbol} (htx : Recovers tx) (hv : v.tally = T) :
    (StepperMotor.transmitChunk symbols stopFlag).Always (undeterred tx wait) .motor
      (fun r w => r = .ok () ∧ w.tally = T.send symbols.length) v := by
  obtain ⟨i, hi, hok⟩ := htx.soon (transmits v.own)
  let J : ℕ → MotorView → Prop := fun retries w =>
    w.tally = T ∧ transmits w.own = transmits v.own + retries ∧ retries ≤ i
  refine .iterate J (fun retries _ => i - retries) (fun _ _ _ => rfl) (fun retries w hw => ?_)
    ⟨hv, rfl, Nat.zero_le i⟩
  obtain ⟨htally, hcount, hle⟩ := hw
  refine always_poll fun x₁ => always_step fun x₂ hx₂ => ?_
  have hpolled : (w.did .motor (.poll .transmit stopFlag) x₁).tally = T :=
    (MotorView.tally_did rfl).trans htally
  have hanswer : x₂.1.espErr = tx (transmits v.own + retries) := by
    rw [← hcount]
    exact hx₂
  have hsent := (w.did .motor (.poll .transmit stopFlag) x₁).tally_transmit .motor x₂ symbols
  rw [hpolled] at hsent
  change Program.Always (undeterred tx wait) .motor _ (if x₂.1.espErr = .ok then _ else _) _
  by_cases herr : x₂.1.espErr = .ok
  · rw [if_pos herr] at hsent ⊢
    exact .ret ⟨rfl, hsent⟩
  · rw [if_neg herr] at hsent ⊢
    have hne : retries ≠ i := by
      rintro rfl
      exact herr (hanswer.trans hok)
    have hretry : ¬ (x₂.1.espErr ≠ .invalidState ∨ StepperMotor.maxRetries ≤ retries) := by
      obtain h | h := htx.repeatable (transmits v.own + retries)
      · exact absurd (hanswer.trans h) herr
      · rintro (hother | hmany)
        · exact hother (hanswer.trans h)
        · have hmax : StepperMotor.maxRetries = 10 := rfl
          omega
    change Program.Always (undeterred tx wait) .motor _
      (if x₂.1.espErr ≠ .invalidState ∨ StepperMotor.maxRetries ≤ retries then _ else _) _
    rw [if_neg hretry]
    refine always_step fun x₃ _ => .ret ⟨⟨(MotorView.tally_did rfl).trans hsent, ?_, ?_⟩, ?_⟩
    · change transmits w.own + 1 = _
      omega
    · omega
    · omega

theorem always_awaitChunk (hwait : Finishes wait) (hv : v.tally = T) :
    (StepperMotor.awaitChunk stopFlag).Always (undeterred tx wait) .motor
      (fun r w => r = .ok () ∧ w.tally = T.complete) v := by
  obtain ⟨i, hok⟩ := hwait.eventually (waits v.own)
  let J : Unit → MotorView → Prop := fun _ w =>
    w.tally = T ∧ waits w.own ≤ waits v.own + i
  refine .iterate J (fun _ w => waits v.own + i - waits w.own) (fun _ _ _ => rfl)
    (fun _ w hw => ?_) ⟨hv, Nat.le_add_right _ i⟩
  obtain ⟨htally, hle⟩ := hw
  refine always_step fun x₁ hx₁ => ?_
  have hanswer : x₁.1.espErr = wait (waits w.own) := hx₁
  have hdone := w.tally_wait .motor x₁ (show 100 ≠ 0 by decide)
  rw [htally] at hdone
  change Program.Always (undeterred tx wait) .motor _ (if x₁.1.espErr = .ok then _ else _) _
  by_cases herr : x₁.1.espErr = .ok
  · rw [if_pos herr] at hdone ⊢
    exact .ret ⟨rfl, hdone⟩
  · rw [if_neg herr] at hdone ⊢
    have hne : waits w.own ≠ waits v.own + i := by
      intro heq
      rw [heq] at hanswer
      exact herr (hanswer.trans hok)
    have htimeout : ¬ x₁.1.espErr ≠ .timeout := by
      obtain h | h := hwait.repeatable (waits w.own)
      · exact absurd (hanswer.trans h) herr
      · rw [hanswer, h]
        decide
    change Program.Always (undeterred tx wait) .motor _ (if x₁.1.espErr ≠ .timeout then _ else _) _
    rw [if_neg htimeout]
    refine always_poll fun x₂ => .ret ⟨⟨(MotorView.tally_did rfl).trans hdone, ?_⟩, ?_⟩
    · change waits w.own + 1 ≤ _
      omega
    · change _ - (waits w.own + 1) < _
      omega

/-- These chunks were sent, each of a size the peripheral takes, and added to the position. -/
structure Tally.Made (chunks : List ℕ) (T T' : Tally) : Prop where
  sent : T'.sent = chunks ++ T.sent
  sizes : ∀ n ∈ chunks, 1 ≤ n ∧ n ≤ Config.rmtChunkSymbols
  position : T'.position = toI32 (T.position + chunks.sum)

theorem Tally.Made.refl (h : toI32 T.position = T.position) : T.Made [] T where
  sent := rfl
  sizes := nofun
  position := by simp [h]

theorem Tally.Made.chunk (h : T.Made chunks T') {n : ℕ}
    (hn : 1 ≤ n ∧ n ≤ Config.rmtChunkSymbols) :
    T.Made (n :: chunks) ((T'.send n).complete.count n) where
  sent := congrArg (n :: ·) h.sent
  sizes k hk := by
    obtain rfl | hk := List.mem_cons.mp hk
    · exact hn
    · exact h.sizes k hk
  position := by
    change toI32 (T'.position + n) = _
    rw [h.position, toI32_add, List.sum_cons]
    congr 1
    omega

theorem always_moveStepsIntervals {intervals : List ℕ} (htx : Recovers tx)
    (hwait : Finishes wait) (hmade : T.Made chunks v.tally) :
    (StepperMotor.moveStepsIntervals intervals stopFlag).Always (undeterred tx wait) .motor
      (fun r w => r = .ok () ∧ ∃ chunks', T.Made chunks' w.tally ∧
        chunks'.sum = chunks.sum + intervals.length) v := by
  have hpos : 0 < Config.rmtChunkSymbols := by decide
  let J : ℕ → MotorView → Prop := fun offset w =>
    offset ≤ intervals.length ∧
      ∃ chunks', T.Made chunks' w.tally ∧ chunks'.sum = chunks.sum + offset
  refine .iterate J (fun offset _ => intervals.length - offset) (fun _ _ _ => rfl)
    (fun offset w hw => ?_) ⟨Nat.zero_le _, chunks, hmade, rfl⟩
  obtain ⟨hle, chunks', hmade', hsum⟩ := hw
  by_cases hend : intervals.length ≤ offset
  · have heq : offset = intervals.length := by omega
    rw [if_pos hend]
    exact .ret ⟨rfl, chunks', hmade', heq ▸ hsum⟩
  · rw [if_neg hend]
    refine always_poll fun x => ?_
    have hpolled : (w.did .motor (.poll .chunk stopFlag) x).tally = w.tally :=
      MotorView.tally_did rfl
    change Program.Always (undeterred tx wait) .motor _
      (StepperMotor.transmitChunk _ stopFlag >>= _) _
    refine .bind ((always_transmitChunk htx hpolled).mono fun r w₁ hr => ?_)
    obtain ⟨rfl, hsent⟩ := hr
    refine .bind ((always_awaitChunk hwait hsent).mono fun r w₂ hr => ?_)
    obtain ⟨rfl, hdone⟩ := hr
    have hchunk : (List.map stepSymbol ((intervals.drop offset).take
        (min (intervals.length - offset) Config.rmtChunkSymbols))).length =
          min (intervals.length - offset) Config.rmtChunkSymbols := by
      simp only [List.length_map, List.length_take, List.length_drop]
      omega
    rw [hchunk] at hdone
    refine always_step fun x' _ => .ret ⟨⟨by omega, ?_⟩, by omega⟩
    have hmade'' := hmade'.chunk
      (show 1 ≤ min (intervals.length - offset) Config.rmtChunkSymbols ∧ _ from
        ⟨by omega, Nat.min_le_right _ _⟩)
    rw [← hdone] at hmade''
    refine ⟨_, hmade'', ?_⟩
    rw [List.sum_cons]
    omega

theorem always_stepsLoop {intervalUs : ℕ} {steps : ℤ} (htx : Recovers tx) (hwait : Finishes wait)
    (hv : toI32 v.tally.position = v.tally.position) (hsteps : 0 ≤ steps) :
    (stepsLoop intervalUs steps).Always (undeterred tx wait) .motor
      (fun _ w => ∃ chunks, v.tally.Made chunks w.tally ∧ (chunks.sum : ℤ) = steps) v := by
  have hpos : 0 < Config.rmtChunkSymbols := by decide
  let J : ℤ → MotorView → Prop := fun remaining w =>
    0 ≤ remaining ∧ ∃ chunks, v.tally.Made chunks w.tally ∧ (chunks.sum : ℤ) = steps - remaining
  refine .iterate J (fun remaining _ => remaining.toNat) (fun _ _ _ => rfl)
    (fun remaining w hw => ?_) ⟨hsteps, [], .refl hv, by simp⟩
  obtain ⟨hle, chunks, hmade, hsum⟩ := hw
  by_cases hend : remaining ≤ 0
  · have hzero : remaining = 0 := by omega
    rw [if_pos hend]
    exact .ret ⟨chunks, hmade, by omega⟩
  · rw [if_neg hend]
    refine always_keeps rfl rfl fun _ w₁ hw₁ => always_poll fun x => ?_
    have hpolled : (w₁.did .motor (.poll .loopHead .stopFull) x).tally = w.tally :=
      (MotorView.tally_did rfl).trans hw₁
    rw [← hpolled] at hmade
    change Program.Always (undeterred tx wait) .motor _
      (StepperMotor.moveStepsIntervals _ .stopFull >>= _) _
    refine .bind ((always_moveStepsIntervals htx hwait hmade).mono fun r w₂ hr => ?_)
    obtain ⟨rfl, chunks', hmade', hsum'⟩ := hr
    rw [List.length_replicate] at hsum'
    exact .ret ⟨⟨by omega, chunks', hmade', by omega⟩, by omega⟩

theorem always_executeMoveSteps {steps : ℤ} (htx : Recovers tx) (hwait : Finishes wait)
    (hv : toI32 v.tally.position = v.tally.position) (hsteps : 0 < steps) :
    (executeMoveSteps steps).Always (undeterred tx wait) .motor
      (fun _ w => ∃ chunks, v.tally.Made chunks w.tally ∧ (chunks.sum : ℤ) = steps) v := by
  unfold executeMoveSteps
  rw [if_neg (by omega)]
  refine always_keeps rfl rfl fun dir v₁ hv₁ => always_keeps rfl hv₁ fun _ v₂ hv₂ => ?_
  refine always_keeps rfl hv₂ fun _ v₃ hv₃ => always_keeps rfl hv₃ fun speed v₄ hv₄ => ?_
  change Program.Always (undeterred tx wait) .motor _ (quotient _ _ >>= _) v₄
  rw [quotient_clampStepFreq, ← hv₄]
  rw [← hv₄] at hv
  exact always_stepsLoop htx hwait hv (by omega)

end Undeterred

/-- Undeterred, a motion by a number of steps comes to its end and has sent exactly these steps, in
chunks the peripheral takes; however it ends, the position has been moved on by the completed chunks,
which are not more than the steps asked for, and they are what is published. The position is a
counter of 32 bits. -/
theorem handleMoveSteps_exact {cmd : MotorCommand} {v : MotorView} (hlow : 0 < cmd.steps)
    (hhigh : cmd.steps < 2 ^ 31) (hv : toI32 v.position = v.position) :
    (∀ tx wait, Recovers tx → Finishes wait →
      (executeMoveSteps cmd.steps).Always (undeterred tx wait) .motor
        (fun _ w => ∃ chunks, sentChunks w.own = chunks ++ sentChunks v.own ∧
          (∀ n ∈ chunks, 1 ≤ n ∧ n ≤ 128) ∧ (chunks.sum : ℤ) = cmd.steps ∧
          w.position = toI32 (v.position + cmd.steps)) v) ∧
      (MotorTask.handleMoveSteps cmd).Post (.any motorView) .motor
        (fun _ w => ∃ done, completedChunks w.own = done ++ completedChunks v.own ∧
          (done.sum : ℤ) ≤ cmd.steps ∧ w.position = toI32 (v.position + done.sum) ∧
          publishedSteps w.own = (done.sum : ℤ) :: publishedSteps v.own) v := by
  constructor
  · intro tx wait htx hwait
    refine (always_executeMoveSteps htx hwait hv hlow).mono fun _ w hw => ?_
    obtain ⟨chunks, hmade, hsum⟩ := hw
    refine ⟨chunks, hmade.sent, hmade.sizes, hsum, ?_⟩
    have hposition : w.position = toI32 (v.position + chunks.sum) := hmade.position
    rw [hposition, hsum]
  · refine (post_handleMoveSteps rfl hv (Int.le_of_lt hlow) hhigh).mono fun _ w hw => ?_
    obtain ⟨done, T', hdone, hless, hpublished⟩ := hw
    have hcompleted : completedChunks w.own = T'.completed := congrArg Tally.completed hpublished
    have hposition : w.position = T'.position := congrArg Tally.position hpublished
    have hsteps : publishedSteps w.own = (done.sum : ℤ) :: T'.published :=
      congrArg Tally.published hpublished
    refine ⟨done, hcompleted.trans hdone.completed, hless, hposition.trans hdone.position, ?_⟩
    rw [hsteps, hdone.published]
    rfl

/-- Three hundred steps from the home position. -/
theorem handleMoveSteps_exact_threeHundred :
    (∀ tx wait, Recovers tx → Finishes wait →
      (executeMoveSteps 300).Always (undeterred tx wait) .motor
        (fun _ w => ∃ chunks, sentChunks w.own = chunks ++ [] ∧
          (∀ n ∈ chunks, 1 ≤ n ∧ n ≤ 128) ∧ (chunks.sum : ℤ) = 300 ∧
          w.position = toI32 (0 + 300)) ⟨0, []⟩) ∧
      (MotorTask.handleMoveSteps { type := .moveSteps, steps := 300 }).Post (.any motorView) .motor
        (fun _ w => ∃ done, completedChunks w.own = done ++ [] ∧ (done.sum : ℤ) ≤ 300 ∧
          w.position = toI32 (0 + done.sum) ∧ publishedSteps w.own = [(done.sum : ℤ)]) ⟨0, []⟩ :=
  @handleMoveSteps_exact { type := .moveSteps, steps := 300 } ⟨0, []⟩ (by decide) (by decide)
    (by decide)

/-- One step from the highest position. -/
theorem position_wraps :
    ¬ (executeMoveSteps 1).Always (undeterred (fun _ => .ok) fun _ => .ok) .motor
      (fun _ w => w.position = (2 ^ 31 - 1) + 1) ⟨2 ^ 31 - 1, []⟩ := by
  intro h
  have htx : Recovers fun _ => .ok := ⟨fun _ => .inl rfl, fun _ => ⟨0, by decide, rfl⟩⟩
  have hwait : Finishes fun _ => .ok := ⟨fun _ => .inl rfl, fun _ => ⟨0, rfl⟩⟩
  let v : MotorView := ⟨2 ^ 31 - 1, []⟩
  have hrange : toI32 v.tally.position = v.tally.position := by decide
  have hmade := always_executeMoveSteps htx hwait hrange Int.one_pos
  obtain ⟨⟨_, w, hends⟩, hpost⟩ := hmade.total
  obtain ⟨chunks, hchunks, hsum⟩ := hpost _ w hends
  have hposition : w.position = toI32 ((2 ^ 31 - 1) + chunks.sum) := hchunks.position
  rw [hsum, h.post _ w hends] at hposition
  exact absurd hposition (by decide)

/-- What is published in a run of the device, whatever the other tasks do. -/
theorem Reachable.handleMoveSteps {b : Boot} {c d : Config Act Tid World} {cmd : MotorCommand}
    {k : Unit → Firmware Unit} (hc : Reachable b c) (h : Steps (.any device) c d)
    (hp : c.thread .motor = MotorTask.handleMoveSteps cmd >>= k) (hlow : 0 ≤ cmd.steps)
    (hhigh : cmd.steps < 2 ^ 31) (hv : toI32 c.shared.mem.position = c.shared.mem.position) :
    (∃ q : Firmware Unit, d.thread .motor = q >>= k) ∨ ∃ e, Reachable b e ∧
      e.thread .motor = k () ∧ ∃ done T', c.shared.motorView.tally.Advanced done T' ∧
        (done.sum : ℤ) ≤ cmd.steps ∧ e.shared.motorView.tally = T'.publish done.sum := by
  obtain hinside | ⟨_, e, he, hk, hends⟩ := hc.ends_view h hp
  · exact .inl hinside
  · have hposition : toI32 c.shared.motorView.tally.position = c.shared.motorView.tally.position :=
      hv
    exact .inr ⟨e, he, hk, post_handleMoveSteps rfl hposition hlow hhigh _ _ hends⟩

end Ecotiter
