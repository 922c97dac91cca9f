import Ecotiter.MotorActions
import Ecotiter.ProgramTraces
import Ecotiter.RequestCommands

/-!
# The motions of a rinse

What an observer sees of `run_rinse_sm` are its motions, each of which begins with the direction
pin, and the results it publishes. The machine enters `Filling` with its first fill and does not
leave it again, so every later cycle is an empty without a fill.
-/

namespace Ecotiter
open Interleaving Firmware

inductive RinseEvent
  | motion (dir : Direction)
  | result (type : SmResultType)
  deriving DecidableEq, Repr

def Act.rinseEvent : {β : Type} → Act β → Option RinseEvent
  | _, .gpioSetLevel .dir level => some (.motion (if level then .liqIn else .liqOut))
  | _, .xQueueOverwrite r => some (.result r.type)
  | _, _ => none

/-- The motor commands a client enqueues. -/
def Act.sentCommand : {β : Type} → Act β → Option MotorCommand
  | _, .xQueueSend cmd => some cmd
  | _, _ => none

section Strokes
variable {l : List RinseEvent}

theorem Act.rinseEvent_of_ofChunk {β : Type} (a : Act β) (h : a.ofChunk) : a.rinseEvent = none := by
  induction a with
  | gpioSetLevel pin level => cases pin <;> first | rfl | cases h
  | _ => first | rfl | cases h

/-- Settling the valve shows nothing. -/
theorem trace_settleValve {stopFlag : StopFlag} :
    (settleValve stopFlag).Trace Act.rinseEvent l () ↔ l = [] := by
  constructor
  · intro h
    have honly : (settleValve stopFlag).Only fun a => a.rinseEvent.isNone := by
      refine .iterate fun i => ?_
      split
      · exact trivial
      refine .andThen rfl fun seen => ?_
      cases seen with
      | true => exact trivial
      | false => exact .andThen rfl fun _ => trivial
    exact honly.trace_nil (fun a ha => Option.isNone_iff_eq_none.mp ha) h
  · rintro rfl
    refine Program.trace_loop.mpr ⟨.inr (), [], [], rfl, ?_, .ret ()⟩
    exact (Program.trace_silent rfl).mpr ⟨true, .ret _⟩

/-- So do the chunks of a motion. -/
theorem trace_endstopLoop {intervalUs : ℕ} {stopFlag : StopFlag} :
    (endstopLoop intervalUs stopFlag).Trace Act.rinseEvent l () ↔ l = [] := by
  constructor
  · intro h
    exact only_endstopLoop.trace_nil Act.rinseEvent_of_ofChunk h
  · rintro rfl
    refine Program.trace_loop.mpr ⟨.inr (), [], [], rfl, ?_, .ret ()⟩
    exact (Program.trace_silent rfl).mpr ⟨true, .ret _⟩

theorem trace_quotient {a b : ℕ} {f : ℕ → Firmware Unit} :
    (quotient a b >>= f).Trace Act.rinseEvent l () ↔ (f (a / b)).Trace Act.rinseEvent l () := by
  by_cases hb : b = 0
  · subst hb
    rw [Nat.div_zero]
    exact Program.trace_skip rfl
  · simp only [quotient, if_neg hb]
    exact Iff.rfl

theorem trace_stop : StepperMotor.emergencyStop.Trace Act.rinseEvent l () ↔ l = [] := by
  constructor
  · intro h
    exact only_emergencyStop.trace_nil Act.rinseEvent_of_ofChunk h
  · rintro rfl
    exact (Program.trace_skip rfl).mpr ((Program.trace_silent rfl).mpr ⟨.ok, .ret ()⟩)

/-- A motion shows its direction. -/
theorem trace_moveToEndstop {dir : Direction} {speedHz : ℕ} {stopFlag : StopFlag} :
    (moveToEndstop dir speedHz stopFlag).Trace Act.rinseEvent l () ↔ l = [.motion dir] := by
  have hrest : ∀ {l : List RinseEvent}, (do
      vTaskDelay Config.dirSetupMs
      let intervalUs ← quotient 1000000 speedHz
      storeStop stopFlag false
      endstopLoop intervalUs stopFlag
      StepperMotor.emergencyStop
      StepperMotor.enable : Firmware Unit).Trace Act.rinseEvent l () ↔ l = [] := by
    intro l
    refine (Program.trace_skip rfl).trans ?_
    refine trace_quotient.trans ?_
    refine (Program.trace_skip rfl).trans ?_
    refine (Program.trace_bind_of fun _ => trace_endstopLoop).trans ?_
    simp only [List.nil_append, exists_eq_left']
    refine (Program.trace_bind_of fun _ => trace_stop).trans ?_
    simp only [List.nil_append, exists_eq_left']
    exact (Program.trace_skip rfl).trans (Program.trace_ret.trans (and_iff_right rfl))
  refine Program.trace_act.trans ?_
  constructor
  · rintro ⟨b, l', rfl, h⟩
    rw [hrest.mp h]
    cases dir <;> rfl
  · rintro rfl
    refine ⟨(), [], ?_, hrest.mpr rfl⟩
    cases dir <;> rfl

theorem trace_moveFill {speedHz : ℕ} :
    (moveFill speedHz).Trace Act.rinseEvent l () ↔ l = [.motion .liqIn] := by
  refine (Program.trace_skip rfl).trans ?_
  refine (Program.trace_skip rfl).trans ?_
  refine (Program.trace_bind_of fun _ => trace_settleValve).trans ?_
  simp only [List.nil_append, exists_eq_left']
  refine (Program.trace_skip rfl).trans ?_
  exact trace_moveToEndstop

theorem trace_moveEmpty {speedHz : ℕ} :
    (moveEmpty speedHz).Trace Act.rinseEvent l () ↔ l = [.motion .liqOut] := by
  refine (Program.trace_skip rfl).trans ?_
  refine (Program.trace_skip rfl).trans ?_
  refine (Program.trace_bind_of fun _ => trace_settleValve).trans ?_
  simp only [List.nil_append, exists_eq_left']
  refine (Program.trace_skip rfl).trans ?_
  exact trace_moveToEndstop

end Strokes
section Loop
variable {speedHz : ℕ} {sm : RinseSm} {l : List RinseEvent}

theorem trace_storeResult {type : SmResultType} :
    (storeResult type 0 0 [] 0).Trace Act.rinseEvent l () ↔ l = [.result type] := by
  refine Program.trace_act.trans ?_
  have hrest : ∀ l : List RinseEvent, (do
      wsBroadcast (.motorComplete type 0)
      store .buretteState .idle : Firmware Unit).Trace Act.rinseEvent l () ↔ l = [] := by
    intro l
    exact (Program.trace_skip rfl).trans ((Program.trace_skip rfl).trans
      (Program.trace_ret.trans (and_iff_right rfl)))
  constructor
  · rintro ⟨_, l', rfl, h⟩
    rw [(hrest l').mp h]
    rfl
  · rintro rfl
    exact ⟨(), [], rfl, (hrest []).mpr rfl⟩

/-- One turn of the loop. -/
def rinseTurn (speedHz : ℕ) (sm : RinseSm) : Firmware (RinseSm ⊕ Unit) := do
  if sm.isComplete then return .inr ()
  else
    taskWdtReset
    let _ ← load .volumeMl
    let (action, sm) := sm.onMotorComplete
    match action with
    | .fillToLimit =>
      moveFill speedHz
      return .inl sm
    | .emptyToLimit =>
      moveEmpty speedHz
      return .inl sm
    | .complete =>
      storeResult .rinseComplete 0 0 [] 0
      return .inr ()
    | .error =>
      storeResult .error 0 0 [] 0
      return .inr ()

theorem rinseLoop_eq : rinseLoop speedHz sm = .iterate (rinseTurn speedHz) sm := rfl

/-- What an action of the machine shows. -/
def RinseAction.event : RinseAction → RinseEvent
  | .fillToLimit => .motion .liqIn
  | .emptyToLimit => .motion .liqOut
  | .complete => .result .rinseComplete
  | .error => .result .error

/-- How the loop goes on after an action. -/
def RinseAction.next : RinseAction → RinseSm → RinseSm ⊕ Unit
  | .fillToLimit, sm | .emptyToLimit, sm => .inl sm
  | .complete, _ | .error, _ => .inr ()

theorem trace_rinseTurn (hphase : sm.isComplete = false) {r : RinseSm ⊕ Unit} :
    (rinseTurn speedHz sm).Trace Act.rinseEvent l r ↔
      l = [sm.onMotorComplete.1.event] ∧
        r = sm.onMotorComplete.1.next sm.onMotorComplete.2 := by
  have hshows : ∀ {p : Firmware Unit} {e : RinseEvent} {x : RinseSm ⊕ Unit},
      (∀ l, p.Trace Act.rinseEvent l () ↔ l = [e]) →
      ((do p; return x : Firmware (RinseSm ⊕ Unit)).Trace Act.rinseEvent l r ↔
        l = [e] ∧ r = x) := by
    intro p e x hp
    refine (Program.trace_bind_of hp).trans ?_
    simp only [Program.trace_pure]
    grind
  simp only [rinseTurn, hphase, Bool.false_eq_true, if_false]
  refine (Program.trace_skip rfl).trans ((Program.trace_silent rfl).trans ?_)
  simp only [Program.bind, exists_const]
  generalize sm.onMotorComplete = step
  obtain ⟨action, sm'⟩ := step
  cases action with
  | fillToLimit => exact hshows fun _ => trace_moveFill
  | emptyToLimit => exact hshows fun _ => trace_moveEmpty
  | complete => exact hshows fun _ => trace_storeResult
  | error => exact hshows fun _ => trace_storeResult

/-- The motions of the cycles after the first fill of the loop. -/
def emptiesOnly (n : ℕ) : List Direction := .replicate n .liqOut

/-- The machine when it has made its first fill and `k - 1` empties since. -/
def RinseSm.repeating (c k : ℕ) : RinseSm := ⟨c, k, .filling, true⟩

theorem trace_rinseLoop (hphase : sm.isComplete = false) :
    (rinseLoop speedHz sm).Trace Act.rinseEvent l () ↔
      ∃ l', l = sm.onMotorComplete.1.event :: l' ∧
        (Sum.elim (rinseLoop speedHz) .ret (sm.onMotorComplete.1.next
          sm.onMotorComplete.2)).Trace Act.rinseEvent l' () := by
  refine Program.trace_loop.trans ?_
  change (∃ r l₁ l₂, l = l₁ ++ l₂ ∧ (rinseTurn speedHz sm).Trace Act.rinseEvent l₁ r ∧
    (Sum.elim (rinseLoop speedHz) .ret r).Trace Act.rinseEvent l₂ ()) ↔ _
  simp only [trace_rinseTurn hphase]
  constructor
  · rintro ⟨r, l₁, l', rfl, ⟨rfl, rfl⟩, h⟩
    exact ⟨l', rfl, h⟩
  · rintro ⟨l', rfl, h⟩
    exact ⟨_, _, l', rfl, ⟨rfl, rfl⟩, h⟩

theorem RinseSm.onMotorComplete_repeating {c k : ℕ} (hk : k < 255) :
    (repeating c k).onMotorComplete =
      if c < k + 1 then (.complete, ⟨c, k + 1, .done, false⟩)
      else (.emptyToLimit, repeating c (k + 1)) := by
  have hwrap : toU8 (k + 1) = k + 1 := Nat.mod_eq_of_lt (by omega)
  simp [repeating, onMotorComplete, hwrap]

/-- From there it makes the other empties. -/
theorem trace_repeating {c : ℕ} (hc : c < 255) (d : ℕ) :
    ∀ {k : ℕ} {l : List RinseEvent}, 1 ≤ k → k + d = max c 1 →
    ((rinseLoop speedHz (.repeating c k)).Trace Act.rinseEvent l () ↔
      l = (emptiesOnly d).map .motion ++ [.result .rinseComplete]) := by
  induction d with
  | zero =>
    intro k l hk hkd
    have hlast : c < k + 1 := by omega
    rw [trace_rinseLoop rfl, RinseSm.onMotorComplete_repeating (by omega), if_pos hlast]
    simp [RinseAction.next, RinseAction.event, emptiesOnly]
  | succ d ih =>
    intro k l hk hkd
    have hmore : ¬ c < k + 1 := by omega
    rw [trace_rinseLoop rfl, RinseSm.onMotorComplete_repeating (by omega), if_neg hmore]
    have hrest := fun l' => @ih (k + 1) l' (by omega) (by omega)
    simp [RinseAction.next, RinseAction.event, emptiesOnly, hrest, List.replicate_succ]

/-- A count of 255 is never exceeded. -/
theorem not_trace_repeating {k : ℕ} (hk : k < 256) :
    ¬ (rinseLoop speedHz (.repeating 255 k)).Trace Act.rinseEvent l () := by
  intro h
  let J : RinseSm → List RinseEvent → Prop := fun sm _ => ∃ k < 256, sm = .repeating 255 k
  have hstart : J (.repeating 255 k) [] := ⟨k, hk, rfl⟩
  refine Program.Trace.iterate J (fun _ _ => False) (fun sm _ hsm l' r hturn => ?_) hstart h
  obtain ⟨k, hk, rfl⟩ := hsm
  obtain ⟨-, rfl⟩ := (trace_rinseTurn rfl).mp hturn
  obtain rfl | hk : k = 255 ∨ k < 255 := by omega
  · exact ⟨0, by omega, rfl⟩
  · rw [RinseSm.onMotorComplete_repeating hk, if_neg (by omega)]
    exact ⟨k + 1, by omega, rfl⟩

/-- The motions up to the first fill of the loop. -/
def firstMotions (full : Bool) : List Direction :=
  if full then [.liqIn] else [.liqIn, .liqOut, .liqIn]

theorem trace_runRinseSm {speedMlMin v m : ℚ} {c : ℕ} :
    (runRinseSm speedMlMin c v m).Trace Act.rinseEvent l () ↔
      ∃ l', l = (firstMotions (m - 1 / 100 ≤ v)).map .motion ++ l' ∧
        (rinseLoop (mlMinToHz speedMlMin) (.repeating c 1)).Trace Act.rinseEvent l' () := by
  by_cases hfull : v < m - 1 / 100
  · have hnot : ¬ m - 1 / 100 ≤ v := Rat.not_le.mpr hfull
    have hstart : RinseSm.start c v m = ⟨c, 1, .preFill, true⟩ := by
      simp only [RinseSm.start, if_pos hfull]
    simp only [runRinseSm, hstart, if_true, firstMotions, hnot, decide_false, Bool.false_eq_true,
      if_false]
    refine (Program.trace_bind_of fun _ => trace_moveFill).trans ?_
    have hfill : ∀ l', (rinseLoop (mlMinToHz speedMlMin) ⟨c, 1, .emptying, true⟩).Trace
        Act.rinseEvent l' () ↔ ∃ l'', l' = .motion .liqIn :: l'' ∧
          (rinseLoop (mlMinToHz speedMlMin) (.repeating c 1)).Trace Act.rinseEvent l'' () :=
      fun _ => trace_rinseLoop rfl
    have hempty : ∀ l', (rinseLoop (mlMinToHz speedMlMin) ⟨c, 1, .preFill, true⟩).Trace
        Act.rinseEvent l' () ↔ ∃ l'', l' = .motion .liqOut :: l'' ∧
          (rinseLoop (mlMinToHz speedMlMin) ⟨c, 1, .emptying, true⟩).Trace Act.rinseEvent l'' () :=
      fun _ => trace_rinseLoop rfl
    simp only [hempty, hfill]
    constructor
    · rintro ⟨_, rfl, _, rfl, l', rfl, h⟩
      exact ⟨l', rfl, h⟩
    · rintro ⟨l', rfl, h⟩
      exact ⟨_, rfl, _, rfl, l', rfl, h⟩
  · have hfull' : m - 1 / 100 ≤ v := Rat.not_lt.mp hfull
    have hstart : RinseSm.start c v m = ⟨c, 1, .emptying, true⟩ := by
      simp only [RinseSm.start, if_neg hfull]
    simp only [runRinseSm, hstart, firstMotions, hfull', decide_true, if_true]
    refine (trace_rinseLoop rfl).trans ?_
    rfl

end Loop

/-- What a rinse of `n` cycles should show: fills and empties in turn, the first of them an empty
if the burette is full, `n` empties, and then its completion. -/
def AsRequested (n : ℕ) (full : Bool) (l : List RinseEvent) : Prop :=
  ∃ motions : List Direction, l = motions.map .motion ++ [.result .rinseComplete] ∧
    motions.IsChain (· ≠ ·) ∧ motions.head? = some (if full then .liqOut else .liqIn) ∧
    motions.count .liqOut = n

/-- The program can end, and whenever it ends it has shown that. -/
def Performs (n : ℕ) (full : Bool) (p : Firmware Unit) : Prop :=
  (∃ l, p.Trace Act.rinseEvent l ()) ∧ ∀ l, p.Trace Act.rinseEvent l () → AsRequested n full l

theorem asRequested_iff {n : ℕ} {full : Bool} {motions : List Direction} :
    AsRequested n full (motions.map .motion ++ [.result .rinseComplete]) ↔
      motions.IsChain (· ≠ ·) ∧ motions.head? = some (if full then .liqOut else .liqIn) ∧
        motions.count .liqOut = n := by
  have hinj : ∀ d d' : Direction, RinseEvent.motion d = .motion d' → d = d' :=
    fun _ _ h => RinseEvent.motion.inj h
  constructor
  · rintro ⟨motions', heq, h⟩
    rwa [(List.map_inj_right hinj).mp (List.append_cancel_right heq)]
  · intro h
    exact ⟨motions, rfl, h⟩

/-- After the first motions the empties follow without a fill between them. -/
theorem isChain_firstMotions {full : Bool} {n : ℕ} :
    (firstMotions full ++ emptiesOnly n).IsChain (· ≠ ·) ↔ n ≤ 1 := by
  obtain rfl | rfl | n := n
  · cases full <;> decide
  · cases full <;> decide
  · cases full <;> simp [firstMotions, emptiesOnly, List.replicate_succ]

theorem count_firstMotions {full : Bool} {n : ℕ} (hn : 1 ≤ n) :
    (firstMotions full ++ emptiesOnly (n - 1)).count .liqOut = if full then n - 1 else n := by
  cases full with
  | true => simp [firstMotions, emptiesOnly]
  | false =>
    simp [firstMotions, emptiesOnly]
    omega

section
variable {speedMlMin v m : ℚ} {l : List RinseEvent}

/-- With up to 254 cycles the rinse ends after all its empties. -/
theorem trace_runRinseSm_iff {n : ℕ} (hn : 1 ≤ n) (hlt : n < 255) :
    (runRinseSm speedMlMin n v m).Trace Act.rinseEvent l () ↔
      l = (firstMotions (m - 1 / 100 ≤ v) ++ emptiesOnly (n - 1)).map .motion ++
        [.result .rinseComplete] := by
  have hrest : ∀ l', (rinseLoop (mlMinToHz speedMlMin) (.repeating n 1)).Trace Act.rinseEvent
      l' () ↔ l' = (emptiesOnly (n - 1)).map .motion ++ [.result .rinseComplete] :=
    fun l' => trace_repeating hlt (n - 1) le_rfl (by omega)
  simp [trace_runRinseSm, hrest]

/-- With 255 cycles it does not end. -/
theorem not_trace_runRinseSm : ¬ (runRinseSm speedMlMin 255 v m).Trace Act.rinseEvent l () := by
  intro h
  obtain ⟨l', -, hloop⟩ := trace_runRinseSm.mp h
  exact not_trace_repeating (by omega) hloop

theorem performs_iff {n k : ℕ} {full : Bool} (hn : 1 ≤ n) (hlt : n < 255) :
    Performs k full (runRinseSm speedMlMin n v m) ↔ AsRequested k full
      ((firstMotions (m - 1 / 100 ≤ v) ++ emptiesOnly (n - 1)).map .motion ++
        [.result .rinseComplete]) := by
  simp only [Performs, trace_runRinseSm_iff hn hlt, exists_eq, true_and, forall_eq]

theorem performs_runRinseSm {n : ℕ} (hn : 1 ≤ n) (hsmall : n < 256) :
    Performs n (m - 1 / 100 ≤ v) (runRinseSm speedMlMin n v m) ↔ n ≤ 2 ∧ v < m - 1 / 100 := by
  obtain rfl | hlt : n = 255 ∨ n < 255 := by omega
  · refine iff_of_false ?_ (by omega)
    rintro ⟨⟨l, hl⟩, -⟩
    exact not_trace_runRinseSm hl
  · have hfull : v < m - 1 / 100 ↔ decide (m - 1 / 100 ≤ v) = false := by
      rw [decide_eq_false_iff_not]
      exact Rat.not_le.symm
    rw [performs_iff hn hlt, asRequested_iff, isChain_firstMotions, hfull]
    generalize decide (m - 1 / 100 ≤ v) = full
    cases full with
    | true => simp [firstMotions]
    | false =>
      have hhead : (firstMotions false ++ emptiesOnly (n - 1)).head? = some .liqIn := rfl
      rw [count_firstMotions hn, hhead]
      simp

end

/-- What the handler of a rinse enqueues. -/
def rinseCommand (n : ℕ) : MotorCommand :=
  { type := .startRinse, startRinse := ⟨toU8 n, Config.rinseDefaultSpeedMlMin⟩ }

/-- The motor commands with which a request can be accepted. -/
def Accepted (p : Firmware CommandResponse) (mc : MotorCommand) : Prop :=
  ∃ sent rsp, p.Trace Act.sentCommand sent rsp ∧ mc ∈ sent

theorem accepted_handleRinse {n : ℕ} (hn : 1 ≤ n) {mc : MotorCommand} :
    Accepted (BuretteOps.handleRinse (some n)) mc ↔ mc = rinseCommand n := by
  obtain ⟨n, rfl⟩ : ∃ k, n = k + 1 := ⟨n - 1, by omega⟩
  constructor
  · rintro ⟨sent, rsp, htrace, hmc⟩
    have honly : (BuretteOps.handleRinse (some (n + 1))).Only
        (Act.sending fun mc => mc = rinseCommand (n + 1)) := by
      refine only_claimBurette (only_loadCal fun cal => ?_)
      exact only_enqueueClaimed (decide_eq_true rfl)
    have hsent : ∀ {β : Type} (a : Act β), Act.sending (fun mc => mc = rinseCommand (n + 1)) a = true →
        ∀ x ∈ a.sentCommand, x = rinseCommand (n + 1) := by
      intro β a ha x hx
      induction a with
      | xQueueSend cmd =>
        cases hx
        exact of_decide_eq_true ha
      | _ => cases hx
    exact honly.trace_forall hsent htrace mc hmc
  · rintro rfl
    refine ⟨[rinseCommand (n + 1)], makeAckThenResponse, ?_, .head _⟩
    refine (Program.trace_silent rfl).mpr ⟨false, ?_⟩
    refine (Program.trace_silent rfl).mpr ⟨true, ?_⟩
    refine (Program.trace_silent rfl).mpr ⟨some .default, ?_⟩
    refine (Program.trace_silent rfl).mpr ⟨true, ?_⟩
    exact Program.trace_act.mpr ⟨true, [], rfl, .ret _⟩

/-- An accepted rinse is made as requested exactly if at most two cycles were requested and the
runner takes the burette not to be full. -/
theorem rinse_asRequested_iff {n : ℕ} (hn : 1 ≤ n) {v m : ℚ} :
    (∀ mc, Accepted (BuretteOps.handleRinse (some n)) mc → mc.startRinse.cycles = n ∧
      Performs n (m - 1 / 100 ≤ v)
        (runRinseSm mc.startRinse.speedMlMin mc.startRinse.cycles v m)) ↔
      n ≤ 2 ∧ v < m - 1 / 100 := by
  simp only [accepted_handleRinse hn, forall_eq]
  by_cases hsmall : n < 256
  · have hcycles : (rinseCommand n).startRinse.cycles = n := Nat.mod_eq_of_lt hsmall
    rw [hcycles, performs_runRinseSm hn hsmall]
    exact and_iff_right rfl
  · refine iff_of_false (fun h => hsmall ?_) (by omega)
    rw [← h.1]
    exact Nat.mod_lt n (by decide)

theorem rinse_asRequested_once :
    (rinseCommand 1).startRinse.cycles = 1 ∧
      Performs 1 ((814 / 100 : ℚ) - 1 / 100 ≤ (0 : ℚ))
        (runRinseSm (rinseCommand 1).startRinse.speedMlMin (rinseCommand 1).startRinse.cycles 0
          (814 / 100)) :=
  (rinse_asRequested_iff le_rfl).mpr ⟨by decide, by decide +kernel⟩ (rinseCommand 1)
    ((accepted_handleRinse le_rfl).mpr rfl)

/-- Three cycles from an empty burette. -/
theorem rinse_emptiesTwice : ¬ ∀ mc, Accepted (BuretteOps.handleRinse (some 3)) mc →
    mc.startRinse.cycles = 3 ∧
      Performs 3 ((814 / 100 : ℚ) - 1 / 100 ≤ (0 : ℚ))
        (runRinseSm mc.startRinse.speedMlMin mc.startRinse.cycles 0 (814 / 100)) := by
  intro h
  have hthree : 1 ≤ 3 := by decide
  have hperforms := (h (rinseCommand 3) ((accepted_handleRinse hthree).mpr rfl)).2
  have htwo := (performs_runRinseSm hthree (by decide)).mp hperforms
  exact absurd htwo.1 (by decide)

/-- The motor task takes the burette to be full whatever its nominal volume is, so no rinse of an
accepted request is made as requested there. -/
theorem rinse_never_onDevice {n : ℕ} (hn : 1 ≤ n) {v : ℚ} (hv : 0 ≤ v) {full : Bool} :
    ¬ ∀ mc, Accepted (BuretteOps.handleRinse (some n)) mc → mc.startRinse.cycles = n ∧
      Performs n full (runRinseSm mc.startRinse.speedMlMin mc.startRinse.cycles v
        CalibrationData.zero.nominalVolumeMl) := by
  intro h
  obtain ⟨hcycles, hperforms⟩ := h _ ((accepted_handleRinse hn).mpr rfl)
  rw [hcycles] at hperforms
  have hsmall : n < 256 := by
    rw [← hcycles]
    exact Nat.mod_lt n (by decide)
  obtain rfl | hlt : n = 255 ∨ n < 255 := by omega
  · exact not_trace_runRinseSm hperforms.1.choose_spec
  · have hfull : CalibrationData.zero.nominalVolumeMl - 1 / 100 ≤ v :=
      Rat.le_trans (by decide +kernel) hv
    rw [performs_iff hn hlt, asRequested_iff, count_firstMotions hn] at hperforms
    have hcount := hperforms.2.2
    rw [decide_eq_true hfull, if_pos rfl] at hcount
    omega

end Ecotiter
