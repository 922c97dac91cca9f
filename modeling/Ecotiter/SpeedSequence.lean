import Ecotiter.OperationRunners

/-!
# The ticks of a speed sequence

`CalSpeedSeqSm` is driven by calls of `onTick` with readings of a 32-bit millisecond clock. The
calls at a list of real times are followed latest first; a reading is the residue of its time.
-/

namespace Ecotiter

/-- A call of `onTick`: its real time, the machine before it, what it returns and the machine after
it. -/
structure SeqTick where
  time : ℕ
  before : CalSpeedSeqSm
  action : CalSpeedAction
  after : CalSpeedSeqSm

namespace SeqTick

/-- The call of a machine at a time. -/
def of (sm : CalSpeedSeqSm) (time : ℕ) : SeqTick :=
  ⟨time, sm, (sm.onTick (time % 2 ^ 32)).1, (sm.onTick (time % 2 ^ 32)).2⟩

def empties (tick : SeqTick) : Bool := tick.action = .emptyToLimit

def fills (tick : SeqTick) : Bool := tick.action = .fillToLimit

/-- The call stores into `results`. -/
def writes (tick : SeqTick) : Bool := tick.before.started && tick.before.phase = .empty

end SeqTick

/-- The phases in which the valve settles. -/
def CalSpeedSeqPhase.settles : CalSpeedSeqPhase → Bool
  | .valveSettleAfterFill | .valveSettleAfterEmpty => true
  | _ => false

/-- The machine after some calls. -/
def machineAfter (sm : CalSpeedSeqSm) : List SeqTick → CalSpeedSeqSm
  | [] => sm
  | tick :: _ => tick.after

/-- The calls at these times, latest first. -/
def seqTicks (sm : CalSpeedSeqSm) : List ℕ → List SeqTick
  | [] => []
  | time :: times => .of (machineAfter sm (seqTicks sm times)) time :: seqTicks sm times

/-- The time at which the latest settle phase began. -/
def settleBegan : List SeqTick → Option ℕ
  | [] => none
  | tick :: past =>
    if tick.action = .settleValve ∧ tick.before.phase.settles = false then some tick.time
    else settleBegan past

/-- The emptyings so far. -/
def emptied (past : List SeqTick) : ℕ := past.countP SeqTick.empties

/-- The latest call asked for an emptying, which has ended when the next call is made. -/
def justEmptied (past : List SeqTick) : Bool := past.head?.any SeqTick.empties

/-- What holds of every call with the calls before it. -/
structure SeqTick.Proper (tick : SeqTick) (past : List SeqTick) : Prop where
  settled : tick.empties ∨ tick.fills → tick.before.phase.settles ∧
    ∃ began, settleBegan past = some began ∧ began + CalSpeedSeqSm.valveSwitchMs ≤ tick.time
  written : tick.writes → tick.before.seqIdx < CalSpeedSeqSm.calSeqPoints
  read : tick.empties → tick.after.seqIdx < CalSpeedSeqSm.calSeqPoints
  complete : tick.action = .complete ↔ justEmptied past ∧ emptied past = 3
  count : tick.action = .complete → tick.after.seqIdx = 3

/-- What the phase of the machine says about the calls so far. -/
def SeqPast (sm : CalSpeedSeqSm) (past : List SeqTick) : Prop :=
  match sm.phase with
  | .fillFirst =>
    sm.started ∧ sm.seqIdx = emptied past ∧ emptied past < 3 ∧ justEmptied past = false
  | .valveSettleAfterFill | .valveSettleAfterEmpty =>
    sm.started ∧ sm.seqIdx = emptied past ∧ emptied past < 3 ∧ justEmptied past = false ∧
      ∃ began, settleBegan past = some began ∧ sm.valveSettleStartMs = began % 2 ^ 32
  | .empty => sm.started ∧ sm.seqIdx + 1 = emptied past ∧ emptied past ≤ 3 ∧ justEmptied past
  | .done => sm.started = false ∧ emptied past = 3 ∧ justEmptied past = false
  | .idle | .nextPoint => False

section
variable {sm : CalSpeedSeqSm} {past : List SeqTick} {time : ℕ}

theorem settleBegan_mem {began : ℕ} (h : settleBegan past = some began) :
    ∃ tick ∈ past, tick.time = began := by
  induction past with
  | nil => cases h
  | cons tick past ih =>
    rw [settleBegan] at h
    split at h
    · exact ⟨tick, List.mem_cons_self, Option.some.inj h⟩
    · obtain ⟨tick', hmem, htime⟩ := ih h
      exact ⟨tick', List.mem_cons_of_mem _ hmem, htime⟩

/-- A difference of two readings never exceeds the time between them. -/
theorem subU32_le {a b : ℕ} (h : b ≤ a) : subU32 (a % 2 ^ 32) (b % 2 ^ 32) ≤ a - b := by
  unfold subU32
  omega

/-- A settle phase ends no earlier than its length after its beginning. -/
theorem settled_of_elapsed {began : ℕ} (hle : began ≤ time)
    (h : CalSpeedSeqSm.valveSwitchMs ≤ subU32 (time % 2 ^ 32) (began % 2 ^ 32)) :
    began + CalSpeedSeqSm.valveSwitchMs ≤ time := by
  have hsub := subU32_le hle
  omega

theorem emptied_cons (tick : SeqTick) (past : List SeqTick) :
    emptied (tick :: past) = emptied past + if tick.empties then 1 else 0 :=
  List.countP_cons

/-- A call that asks for no stroke. -/
theorem SeqTick.Proper.of_idle {tick : SeqTick} (h : tick.empties = false ∧ tick.fills = false)
    (hwritten : tick.writes → tick.before.seqIdx < CalSpeedSeqSm.calSeqPoints)
    (hcomplete : tick.action = .complete ↔ justEmptied past ∧ emptied past = 3)
    (hcount : tick.action = .complete → tick.after.seqIdx = 3) : tick.Proper past := by
  refine ⟨fun hstroke => ?_, hwritten, fun hempties => ?_, hcomplete, hcount⟩
  · rw [h.1, h.2] at hstroke
    simp at hstroke
  · rw [h.1] at hempties
    cases hempties

/-- A call that ends a settle phase with a stroke. -/
theorem SeqTick.Proper.of_stroke {tick : SeqTick} {began : ℕ} (haction : tick.empties ∨ tick.fills)
    (hphase : tick.before.phase.settles) (hbegan : settleBegan past = some began)
    (hlate : began + CalSpeedSeqSm.valveSwitchMs ≤ tick.time)
    (hwrites : tick.writes = false) (hread : tick.after.seqIdx < CalSpeedSeqSm.calSeqPoints)
    (hjust : justEmptied past = false) : tick.Proper past := by
  have hnot : tick.action ≠ .complete := by
    intro hcomplete
    simp [SeqTick.empties, SeqTick.fills, hcomplete] at haction
  refine ⟨fun _ => ⟨hphase, began, hbegan, hlate⟩, fun h => ?_, fun _ => hread, ?_, fun h => ?_⟩
  · rw [hwrites] at h
    cases h
  · rw [hjust]
    exact iff_of_false hnot fun h => Bool.false_ne_true h.1
  · exact absurd h hnot

/-- The latest call was this one. -/
theorem justEmptied_cons (tick : SeqTick) : justEmptied (tick :: past) = tick.empties := rfl

theorem began_le {began : ℕ} (h : settleBegan past = some began)
    (htimes : ∀ tick ∈ past, tick.time ≤ time) : began ≤ time := by
  obtain ⟨tick, hmem, rfl⟩ := settleBegan_mem h
  exact htimes tick hmem

/-- A call in a settle phase that is not over. -/
theorem SeqPast.stays (h : SeqPast sm past) (hphase : sm.phase.settles) :
    SeqTick.Proper ⟨time, sm, .settleValve, sm⟩ past ∧
      SeqPast sm (⟨time, sm, .settleValve, sm⟩ :: past) := by
  have hbegan : settleBegan (⟨time, sm, .settleValve, sm⟩ :: past) = settleBegan past := by
    rw [settleBegan, hphase]
    exact if_neg (by simp)
  have hsame : emptied (⟨time, sm, .settleValve, sm⟩ :: past) = emptied past := emptied_cons _ _
  have hquiet : sm.phase ≠ .empty ∧ justEmptied past = false := by
    unfold SeqPast at h
    cases hp : sm.phase with
    | valveSettleAfterFill | valveSettleAfterEmpty =>
      rw [hp] at h
      exact ⟨by decide, h.2.2.2.1⟩
    | _ =>
      rw [hp] at hphase
      cases hphase
  have hnot : CalSpeedAction.settleValve ≠ .complete := by decide
  refine ⟨.of_idle ⟨rfl, rfl⟩ (fun hw => ?_) (iff_of_false hnot fun hd => ?_) (absurd · hnot), ?_⟩
  · simp [SeqTick.writes, hquiet.1] at hw
  · rw [hquiet.2] at hd
    cases hd.1
  · unfold SeqPast at h ⊢
    rw [hbegan, hsame]
    cases hp : sm.phase with
    | valveSettleAfterFill | valveSettleAfterEmpty =>
      rw [hp] at h
      exact ⟨h.1, h.2.1, h.2.2.1, rfl, h.2.2.2.2⟩
    | _ =>
      rw [hp] at hphase
      cases hphase

theorem seqTicks_le {times : List ℕ} (h : ∀ t ∈ times, t ≤ time) :
    ∀ tick ∈ seqTicks sm times, tick.time ≤ time := by
  induction times with
  | nil => exact fun tick hmem => absurd hmem List.not_mem_nil
  | cons t times ih =>
    obtain ⟨hhead, htail⟩ := List.forall_mem_cons.mp h
    rw [seqTicks, List.forall_mem_cons]
    exact ⟨hhead, ih htail⟩

/-- One call, by the phase it finds. -/
theorem SeqPast.tick (h : SeqPast sm past) (htimes : ∀ tick ∈ past, tick.time ≤ time) :
    (SeqTick.of sm time).Proper past ∧
      SeqPast (SeqTick.of sm time).after (SeqTick.of sm time :: past) := by
  have hthree : CalSpeedSeqSm.calSeqPoints = 3 := rfl
  cases hphase : sm.phase with
  | idle | nextPoint =>
    unfold SeqPast at h
    rw [hphase] at h
    exact h.elim
  | done =>
    unfold SeqPast at h
    rw [hphase] at h
    obtain ⟨hstopped, hemptied, hjust⟩ := h
    have htick : SeqTick.of sm time = ⟨time, sm, .error, sm⟩ := by
      simp [SeqTick.of, CalSpeedSeqSm.onTick, hstopped]
    rw [htick]
    have hnot : CalSpeedAction.error ≠ .complete := by decide
    refine ⟨.of_idle ⟨rfl, rfl⟩ (fun hw => ?_) (iff_of_false hnot fun hd => ?_) (absurd · hnot), ?_⟩
    · simp [SeqTick.writes, hstopped] at hw
    · rw [hjust] at hd
      cases hd.1
    · unfold SeqPast
      rw [hphase]
      exact ⟨hstopped, hemptied, rfl⟩
  | fillFirst =>
    unfold SeqPast at h
    rw [hphase] at h
    obtain ⟨hstarted, hindex, hless, hjust⟩ := h
    have htick : SeqTick.of sm time = ⟨time, sm, .settleValve,
        { sm with phase := .valveSettleAfterFill, valveSettleStartMs := time % 2 ^ 32 }⟩ := by
      simp [SeqTick.of, CalSpeedSeqSm.onTick, hstarted, hphase]
    rw [htick]
    have hnot : CalSpeedAction.settleValve ≠ .complete := by decide
    refine ⟨.of_idle ⟨rfl, rfl⟩ (fun hw => ?_) (iff_of_false hnot fun hd => ?_) (absurd · hnot), ?_⟩
    · simp [SeqTick.writes, hphase] at hw
    · rw [hjust] at hd
      cases hd.1
    · have hbegan : settleBegan (⟨time, sm, .settleValve, { sm with
          phase := .valveSettleAfterFill, valveSettleStartMs := time % 2 ^ 32 }⟩ :: past) =
            some time := by
        rw [settleBegan, hphase]
        rfl
      exact ⟨hstarted, hindex, hless, rfl, time, hbegan, rfl⟩
  | valveSettleAfterFill =>
    have hkept := h
    unfold SeqPast at h
    rw [hphase] at h
    obtain ⟨hstarted, hindex, hless, hjust, began, hbegan, hstart⟩ := h
    by_cases hsettled : CalSpeedSeqSm.valveSwitchMs ≤
        subU32 (time % 2 ^ 32) sm.valveSettleStartMs
    · have htick : SeqTick.of sm time = ⟨time, sm, .emptyToLimit,
          { sm with phase := .empty, elapsedMs := time % 2 ^ 32 }⟩ := by
        simp [-Nat.reducePow, SeqTick.of, CalSpeedSeqSm.onTick, hstarted, hphase, hsettled]
      rw [htick]
      rw [hstart] at hsettled
      have hlate := settled_of_elapsed (began_le hbegan htimes) hsettled
      refine ⟨.of_stroke (.inl rfl) (by rw [hphase]; rfl) hbegan hlate ?_ ?_ hjust, ?_⟩
      · simp [SeqTick.writes, hphase]
      · change sm.seqIdx < _
        omega
      · have hcount := emptied_cons ⟨time, sm, .emptyToLimit,
          { sm with phase := .empty, elapsedMs := time % 2 ^ 32 }⟩ past
        refine ⟨hstarted, ?_, ?_, rfl⟩
        · rw [hcount, ← hindex]
          rfl
        · rw [hcount]
          exact hless
    · have htick : SeqTick.of sm time = ⟨time, sm, .settleValve, sm⟩ := by
        simp [-Nat.reducePow, SeqTick.of, CalSpeedSeqSm.onTick, hstarted, hphase, hsettled]
      rw [htick]
      exact hkept.stays (by rw [hphase]; rfl)
  | empty =>
    unfold SeqPast at h
    rw [hphase] at h
    obtain ⟨hstarted, hindex, hless, hjust⟩ := h
    by_cases hlast : CalSpeedSeqSm.calSeqPoints ≤ sm.seqIdx + 1
    · obtain ⟨results, htick⟩ : ∃ results, SeqTick.of sm time = ⟨time, sm, .complete, { sm with
          results := results, seqIdx := sm.seqIdx + 1, phase := .done, started := false }⟩ := by
        simp [SeqTick.of, CalSpeedSeqSm.onTick, hstarted, hphase, hlast]
      have hemptied : emptied past = 3 := by omega
      rw [htick]
      refine ⟨.of_idle ⟨rfl, rfl⟩ (fun _ => ?_) (iff_of_true rfl ⟨hjust, hemptied⟩) fun _ => ?_, ?_⟩
      · change sm.seqIdx < _
        omega
      · change sm.seqIdx + 1 = 3
        omega
      · exact ⟨rfl, hemptied, rfl⟩
    · obtain ⟨results, htick⟩ : ∃ results, SeqTick.of sm time = ⟨time, sm, .settleValve, { sm with
          results := results, seqIdx := sm.seqIdx + 1, phase := .valveSettleAfterEmpty
          valveSettleStartMs := time % 2 ^ 32 }⟩ := by
        simp [SeqTick.of, CalSpeedSeqSm.onTick, hstarted, hphase, hlast]
      rw [htick]
      have hnot : CalSpeedAction.settleValve ≠ .complete := by decide
      refine ⟨.of_idle ⟨rfl, rfl⟩ (fun _ => ?_) (iff_of_false hnot fun hd => ?_)
        (absurd · hnot), ?_⟩
      · change sm.seqIdx < _
        omega
      · omega
      · have hbegan : settleBegan (⟨time, sm, .settleValve, { sm with
            results := results, seqIdx := sm.seqIdx + 1, phase := .valveSettleAfterEmpty
            valveSettleStartMs := time % 2 ^ 32 }⟩ :: past) = some time := by
          rw [settleBegan, hphase]
          rfl
        have hfew : emptied past < 3 := by omega
        exact ⟨hstarted, hindex, hfew, rfl, time, hbegan, rfl⟩
  | valveSettleAfterEmpty =>
    have hkept := h
    unfold SeqPast at h
    rw [hphase] at h
    obtain ⟨hstarted, hindex, hless, hjust, began, hbegan, hstart⟩ := h
    by_cases hsettled : CalSpeedSeqSm.valveSwitchMs ≤
        subU32 (time % 2 ^ 32) sm.valveSettleStartMs
    · have htick : SeqTick.of sm time =
          ⟨time, sm, .fillToLimit, { sm with phase := .fillFirst }⟩ := by
        simp [-Nat.reducePow, SeqTick.of, CalSpeedSeqSm.onTick, hstarted, hphase, hsettled]
      rw [htick]
      rw [hstart] at hsettled
      have hlate := settled_of_elapsed (began_le hbegan htimes) hsettled
      refine ⟨.of_stroke (.inr rfl) (by rw [hphase]; rfl) hbegan hlate ?_ ?_ hjust, ?_⟩
      · simp [SeqTick.writes, hphase]
      · change sm.seqIdx < _
        omega
      · exact ⟨hstarted, hindex, hless, rfl⟩
    · have htick : SeqTick.of sm time = ⟨time, sm, .settleValve, sm⟩ := by
        simp [-Nat.reducePow, SeqTick.of, CalSpeedSeqSm.onTick, hstarted, hphase, hsettled]
      rw [htick]
      exact hkept.stays (by rw [hphase]; rfl)

/-- Every call of a machine that was started has its properties. -/
theorem seqPast_seqTicks (freqs : List ℕ) {times : List ℕ} (h : times.Pairwise (· ≥ ·)) :
    SeqPast (machineAfter (.start freqs) (seqTicks (.start freqs) times))
      (seqTicks (.start freqs) times) := by
  induction h with
  | nil => exact ⟨rfl, rfl, Nat.zero_lt_succ 2, rfl⟩
  | @cons time times hle _ ih => exact (ih.tick (seqTicks_le hle)).2

/-- In every sequence of calls of `onTick`, at real times that do not decrease, a stroke is asked
for only when its settle phase has lasted long enough, the index is in range wherever it is used,
and completion is reported exactly after the third emptying. -/
theorem seqTicks_proper (freqs : List ℕ) {times : List ℕ} (h : times.Pairwise (· ≥ ·)) :
    ∀ tick past, tick :: past <:+ seqTicks (.start freqs) times → tick.Proper past := by
  induction h with
  | nil =>
    intro tick past hsuffix
    exact absurd (List.eq_nil_of_suffix_nil hsuffix) (List.cons_ne_nil _ _)
  | @cons time times hle hsorted ih =>
    intro tick past hsuffix
    rcases List.suffix_cons_iff.mp hsuffix with heq | hlater
    · obtain ⟨rfl, rfl⟩ := List.cons.inj heq
      exact ((seqPast_seqTicks freqs hsorted).tick (seqTicks_le hle)).1
    · exact ih tick past hlater

/-- The settle phase of a sequence that begins just before the clock wraps ends after it. -/
theorem seqTicks_proper_wrap :
    (seqTicks (.start [100, 500, 1000]) [2 ^ 32 + 900, 2 ^ 32 - 100]).head?.any SeqTick.empties =
        true ∧
      ∀ tick past,
        tick :: past <:+ seqTicks (.start [100, 500, 1000]) [2 ^ 32 + 900, 2 ^ 32 - 100] →
          tick.Proper past :=
  ⟨rfl, seqTicks_proper _ (by decide)⟩

end
end Ecotiter
