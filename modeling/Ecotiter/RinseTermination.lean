import Ecotiter.RinseMotions

/-!
# How often the rinse machine is asked

Every turn of the loop of `run_rinse_sm` reads the volume once, for its call of `onMotorComplete`.
The turns are counted by these reads. `Filling` is left only by a count that exceeds the number of
cycles, which one of eight bits never does if they are 255.
-/

namespace Ecotiter
open Interleaving Firmware

/-- The reads of the volume. -/
def Act.volumeRead : {β : Type} → Act β → Option Unit
  | _, .load .volumeMl => some ()
  | _, _ => none

/-- The program can come to its end, it ends with a completed rinse, and in its whole course the
machine is called at most `n` times. -/
structure CompletesWithin (n : ℕ) (p : Firmware Unit) : Prop where
  ends : ∃ l, p.Trace Act.rinseEvent l ()
  completes : ∀ l, p.Trace Act.rinseEvent l () → l.getLast? = some (.result .rinseComplete)
  calls : ∀ l q, p.Reaches Act.volumeRead l q → l.length ≤ n

section
variable {speedHz : ℕ} {sm : RinseSm} {l : List Unit} {q : Firmware Unit}

/-- What does not read the volume. -/
def Act.leavesVolumeUnread {β : Type} (a : Act β) : Bool := a.volumeRead.isNone

theorem strokes_leaveVolumeUnread (speedHz : ℕ) :
    StrokeRule (fun a => a.leavesVolumeUnread) speedHz where
  drive a ha := by
    induction a with
    | load v => induction v <;> first | rfl | cases ha
    | _ => rfl
  valve _ := rfl
  position _ := rfl
  settle _ := rfl
  abort := .inr rfl

/-- What the machine asks for after a call. -/
def rinseMotion (speedHz : ℕ) (step : RinseAction × RinseSm) : Firmware (RinseSm ⊕ Unit) :=
  match step.1 with
  | .fillToLimit => do
    moveFill speedHz
    return .inl step.2
  | .emptyToLimit => do
    moveEmpty speedHz
    return .inl step.2
  | .complete => do
    storeResult .rinseComplete 0 0 [] 0
    return .inr ()
  | .error => do
    storeResult .error 0 0 [] 0
    return .inr ()

theorem only_rinseMotion {step : RinseAction × RinseSm} :
    (rinseMotion speedHz step).Only fun a => a.leavesVolumeUnread := by
  obtain ⟨action, sm⟩ := step
  cases action with
  | fillToLimit => exact (strokes_leaveVolumeUnread speedHz).only_moveFill.bind fun _ => trivial
  | emptyToLimit => exact (strokes_leaveVolumeUnread speedHz).only_moveEmpty.bind fun _ => trivial
  | complete => exact ⟨rfl, fun _ => ⟨rfl, fun _ => ⟨rfl, fun _ => trivial⟩⟩⟩
  | error => exact ⟨rfl, fun _ => ⟨rfl, fun _ => ⟨rfl, fun _ => trivial⟩⟩⟩

theorem volumeRead_eq_none {β : Type} (a : Act β) (h : a.leavesVolumeUnread) :
    a.volumeRead = none :=
  Option.isNone_iff_eq_none.mp h

theorem rinseTurn_eq (hphase : sm.isComplete = false) : rinseTurn speedHz sm = (do
    taskWdtReset
    let _ ← load .volumeMl
    rinseMotion speedHz sm.onMotorComplete) := by
  simp only [rinseTurn, hphase]
  rfl

/-- A turn makes one call, after which the loop goes on as the machine says. -/
theorem calls_rinseTurn (hphase : sm.isComplete = false) {r : RinseSm ⊕ Unit} :
    (rinseTurn speedHz sm).Trace Act.volumeRead l r ↔
      l = [()] ∧ r = sm.onMotorComplete.1.next sm.onMotorComplete.2 := by
  have hseen : ∀ {l r}, (rinseTurn speedHz sm).Trace Act.volumeRead l r → l = [()] := by
    intro l r h
    rw [rinseTurn_eq hphase] at h
    change (Program.act .taskWdtReset fun _ => Program.act (.load .volumeMl) fun _ =>
      rinseMotion speedHz sm.onMotorComplete).Trace Act.volumeRead l r at h
    obtain ⟨_, l', rfl, hmotion⟩ := Program.trace_act.mp ((Program.trace_skip rfl).mp h)
    rw [only_rinseMotion.trace_nil volumeRead_eq_none hmotion]
    rfl
  constructor
  · intro h
    obtain ⟨l', hmotion⟩ := h.observe Act.rinseEvent
    exact ⟨hseen h, ((trace_rinseTurn hphase).mp hmotion).2⟩
  · rintro ⟨rfl, rfl⟩
    have hmotion : (rinseTurn speedHz sm).Trace Act.rinseEvent [sm.onMotorComplete.1.event]
        (sm.onMotorComplete.1.next sm.onMotorComplete.2) :=
      (trace_rinseTurn hphase).mpr ⟨rfl, rfl⟩
    obtain ⟨l', h⟩ := hmotion.observe Act.volumeRead
    rwa [hseen h] at h

theorem reaches_rinseTurn (hphase : sm.isComplete = false) {q : Firmware (RinseSm ⊕ Unit)}
    (h : (rinseTurn speedHz sm).Reaches Act.volumeRead l q) : l.length ≤ 1 := by
  rw [rinseTurn_eq hphase] at h
  cases h with
  | refl => exact Nat.zero_le _
  | act _ h =>
    cases h with
    | refl => exact Nat.zero_le _
    | act _ h =>
      rw [only_rinseMotion.reaches_nil volumeRead_eq_none h]
      exact le_rfl

/-- The loop is in its first turn or has made a call and goes on. -/
theorem reaches_rinseLoop (hphase : sm.isComplete = false)
    (h : (rinseLoop speedHz sm).Reaches Act.volumeRead l q) :
    l.length ≤ 1 ∨ ∃ l', l = () :: l' ∧ (Sum.elim (rinseLoop speedHz) .ret
      (sm.onMotorComplete.1.next sm.onMotorComplete.2)).Reaches Act.volumeRead l' q := by
  rw [rinseLoop_eq] at h
  cases h with
  | refl => exact .inl (Nat.zero_le _)
  | loop h =>
    obtain ⟨p', hturn, -⟩ | ⟨r, l₁, l₂, rfl, hturn, hrest⟩ := Program.Reaches.of_bind h
    · exact .inl (reaches_rinseTurn hphase hturn)
    · obtain ⟨rfl, rfl⟩ := (calls_rinseTurn hphase).mp hturn
      exact .inr ⟨l₂, rfl, hrest⟩

theorem calls_rinseLoop (hphase : sm.isComplete = false)
    (h : (rinseLoop speedHz sm).Trace Act.volumeRead l ()) :
    ∃ l', l = () :: l' ∧ (Sum.elim (rinseLoop speedHz) .ret
      (sm.onMotorComplete.1.next sm.onMotorComplete.2)).Trace Act.volumeRead l' () := by
  obtain ⟨r, l₁, l₂, rfl, hturn, hrest⟩ := Program.trace_loop.mp h
  obtain ⟨rfl, rfl⟩ := (calls_rinseTurn hphase).mp hturn
  exact ⟨l₂, rfl, hrest⟩

/-- A machine that is done at its next call. -/
theorem calls_last {n : ℕ} (hphase : sm.isComplete = false)
    (hlast : sm.onMotorComplete.1.next sm.onMotorComplete.2 = .inr ()) (hn : 1 ≤ n)
    (h : (rinseLoop speedHz sm).Reaches Act.volumeRead l q) : l.length ≤ n := by
  obtain hone | ⟨l', rfl, hrest⟩ := reaches_rinseLoop hphase h
  · omega
  · rw [hlast] at hrest
    cases hrest
    exact hn

/-- A machine that goes on after its next call. -/
theorem calls_more {n : ℕ} {sm' : RinseSm} (hphase : sm.isComplete = false)
    (hmore : sm.onMotorComplete.1.next sm.onMotorComplete.2 = .inl sm')
    (hrest : ∀ l, (rinseLoop speedHz sm').Reaches Act.volumeRead l q → l.length ≤ n)
    (h : (rinseLoop speedHz sm).Reaches Act.volumeRead l q) : l.length ≤ n + 1 := by
  obtain hone | ⟨l', rfl, hloop⟩ := reaches_rinseLoop hphase h
  · omega
  · rw [hmore] at hloop
    have hcalls := hrest l' hloop
    rw [List.length_cons]
    omega

/-- The calls that are left after the first fill of the loop. -/
theorem calls_repeating {c : ℕ} (hc : c < 255) (d : ℕ) :
    ∀ {k : ℕ} {l : List Unit}, 1 ≤ k → k + d = max c 1 →
    (rinseLoop speedHz (.repeating c k)).Reaches Act.volumeRead l q → l.length ≤ d + 1 := by
  induction d with
  | zero =>
    intro k l hk hkd
    refine calls_last rfl ?_ le_rfl
    rw [RinseSm.onMotorComplete_repeating (by omega), if_pos (by omega)]
    rfl
  | succ d ih =>
    intro k l hk hkd
    refine calls_more rfl ?_ fun l' hrest => @ih (k + 1) l' (by omega) (by omega) hrest
    rw [RinseSm.onMotorComplete_repeating (by omega), if_neg (by omega)]
    rfl

end

section
variable {speedMlMin v m : ℚ} {c : ℕ} {l : List Unit} {q : Firmware Unit}

/-- The calls of a rinse: one for each cycle, at least one, one before, and one more after a fill
at the start. -/
theorem calls_runRinseSm (hc : c < 255)
    (h : (runRinseSm speedMlMin c v m).Reaches Act.volumeRead l q) :
    l.length ≤ max c 1 + if v < m - 1 / 100 then 2 else 1 := by
  have hemptying : ∀ l, (rinseLoop (mlMinToHz speedMlMin) ⟨c, 1, .emptying, true⟩).Reaches
      Act.volumeRead l q → l.length ≤ max c 1 + 1 := by
    intro l hl
    refine calls_more rfl rfl (fun l' hrest => ?_) hl
    have hcalls := calls_repeating hc (max c 1 - 1) le_rfl (by omega) hrest
    omega
  by_cases hfill : v < m - 1 / 100
  · have hstart : RinseSm.start c v m = ⟨c, 1, .preFill, true⟩ := by
      simp only [RinseSm.start, if_pos hfill]
    rw [if_pos hfill]
    simp only [runRinseSm, hstart, if_true] at h
    obtain ⟨p', hfirst, -⟩ | ⟨_, l₁, l₂, rfl, hfirst, hloop⟩ := Program.Reaches.of_bind h
    · rw [(strokes_leaveVolumeUnread _).only_moveFill.reaches_nil volumeRead_eq_none hfirst]
      exact Nat.zero_le _
    · rw [(strokes_leaveVolumeUnread _).only_moveFill.trace_nil volumeRead_eq_none hfirst]
      exact calls_more rfl rfl hemptying hloop
  · have hstart : RinseSm.start c v m = ⟨c, 1, .emptying, true⟩ := by
      simp only [RinseSm.start, if_neg hfill]
    rw [if_neg hfill]
    simp only [runRinseSm, hstart] at h
    exact hemptying l h

/-- Up to 254 cycles the rinse ends with its completion. -/
theorem completes_runRinseSm (hc : c < 255) {l : List RinseEvent} :
    (runRinseSm speedMlMin c v m).Trace Act.rinseEvent l () ↔
      l = (firstMotions (m - 1 / 100 ≤ v) ++ emptiesOnly (max c 1 - 1)).map .motion ++
        [.result .rinseComplete] := by
  have hrest : ∀ l', (rinseLoop (mlMinToHz speedMlMin) (.repeating c 1)).Trace Act.rinseEvent
      l' () ↔ l' = (emptiesOnly (max c 1 - 1)).map .motion ++ [.result .rinseComplete] :=
    fun l' => trace_repeating hc (max c 1 - 1) le_rfl (by omega)
  simp [trace_runRinseSm, hrest]

/-- No cycles from a burette that is not full take three calls. -/
theorem three_calls (hfill : v < m - 1 / 100) (speedMlMin : ℚ) : ∃ l q,
    (runRinseSm speedMlMin 0 v m).Reaches Act.volumeRead l q ∧ l.length = 3 := by
  have hends : (runRinseSm speedMlMin 0 v m).Trace Act.rinseEvent _ () :=
    (completes_runRinseSm (by decide)).mpr rfl
  obtain ⟨l, hl⟩ := hends.observe Act.volumeRead
  refine ⟨l, _, hl.reaches, ?_⟩
  have hstart : RinseSm.start 0 v m = ⟨0, 1, .preFill, true⟩ := by
    simp only [RinseSm.start, if_pos hfill]
  simp only [runRinseSm, hstart, if_true] at hl
  obtain ⟨_, l₁, l₂, rfl, hfirst, hloop⟩ := Program.trace_bind.mp hl
  rw [(strokes_leaveVolumeUnread _).only_moveFill.trace_nil volumeRead_eq_none hfirst]
  obtain ⟨l₃, rfl, hempty⟩ := calls_rinseLoop rfl hloop
  obtain ⟨l₄, rfl, hfilled⟩ := calls_rinseLoop rfl hempty
  obtain ⟨l₅, rfl, hdone⟩ := calls_rinseLoop rfl hfilled
  obtain ⟨-, rfl⟩ := Program.trace_ret.mp hdone
  rfl

/-- The rinse makes at most two calls for each cycle and two more, unless it has 255 cycles, or none
and a burette that is not full. -/
theorem rinse_completesWithin_iff (hc : c < 256) :
    CompletesWithin (2 * c + 2) (runRinseSm speedMlMin c v m) ↔
      c < 255 ∧ (v < m - 1 / 100 → 1 ≤ c) := by
  constructor
  · intro h
    have hlt : c < 255 := by
      by_contra hge
      obtain rfl : c = 255 := by omega
      obtain ⟨l, hl⟩ := h.ends
      exact not_trace_runRinseSm hl
    refine ⟨hlt, fun hfill => ?_⟩
    by_contra hzero
    obtain rfl : c = 0 := by omega
    obtain ⟨l, q, hreach, hthree⟩ := three_calls hfill speedMlMin
    have hcalls := h.calls l q hreach
    omega
  · rintro ⟨hlt, hfill⟩
    refine ⟨⟨_, (completes_runRinseSm hlt).mpr rfl⟩, fun l hl => ?_, fun l q hl => ?_⟩
    · rw [(completes_runRinseSm hlt).mp hl]
      exact List.getLast?_concat ..
    · have hcalls := calls_runRinseSm hlt hl
      by_cases hv : v < m - 1 / 100
      · have hone := hfill hv
        rw [if_pos hv] at hcalls
        omega
      · rw [if_neg hv] at hcalls
        omega

end

/-- Three cycles with an empty burette. -/
theorem rinse_completesWithin_three :
    CompletesWithin (2 * 3 + 2) (runRinseSm 10 3 0 (CalibrationData.default.nominalVolumeMl)) :=
  (rinse_completesWithin_iff (by decide)).mpr ⟨by decide, fun _ => by decide⟩

/-- With 255 cycles the rinse of a full burette does not come to its end. -/
theorem rinse_neverCompletes : ¬ CompletesWithin (2 * 255 + 2) (runRinseSm 10 255 10 10) := by
  intro h
  obtain ⟨l, hl⟩ := h.ends
  exact not_trace_runRinseSm hl

end Ecotiter
