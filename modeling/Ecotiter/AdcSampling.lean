import Ecotiter.OrderStatistics
import Ecotiter.ResponseTexts

/-!
# The points of the ADC calibration

`handleAdcCalMeasure` of `handlers/sensors.cpp` looks for a batch of samples that is stable and
stores its median as the next point. The table holds the measurements that were accepted since the
last reset, whatever commands arrive and whatever the samples are.
-/

namespace Ecotiter
open Interleaving OrderStatistics

namespace Config

def adcCalStabSamples : ℕ := 32
def adcCalStabTolerance : ℕ := 5
def adcCalStabMaxAttempts : ℕ := 10

end Config

namespace Sensors

/-- What `readSample` answers from one position of the stream on. -/
def batch (samples : ℕ → UInt16) (pos : ℕ) : List ℕ :=
  (List.range Config.adcCalStabSamples).map fun i => (samples (pos + i)).toNat

def minVal (b : List ℕ) : ℕ := extreme (· < ·) (b.headD 0) b.tail

def maxVal (b : List ℕ) : ℕ := extreme (· > ·) (b.headD 0) b.tail

def isStable (b : List ℕ) : Bool := maxVal b - minVal b ≤ Config.adcCalStabTolerance

/-- The loop of attempts: the batch that is stable, and the position behind what was read. -/
def stabilise (samples : ℕ → UInt16) : ℕ → ℕ → Option (List ℕ) × ℕ
  | 0, pos => (none, pos)
  | attempts + 1, pos =>
    let b := batch samples pos
    if isStable b then (some b, pos + Config.adcCalStabSamples)
    else stabilise samples attempts (pos + Config.adcCalStabSamples)

def median (b : List ℕ) : ℕ := (b.insertionSort (· ≤ ·)).getD (Config.adcCalStabSamples / 2) 0

/-- The answer, the memory, and the position in the stream. -/
def handleAdcCalMeasure (refMv : Option ℚ) (samples : ℕ → UInt16) (m : AdcMem) (pos : ℕ) :
    Reply × AdcMem × ℕ :=
  match refMv with
  | none => (.body (.error "adc.cal.measure requires 'ref_mv' param"), m, pos)
  | some refMv =>
    if Config.adcCalMaxPoints ≤ m.pointCount then
      (.body (.error "all points collected — call adc.cal.compute or adc.cal.reset"), m, pos)
    else
      match stabilise samples Config.adcCalStabMaxAttempts pos with
      | (none, pos) => (.body (.error "signal not stable — check probe connection"), m, pos)
      | (some b, pos) =>
        (.adcMeasured m.pointCount (median b),
          { m with
            points := m.points.set m.pointCount ⟨refMv, median b, true⟩
            pointCount := m.pointCount + 1 }, pos)

end Sensors
open Sensors

/-! ## Sessions -/

inductive AdcCommand
  | get
  | measure (refMv : Option ℚ)
  | compute
  | save (aX1000 : Option UInt16) (b : Option Int16)
  | reset
  deriving DecidableEq

/-- The reply of a handler that wrote to the flash. -/
def savedReply (rsp : CommandResponse) (done : Reply) : Reply :=
  if rsp.kind = .error then .body rsp.body else done

/-- One command is served to its end; the flash accepts a write or not. -/
inductive AdcStep (samples : ℕ → UInt16) :
    AdcMem × ℕ → AdcCommand → Reply → AdcMem × ℕ → Prop
  | get (m : AdcMem) (pos : ℕ) :
      AdcStep samples (m, pos) .get (.adcReport (handleAdcCalGet m)) (m, pos)
  | measure (refMv : Option ℚ) (m : AdcMem) (pos : ℕ) :
      AdcStep samples (m, pos) (.measure refMv) (handleAdcCalMeasure refMv samples m pos).1
        (handleAdcCalMeasure refMv samples m pos).2
  | compute (m : AdcMem) (pos : ℕ) :
      AdcStep samples (m, pos) .compute
        (match (handleAdcCalCompute m).1 with
          | .error rsp => .body rsp.body
          | .computed a b rSquared => .adcComputed a b rSquared)
        ((handleAdcCalCompute m).2, pos)
  | save {m m' : AdcMem} {rsp : CommandResponse} (aX1000 : Option UInt16) (b : Option Int16)
      (pos : ℕ) :
      (handleAdcCalSave aX1000 b).Ends (.any adcMachine) () m rsp m' →
      AdcStep samples (m, pos) (.save aX1000 b)
        (savedReply rsp (.adcSaved m'.pendingAX1000 m'.pendingB)) (m', pos)
  | reset {m m' : AdcMem} {rsp : CommandResponse} (pos : ℕ) :
      handleAdcCalReset.Ends (.any adcMachine) () m rsp m' →
      AdcStep samples (m, pos) .reset (savedReply rsp .adcReset) (m', pos)

/-- Commands with their replies, the latest last. -/
inductive AdcRun (samples : ℕ → UInt16) (s : AdcMem × ℕ) :
    List (AdcCommand × Reply) → AdcMem × ℕ → Prop
  | nil : AdcRun samples s [] s
  | step {log : List (AdcCommand × Reply)} {s' s'' : AdcMem × ℕ} {cmd : AdcCommand}
      {reply : Reply} : AdcRun samples s log s' → AdcStep samples s' cmd reply s'' →
      AdcRun samples s (log ++ [(cmd, reply)]) s''

/-- The measurements accepted since the last reset, after one more reply. -/
def accept (points : List AdcCalPoint) : AdcCommand × Reply → List AdcCalPoint
  | (.reset, _) => []
  | (.measure (some refMv), .adcMeasured _ median) => points ++ [⟨refMv, median, true⟩]
  | _ => points

def accepted (log : List (AdcCommand × Reply)) : List AdcCalPoint := log.foldl accept []

/-! ## One batch -/

/-- No two samples differ by more than the tolerance. -/
def Stable (b : List ℕ) : Prop := ∀ x ∈ b, ∀ y ∈ b, x ≤ y + Config.adcCalStabTolerance

theorem isStable_iff {b : List ℕ} (hb : b ≠ []) : isStable b = true ↔ Stable b := by
  obtain ⟨x, l, rfl⟩ := List.exists_cons_of_ne_nil hb
  have hmin := extreme_mem (r := (· < ·)) x l
  have hmax := extreme_mem (r := (· > ·)) x l
  have hbelow := not_beyond_extreme (r := (· < ·)) x l
  have habove := not_beyond_extreme (r := (· > ·)) x l
  simp only [isStable, decide_eq_true_eq]
  change extreme (· > ·) x l - extreme (· < ·) x l ≤ Config.adcCalStabTolerance ↔ _
  constructor
  · intro h y hy z hz
    have hlow := hbelow z hz
    have hhigh := habove y hy
    omega
  · intro h
    have hspread := h _ hmax _ hmin
    omega

theorem length_batch (samples : ℕ → UInt16) (pos : ℕ) :
    (batch samples pos).length = Config.adcCalStabSamples := by
  rw [batch, List.length_map, List.length_range]

theorem isStable_batch {samples : ℕ → UInt16} {pos : ℕ} :
    isStable (batch samples pos) = true ↔ Stable (batch samples pos) := by
  apply isStable_iff
  intro h
  exact absurd (length_batch samples pos) (by rw [h]; decide)

theorem hasRank_median (samples : ℕ → UInt16) (pos : ℕ) :
    HasRank (Config.adcCalStabSamples / 2) (median (batch samples pos)) (batch samples pos) := by
  apply hasRank_insertionSort
  rw [length_batch]
  decide

/-- The attempts end with the first batch that is stable. -/
theorem stabilise_spec (samples : ℕ → UInt16) (attempts pos : ℕ) :
    (∃ k, k < attempts ∧ Stable (batch samples (pos + 32 * k)) ∧
      stabilise samples attempts pos =
        (some (batch samples (pos + 32 * k)), pos + 32 * k + 32)) ∨
    (∀ k, k < attempts → ¬ Stable (batch samples (pos + 32 * k))) ∧
      stabilise samples attempts pos = (none, pos + 32 * attempts) := by
  induction attempts generalizing pos with
  | zero => exact .inr ⟨fun k hk => absurd hk (Nat.not_lt_zero k), rfl⟩
  | succ attempts ih =>
    by_cases hstable : isStable (batch samples pos) = true
    · refine .inl ⟨0, Nat.succ_pos _, isStable_batch.mp hstable, ?_⟩
      rw [stabilise, if_pos hstable]
      rfl
    · have hnext : stabilise samples (attempts + 1) pos = stabilise samples attempts (pos + 32) := by
        rw [stabilise, if_neg hstable]
        rfl
      have hshift : ∀ k, pos + 32 + 32 * k = pos + 32 * (k + 1) := by
        intro k
        omega
      rw [hnext]
      rcases ih (pos + 32) with ⟨k, hk, hbatch, heq⟩ | ⟨hnone, heq⟩
      · rw [hshift] at hbatch heq
        exact .inl ⟨k + 1, Nat.succ_lt_succ hk, hbatch, heq⟩
      · rw [hshift] at heq
        refine .inr ⟨fun k hk => ?_, heq⟩
        cases k with
        | zero => exact fun h => hstable (isStable_batch.mpr h)
        | succ k => exact hshift k ▸ hnone k (Nat.lt_of_succ_lt_succ hk)

/-! ## One command -/

/-- The point holds the upper median of a stable batch among the samples read in between. -/
def AdcCalPoint.Measured (samples : ℕ → UInt16) (first last : ℕ) (p : AdcCalPoint) : Prop :=
  ∃ pos, first ≤ pos ∧ pos + Config.adcCalStabSamples ≤ last ∧ Stable (batch samples pos) ∧
    HasRank (Config.adcCalStabSamples / 2) p.rawMv (batch samples pos)

theorem AdcCalPoint.Measured.mono {samples : ℕ → UInt16} {first last last' : ℕ} {p : AdcCalPoint}
    (h : p.Measured samples first last) (hle : last ≤ last') : p.Measured samples first last' := by
  obtain ⟨pos, hfirst, hlast, hbatch⟩ := h
  exact ⟨pos, hfirst, hlast.trans hle, hbatch⟩

/-- None of the attempts from this position on finds a stable batch. -/
def Unstable (samples : ℕ → UInt16) (pos : ℕ) : Prop :=
  ∀ k < Config.adcCalStabMaxAttempts, ¬ Stable (batch samples (pos + 32 * k))

section
variable {samples : ℕ → UInt16} {first pos pos' : ℕ} {m m' : AdcMem} {cmd : AdcCommand}
  {reply : Reply} {points : List AdcCalPoint}

/-- A measurement is refused, or appends the median of a stable batch. -/
theorem handleAdcCalMeasure_spec (refMv : Option ℚ) :
    ((refMv = none ∨ Config.adcCalMaxPoints ≤ m.pointCount ∨ Unstable samples pos) ∧
      (∃ message, (handleAdcCalMeasure refMv samples m pos).1 = .body (.error message)) ∧
      (handleAdcCalMeasure refMv samples m pos).2.1 = m ∧
      pos ≤ (handleAdcCalMeasure refMv samples m pos).2.2) ∨
    ∃ ref k, refMv = some ref ∧ m.pointCount < Config.adcCalMaxPoints ∧
      k < Config.adcCalStabMaxAttempts ∧ Stable (batch samples (pos + 32 * k)) ∧
      handleAdcCalMeasure refMv samples m pos =
        (.adcMeasured m.pointCount (median (batch samples (pos + 32 * k))),
          { m with
            points := m.points.set m.pointCount
              ⟨ref, median (batch samples (pos + 32 * k)), true⟩
            pointCount := m.pointCount + 1 }, pos + 32 * k + 32) := by
  cases refMv with
  | none => exact .inl ⟨.inl rfl, ⟨_, rfl⟩, rfl, le_rfl⟩
  | some ref =>
    by_cases hfull : Config.adcCalMaxPoints ≤ m.pointCount
    · left
      rw [handleAdcCalMeasure, if_pos hfull]
      exact ⟨.inr (.inl hfull), ⟨_, rfl⟩, rfl, le_rfl⟩
    · have hspec := stabilise_spec samples Config.adcCalStabMaxAttempts pos
      rcases hspec with ⟨k, hk, hstable, heq⟩ | ⟨hnone, heq⟩
      · right
        refine ⟨ref, k, rfl, not_le.mp hfull, hk, hstable, ?_⟩
        rw [handleAdcCalMeasure, if_neg hfull, heq]
      · left
        rw [handleAdcCalMeasure, if_neg hfull, heq]
        exact ⟨.inr (.inr hnone), ⟨_, rfl⟩, rfl, Nat.le_add_right _ _⟩

/-- A save touches neither the points nor their count. -/
theorem points_handleAdcCalSave (aX1000 : Option UInt16) (b : Option Int16) :
    (handleAdcCalSave aX1000 b).Post (.any adcMachine) ()
      (fun _ m' => m'.points = m.points ∧ m'.pointCount = m.pointCount) m := by
  simp [handleAdcCalSave, adcCalibrationWrite, adcMachine, AdcAct.run, Program.post_bind]

theorem points_handleAdcCalReset :
    handleAdcCalReset.Post (.any adcMachine) ()
      (fun _ m' => m'.points = m.points.map clearPoint ∧ m'.pointCount = 0) m := by
  simp [handleAdcCalReset, adcCalibrationWrite, adcMachine, AdcAct.run, Program.post_bind]

/-- The points that count are the given ones, each of them measured. -/
structure Collects (samples : ℕ → UInt16) (first : ℕ) (points : List AdcCalPoint)
    (s : AdcMem × ℕ) : Prop where
  size : s.1.points.length = Config.adcCalMaxPoints
  count : s.1.pointCount ≤ Config.adcCalMaxPoints
  collected : s.1.points.take s.1.pointCount = points
  measured : ∀ p ∈ points, p.Measured samples first s.2
  started : first ≤ s.2

theorem Collects.later {s s' : AdcMem × ℕ} (h : Collects samples first points s)
    (hpoints : s'.1.points = s.1.points) (hcount : s'.1.pointCount = s.1.pointCount)
    (hpos : s.2 ≤ s'.2) : Collects samples first points s' where
  size := hpoints ▸ h.size
  count := hcount ▸ h.count
  collected := by rw [hpoints, hcount, h.collected]
  measured p hp := (h.measured p hp).mono hpos
  started := h.started.trans hpos

theorem Collects.cleared {s s' : AdcMem × ℕ} (h : Collects samples first points s)
    (hpoints : s'.1.points = s.1.points.map clearPoint) (hcount : s'.1.pointCount = 0)
    (hpos : s.2 ≤ s'.2) : Collects samples first [] s' where
  size := by rw [hpoints, List.length_map, h.size]
  count := by omega
  collected := by rw [hcount, List.take_zero]
  measured p hp := absurd hp List.not_mem_nil
  started := h.started.trans hpos

theorem Collects.appended {s s' : AdcMem × ℕ} {p : AdcCalPoint}
    (h : Collects samples first points s) (hroom : s.1.pointCount < Config.adcCalMaxPoints)
    (hpoints : s'.1.points = s.1.points.set s.1.pointCount p)
    (hcount : s'.1.pointCount = s.1.pointCount + 1) (hp : p.Measured samples first s'.2)
    (hpos : s.2 ≤ s'.2) : Collects samples first (points ++ [p]) s' where
  size := by rw [hpoints, List.length_set, h.size]
  count := by omega
  collected := by
    have hlt : s.1.pointCount < (s.1.points.set s.1.pointCount p).length := by
      rw [List.length_set, h.size]
      exact hroom
    rw [hpoints, hcount, List.take_add_one, List.take_set_of_le le_rfl, h.collected,
      List.getElem?_eq_getElem hlt, List.getElem_set_self, Option.toList_some]
  measured q hq := by
    rcases List.mem_append.mp hq with hq | hq
    · exact (h.measured q hq).mono hpos
    · rwa [List.mem_singleton.mp hq]
  started := h.started.trans hpos

theorem Collects.step {s s' : AdcMem × ℕ} (h : Collects samples first points s)
    (hstep : AdcStep samples s cmd reply s') :
    Collects samples first (accept points (cmd, reply)) s' := by
  have hstarted := h.started
  induction hstep with
  | get m pos => exact h
  | measure refMv m pos =>
    rcases handleAdcCalMeasure_spec refMv with ⟨-, ⟨message, hreply⟩, hmem, hpos⟩ |
      ⟨ref, k, rfl, hroom, -, hstable, heq⟩
    · have hsame : accept points (.measure refMv, (handleAdcCalMeasure refMv samples m pos).1) =
          points := by
        rw [hreply]
        cases refMv <;> rfl
      rw [hsame]
      exact h.later (by rw [hmem]) (by rw [hmem]) hpos
    · have hrank := hasRank_median samples (pos + 32 * k)
      rw [heq]
      generalize median (batch samples (pos + 32 * k)) = value at hrank ⊢
      have hmeasured : AdcCalPoint.Measured samples first (pos + 32 * k + 32) ⟨ref, value, true⟩ :=
        ⟨pos + 32 * k, hstarted.trans (Nat.le_add_right _ _), le_rfl, hstable, hrank⟩
      exact h.appended hroom rfl rfl hmeasured (by dsimp only; omega)
  | compute m pos =>
    have hmem : (handleAdcCalCompute m).2.points = m.points ∧
        (handleAdcCalCompute m).2.pointCount = m.pointCount := by
      unfold handleAdcCalCompute
      split
      · exact ⟨rfl, rfl⟩
      · dsimp only
        split <;> exact ⟨rfl, rfl⟩
    exact h.later hmem.1 hmem.2 le_rfl
  | save aX1000 b pos hends =>
    obtain ⟨hpoints, hcount⟩ := points_handleAdcCalSave aX1000 b _ _ hends
    exact h.later hpoints hcount le_rfl
  | reset pos hends =>
    obtain ⟨hpoints, hcount⟩ := points_handleAdcCalReset _ _ hends
    exact h.cleared hpoints hcount le_rfl

theorem Collects.run {s s' : AdcMem × ℕ} {log : List (AdcCommand × Reply)}
    (h : Collects samples first [] s) (hrun : AdcRun samples s log s') :
    Collects samples first (accepted log) s' := by
  induction hrun with
  | nil => exact h
  | step _ hstep ih =>
    rw [accepted, List.foldl_append]
    exact ih.step hstep

/-! ## What lies beyond the count -/

/-- The memories differ at most in points that do not count. -/
structure SameCollected (m m' : AdcMem) : Prop where
  others : m' = { m with points := m'.points }
  size : m'.points.length = m.points.length
  collected : m'.points.take m.pointCount = m.points.take m.pointCount

theorem handleAdcCalGet_congr (h : SameCollected m m') :
    handleAdcCalGet m' = handleAdcCalGet m := by
  have hothers := h.others
  have hcollected : m'.collected = m.collected := by
    rw [AdcMem.collected, hothers]
    exact congrArg _ h.collected
  have hread : m'.adcCalibrationRead = m.adcCalibrationRead := by
    rw [hothers]
    rfl
  rw [handleAdcCalGet, handleAdcCalGet, hcollected, hread]

/-- The reply and the pending coefficients do not depend on them. -/
theorem handleAdcCalCompute_congr (hsize : m.points.length = Config.adcCalMaxPoints)
    (h : SameCollected m m') : (handleAdcCalCompute m').1 = (handleAdcCalCompute m).1 ∧
      SameCollected (handleAdcCalCompute m).2 (handleAdcCalCompute m').2 := by
  have hcount : m'.pointCount = m.pointCount := by rw [h.others]
  by_cases hfew : m.pointCount < Config.adcCalMaxPoints
  · rw [handleAdcCalCompute, handleAdcCalCompute, hcount, if_pos hfew, if_pos hfew]
    exact ⟨rfl, h⟩
  · have hall := h.collected
    rw [List.take_of_length_le (by rw [h.size]; omega), List.take_of_length_le (by omega)] at hall
    have heq : m' = m := by rw [h.others, hall]
    rw [heq]
    exact ⟨rfl, rfl, rfl, rfl⟩

end

/-- After power-up nothing has been collected. -/
def AdcMem.booted (aX1000 : Option UInt32) (b : Option Int32) (coeffA : UInt16) (coeffB : Int16) :
    AdcMem where
  nvsAX1000 := aX1000
  nvsB := b
  coeffAX1000 := coeffA
  coeffB := coeffB

theorem collects_booted {samples : ℕ → UInt16} {nvsA : Option UInt32} {nvsB : Option Int32}
    {coeffA : UInt16} {coeffB : Int16} {first : ℕ} {s : AdcMem × ℕ}
    {log : List (AdcCommand × Reply)}
    (h : AdcRun samples (.booted nvsA nvsB coeffA coeffB, first) log s) :
    Collects samples first (accepted log) s :=
  Collects.run ⟨rfl, Nat.zero_le _, rfl, fun _ hp => absurd hp List.not_mem_nil, le_rfl⟩ h

/-- The table is what was accepted, the replies do not depend on points beyond the count, and a
measurement that is refused, for one of three reasons, changes nothing. -/
theorem collection_exact {samples : ℕ → UInt16} {nvsA : Option UInt32} {nvsB : Option Int32}
    {coeffA : UInt16} {coeffB : Int16} {first pos : ℕ} {m : AdcMem}
    {log : List (AdcCommand × Reply)}
    (h : AdcRun samples (.booted nvsA nvsB coeffA coeffB, first) log (m, pos)) :
    m.pointCount ≤ Config.adcCalMaxPoints ∧
    m.points.take m.pointCount = accepted log ∧ m.pointCount = (accepted log).length ∧
    (∀ p ∈ accepted log, p.Measured samples first pos) ∧
    (∀ m', SameCollected m m' → handleAdcCalGet m' = handleAdcCalGet m ∧
      (handleAdcCalCompute m').1 = (handleAdcCalCompute m).1 ∧
      SameCollected (handleAdcCalCompute m).2 (handleAdcCalCompute m').2) ∧
    (∀ refMv,
      ((∃ message, (handleAdcCalMeasure refMv samples m pos).1 = .body (.error message)) ↔
        refMv = none ∨ Config.adcCalMaxPoints ≤ m.pointCount ∨ Unstable samples pos) ∧
      (∀ message, (handleAdcCalMeasure refMv samples m pos).1 = .body (.error message) →
        (handleAdcCalMeasure refMv samples m pos).2.1 = m)) := by
  obtain ⟨hsize, hcount, hcollected, hmeasured, -⟩ := collects_booted h
  refine ⟨hcount, hcollected, ?_, hmeasured, ?_, ?_⟩
  · have hlength := congrArg List.length hcollected
    rwa [List.length_take_of_le (by omega)] at hlength
  · intro m' hsame
    exact ⟨handleAdcCalGet_congr hsame, handleAdcCalCompute_congr hsize hsame⟩
  · intro refMv
    have hspec := @handleAdcCalMeasure_spec samples pos m refMv
    rcases hspec with ⟨hreason, hreply, hmem, -⟩ |
      ⟨ref, k, rfl, hroom, hk, hstable, heq⟩
    · exact ⟨iff_of_true hreply hreason, fun _ _ => hmem⟩
    · rw [heq]
      refine ⟨iff_of_false (by simp) ?_, by simp⟩
      rintro (hnone | hfull | hunstable)
      · cases hnone
      · omega
      · exact hunstable k hk hstable

/-- A steady signal is accepted at once. -/
theorem collection_exact_steady :
    ∃ m : AdcMem, m.points.take m.pointCount = [⟨100, 7, true⟩] ∧
      AdcRun (fun _ => 7) (.booted none none 1000 0, 0)
        [(.measure (some 100), .adcMeasured 0 7), (.get, .adcReport (handleAdcCalGet m))]
        (m, 32) := by
  let s := (handleAdcCalMeasure (some 100) (fun _ => 7) (.booted none none 1000 0) 0).2
  have hpos : s.2 = 32 := rfl
  have hreply : (handleAdcCalMeasure (some 100) (fun _ => 7) (.booted none none 1000 0) 0).1 =
      .adcMeasured 0 7 := rfl
  have hmeasured : AdcRun (fun _ => 7) (.booted none none 1000 0, 0) ([] ++ [_]) _ :=
    .step .nil (.measure (some 100) (.booted none none 1000 0) 0)
  rw [hreply] at hmeasured
  have hstate : (handleAdcCalMeasure (some 100) (fun _ => 7) (.booted none none 1000 0) 0).2 =
      (s.1, 32) := Prod.ext rfl hpos
  rw [hstate] at hmeasured
  have hrun := hmeasured.step (.get s.1 32)
  exact ⟨s.1, (collection_exact hrun).2.1, hrun⟩

end Ecotiter
