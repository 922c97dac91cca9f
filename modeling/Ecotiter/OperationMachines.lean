import Ecotiter.Calibration

/-!
# The state machines of the motor operations

`RinseSm`, `CalDoseSm`, `CalSpeedSingleSm` and `CalSpeedSeqSm`: each transition takes the machine
and returns the new machine with the action it asks for. Cycle counters are `uint8_t` and
millisecond readings `uint32_t`, so their sums and differences are reduced.
-/

namespace Ecotiter

/-- The difference of two `uint32_t` values. -/
def subU32 (a b : ℕ) : ℕ := (a + (2 ^ 32 - b % 2 ^ 32)) % 2 ^ 32

inductive RinseAction
  | fillToLimit | emptyToLimit | complete | error
  deriving DecidableEq, Repr

inductive RinsePhase
  | preFill | emptying | filling | done
  deriving DecidableEq, Repr

structure RinseSm where
  totalCycles : ℕ
  currentCycle : ℕ
  phase : RinsePhase
  started : Bool
  deriving DecidableEq, Repr

namespace RinseSm

def start (cycles : ℕ) (currentVolumeMl nominalVolumeMl : ℚ) : RinseSm where
  totalCycles := cycles
  currentCycle := 1
  started := true
  phase := if currentVolumeMl < nominalVolumeMl - 1 / 100 then .preFill else .emptying

/-- The volumes the source passes here are not read. -/
def onMotorComplete (sm : RinseSm) : RinseAction × RinseSm :=
  if !sm.started then (.error, sm)
  else match sm.phase with
    | .preFill => (.emptyToLimit, { sm with phase := .emptying })
    | .emptying => (.fillToLimit, { sm with phase := .filling })
    | .filling =>
      let sm := { sm with currentCycle := toU8 (sm.currentCycle + 1) }
      if sm.totalCycles < sm.currentCycle then
        (.complete, { sm with phase := .done, started := false })
      else (.emptyToLimit, sm)
    | .done => (.complete, sm)

def isComplete (sm : RinseSm) : Bool := sm.phase = .done

end RinseSm

inductive CalDoseAction
  | fillToLimit | emptyToLimit | complete | error
  deriving DecidableEq, Repr

inductive StrokePhase
  | idle | filling | emptying | done
  deriving DecidableEq, Repr

structure CalDoseSm where
  phase : StrokePhase
  stepsBefore : ℤ
  stepsTaken : ℤ
  started : Bool
  deriving DecidableEq, Repr

namespace CalDoseSm

def start : CalDoseSm := ⟨.idle, 0, 0, true⟩

def onStart (sm : CalDoseSm) (currentVolumeMl nominalVolumeMl : ℚ) : CalDoseAction × CalDoseSm :=
  if !sm.started then (.error, sm)
  else if currentVolumeMl < nominalVolumeMl - 1 / 10 then
    (.fillToLimit, { sm with phase := .filling })
  else (.emptyToLimit, { sm with phase := .emptying })

def onFillComplete (sm : CalDoseSm) (position : ℤ) : CalDoseAction × CalDoseSm :=
  (.emptyToLimit, { sm with stepsBefore := position, phase := .emptying })

def onEmptyComplete (sm : CalDoseSm) (position : ℤ) : CalDoseAction × CalDoseSm :=
  let diff := toI32 (position - sm.stepsBefore)
  (.complete,
    { sm with stepsTaken := if 0 < diff then diff else toI32 (-diff), phase := .done,
              started := false })

end CalDoseSm

inductive CalSpeedAction
  | fillToLimit | emptyToLimit | complete | error | settleValve
  deriving DecidableEq, Repr

structure CalSpeedSingleSm where
  phase : StrokePhase
  elapsedMs : ℕ
  measuredSpeedMlMin : ℚ
  started : Bool
  deriving DecidableEq, Repr

namespace CalSpeedSingleSm

def start : CalSpeedSingleSm := ⟨.idle, 0, 0, true⟩

def onStart (sm : CalSpeedSingleSm) (currentVolumeMl nominalVolumeMl : ℚ) :
    CalSpeedAction × CalSpeedSingleSm :=
  if !sm.started then (.error, sm)
  else if currentVolumeMl < nominalVolumeMl - 1 / 10 then
    (.fillToLimit, { sm with phase := .filling })
  else (.emptyToLimit, { sm with phase := .emptying })

def onFillComplete (sm : CalSpeedSingleSm) (nowMs : ℕ) : CalSpeedAction × CalSpeedSingleSm :=
  (.emptyToLimit, { sm with phase := .emptying, elapsedMs := nowMs })

def onEmptyComplete (sm : CalSpeedSingleSm) (nowMs : ℕ) (nominalVolumeMl : ℚ) :
    CalSpeedAction × CalSpeedSingleSm :=
  let diff := subU32 nowMs sm.elapsedMs
  let diff := if diff = 0 then 1 else diff
  (.complete,
    { phase := .done, elapsedMs := diff, measuredSpeedMlMin := nominalVolumeMl / (diff / 60000),
      started := false })

end CalSpeedSingleSm

inductive CalSpeedSeqPhase
  | idle | fillFirst | valveSettleAfterFill | empty | valveSettleAfterEmpty | nextPoint | done
  deriving DecidableEq, Repr

structure CalSpeedSeqSm where
  phase : CalSpeedSeqPhase
  freqs : List ℕ
  results : List ℚ
  seqIdx : ℕ
  elapsedMs : ℕ
  valveSettleStartMs : ℕ
  firstEver : Bool
  started : Bool
  deriving DecidableEq, Repr

namespace CalSpeedSeqSm

def valveSwitchMs : ℕ := 1000
def calSeqPoints : ℕ := 3

def start (freqs : List ℕ) : CalSpeedSeqSm where
  freqs := freqs
  results := [0, 0, 0]
  seqIdx := 0
  elapsedMs := 0
  valveSettleStartMs := 0
  firstEver := true
  phase := .fillFirst
  started := true

def onTick (sm : CalSpeedSeqSm) (nowMs : ℕ) : CalSpeedAction × CalSpeedSeqSm :=
  if !sm.started then (.error, sm)
  else match sm.phase with
    | .idle => (.complete, sm)
    | .fillFirst =>
      (.settleValve, { sm with phase := .valveSettleAfterFill, valveSettleStartMs := nowMs })
    | .valveSettleAfterFill =>
      if valveSwitchMs ≤ subU32 nowMs sm.valveSettleStartMs then
        (.emptyToLimit, { sm with phase := .empty, elapsedMs := nowMs })
      else (.settleValve, sm)
    | .empty =>
      let diff := subU32 nowMs sm.elapsedMs
      let speed : ℚ := if 0 < diff then 50 / (diff / 60000) else 0
      let sm := { sm with results := sm.results.set sm.seqIdx speed, seqIdx := sm.seqIdx + 1 }
      if calSeqPoints ≤ sm.seqIdx then
        (.complete, { sm with phase := .done, started := false })
      else
        (.settleValve, { sm with phase := .valveSettleAfterEmpty, valveSettleStartMs := nowMs })
    | .valveSettleAfterEmpty =>
      if valveSwitchMs ≤ subU32 nowMs sm.valveSettleStartMs then
        (.fillToLimit, { sm with phase := .fillFirst })
      else (.settleValve, sm)
    | .nextPoint | .done => (.complete, sm)

def isComplete (sm : CalSpeedSeqSm) : Bool := sm.phase = .done

end CalSpeedSeqSm
end Ecotiter
