import Ecotiter.Histories
import Ecotiter.SequentialRuns

/-!
# The result queue

The queue holds one result. The motor task overwrites it, the main loop takes the result out to
write its line, and `cal.getResult` looks at it without taking it. What the queue holds is therefore
the last published result, until the main loop has drained it.
-/

namespace Ecotiter
open Interleaving Firmware

namespace Event

/-- The result an event puts into the queue. -/
def publishes : Event → Option SmResult
  | .did _ (.xQueueOverwrite r) _ _ => some r
  | _ => none

/-- The event empties the queue. -/
def drains : Event → Bool
  | .did _ .waitResult _ _ => true
  | _ => false

end Event

/-- The last result that was published. -/
def published : List Event → Option SmResult
  | [] => none
  | ev :: past => ev.publishes.or (published past)

/-- The main loop has looked into the queue since the last result was published. -/
def drained : List Event → Bool
  | [] => false
  | ev :: past => ev.publishes.isNone && (ev.drains || drained past)

/-- The result that waits to be read. -/
def unread (past : List Event) : Option SmResult := if drained past then none else published past

/-- The result queue exists. -/
def MotorPhase.hasResults : MotorPhase → Bool
  | .unborn | .created => false
  | _ => true

theorem unread_keeps {ev : Event} {past : List Event} (hp : ev.publishes = none)
    (hd : ev.drains = false) : unread (ev :: past) = unread past := by
  simp [unread, published, drained, hp, hd]

theorem unread_publish {ev : Event} {past : List Event} {r : SmResult}
    (hp : ev.publishes = some r) : unread (ev :: past) = some r := by
  simp [unread, published, drained, hp]

theorem unread_drain {ev : Event} {past : List Event} (hp : ev.publishes = none)
    (hd : ev.drains = true) : unread (ev :: past) = none := by
  simp [unread, drained, hp, hd]

theorem published_keeps {ev : Event} {past : List Event} (hp : ev.publishes = none) :
    published (ev :: past) = published past := by
  simp [published, hp]

/-- An action that does not write the queue neither publishes nor drains. -/
theorem Act.notResults {β : Type} {a : Act β} (h : a.writes .smResultQueue = false) (t : Tid)
    (b : β) (m : Mem) :
    (Event.did t a b m).publishes = none ∧ (Event.did t a b m).drains = false := by
  induction a <;> first | exact ⟨rfl, rfl⟩ | cases h

theorem MotorPhase.hasResults_of_move {β : Type} {a : Act β} {b : β} {p q : MotorPhase}
    (h : MotorMove a b p q) (ha : a.writes .smResultQueue = false) :
    q.hasResults = p.hasResults := by
  induction h <;> first | rfl | cases ha

/-- The queue holds the unread result. -/
structure ResultsKept (w : World) : Prop where
  holds : (motorPhase w.past).hasResults → w.mem.smResultQueue = some (unread w.past)
  absent : (motorPhase w.past).hasResults = false → published w.past = none

namespace ResultsKept
variable {w : World} {t : Tid} {β : Type} {a : Act β} {e : Input}

theorem keeps (h : ResultsKept w) (ha : a.writes .smResultQueue = false)
    (hphase : (motorPhase (w.did t a e).past).hasResults = (motorPhase w.past).hasResults) :
    ResultsKept (w.did t a e) := by
  obtain ⟨hpub, hdrain⟩ := Act.notResults ha t (a.run e w.mem).1 w.mem
  have hqueue : (w.did t a e).mem.smResultQueue = w.mem.smResultQueue := Act.run_same ha e w.mem
  constructor
  · intro hr
    rw [hqueue, World.did_past, unread_keeps hpub hdrain]
    exact h.holds (hphase.symm.trans hr)
  · intro hr
    rw [World.did_past, published_keeps hpub]
    exact h.absent (hphase.symm.trans hr)

theorem publish {r : SmResult} {op : Op} (h : ResultsKept w)
    (hr : (motorPhase w.past).hasResults)
    (hs : MotorStep w (.xQueueOverwrite r) e (.running op .published)) :
    ResultsKept (w.did .motor (.xQueueOverwrite r) e) := by
  constructor
  · intro _
    rw [World.did_past, unread_publish rfl, World.did_mem]
    simp only [Act.run, h.holds hr, Option.map_some]
  · intro hnone
    rw [hs.motor] at hnone
    cases hnone

theorem motor {q : MotorPhase} (h : ResultsKept w) (hs : MotorStep w a e q) :
    ResultsKept (w.did .motor a e) := by
  by_cases hw : a.writes .smResultQueue = false
  · refine h.keeps hw ?_
    rw [hs.motor, MotorPhase.hasResults_of_move hs.move hw]
  · have hmove := hs.move
    generalize hb : (a.run e w.mem).1 = b at hmove
    generalize hp : motorPhase w.past = p at hmove
    induction hmove with
    | createResults =>
      have hnone : published w.past = none := h.absent (by rw [hp]; rfl)
      refine ⟨fun _ => ?_, fun hr => ?_⟩
      · rw [World.did_past, unread_keeps rfl rfl, unread, hnone, ite_self]
        rfl
      · rw [hs.motor] at hr
        cases hr
    | publish hop => exact h.publish (by rw [hp]; rfl) hs
    | publishSteps hop hplace => exact h.publish (by rw [hp]; rfl) hs
    | _ => exact absurd rfl hw

theorem drain (h : ResultsKept w)
    (hmotor : motorPhase (w.did t .waitResult e).past = motorPhase w.past) :
    ResultsKept (w.did t .waitResult e) := by
  constructor
  · intro hr
    rw [hmotor] at hr
    rw [World.did_past, unread_drain rfl rfl, World.did_mem]
    simp only [Act.run, h.holds hr, Option.map_some]
  · intro hr
    rw [hmotor] at hr
    exact h.absent hr

theorem client {q : ClientPhase} (h : ResultsKept w) (hs : ClientStep w t a e q) :
    ResultsKept (w.did t a e) := by
  by_cases hw : a.writes .smResultQueue = false
  · exact h.keeps hw (by rw [hs.motor])
  · have hmove := hs.move
    generalize hb : (a.run e w.mem).1 = b at hmove
    generalize hp : clientPhase t w.past = p at hmove
    induction hmove with
    | waitNone hmain => exact h.drain hs.motor
    | takeResult hmain => exact h.drain hs.motor
    | _ => exact absurd rfl hw

end ResultsKept

theorem resultsKept {b : Boot} {c : Config Act Tid World} (h : Reachable b c) :
    ResultsKept c.shared := by
  refine system_invariant h ⟨nofun, fun _ => rfl⟩ ?_ ?_ ?_ ?_
  · intro w t β a e hI hs
    exact hI.keeps (Act.writes_of_quiet hs.quiet _) (by rw [hs.motor])
  · intro w β a e q hI _ hs
    exact hI.motor hs
  · intro w t β a e q hI _ hs
    exact hI.client hs
  · intro w h m hI _ hm
    have hqueue : m.smResultQueue = w.mem.smResultQueue :=
      Happening.run_internal (f := .smResultQueue) hm rfl
    constructor
    · intro hr
      rw [unread_keeps rfl rfl, ← hI.holds hr, ← hqueue]
    · exact hI.absent

/-- What every look into the queue finds, in any run: the last published result, if the main loop has
not drained it. -/
theorem peekResult_unread {b : Boot} {c : Config Act Tid World} (h : Reachable b c)
    (hpub : (published c.shared.past).isSome) (e : Input) :
    (Act.peekResult.run e c.shared.mem).1 = unread c.shared.past := by
  have hkept := resultsKept h
  have hr : (motorPhase c.shared.past).hasResults = true := by
    by_contra hr
    rw [hkept.absent (by simpa using hr)] at hpub
    cases hpub
  simp [Act.run, hkept.holds hr]

/-- The types of the results of `calDose`, `calSpeed` and `calSpeedSeq`. -/
def SmResultType.isCalibration : SmResultType → Bool
  | .calDoseComplete | .calSpeedComplete | .calSpeedSeqComplete => true
  | _ => false

/-- The response is that of `cal.getResult` for this result. -/
def Reports (r : SmResult) (rsp : CommandResponse) (_ : Mem) : Prop :=
  rsp.body = .calResult (some r)

/-- A `cal.getResult` dispatched in this state answers with the result. -/
def Readable (t : Tid) (cmd : Command) (r : SmResult) (w : World) : Prop :=
  (dispatch cmd).Post (.any device) t (fun rsp w' => Reports r rsp w'.mem) w

theorem readable_iff {t : Tid} {cmd : Command} {r : SmResult} {w : World}
    (hrun : w.mem.aborted = false) (hcmd : cmd.type = .calGetResult) (hr : r.type ≠ .none) :
    Readable t cmd r w ↔ w.mem.smResultQueue.join = some r := by
  have hhandler : handlerOf cmd = BuretteCal.handleGetCalResult := by rw [handlerOf, hcmd]
  rw [Readable, leaves_iff, dispatch, withId, hhandler, BuretteCal.handleGetCalResult]
  cases hq : w.mem.smResultQueue.join with
  | none => simp [Act.run, hrun, hq, Reports]
  | some r' =>
    by_cases hnone : r'.type = .none
    · have hne : r' ≠ r := fun h => hr (h ▸ hnone)
      simp [Act.run, hrun, hq, hnone, hne, Reports]
    · simp [Act.run, hrun, hq, hnone, Reports]

/-- In every reachable state a calibration result that is the last one published can be read exactly
until the main loop has looked into the queue. -/
theorem result_readable_iff {b : Boot} {c : Config Act Tid World} (h : Reachable b c)
    (hrun : c.shared.mem.aborted = false) {r : SmResult}
    (hpub : published c.shared.past = some r) (hr : r.type.isCalibration) {t : Tid} {cmd : Command}
    (hcmd : cmd.type = .calGetResult) :
    Readable t cmd r c.shared ↔ drained c.shared.past = false := by
  have hnone : r.type ≠ .none := fun ht => by rw [ht] at hr; cases hr
  have hpeek := peekResult_unread h (by rw [hpub]; rfl) .nothing
  rw [readable_iff hrun hcmd hnone]
  simp only [Act.run] at hpeek
  rw [hpeek, unread, hpub]
  cases drained c.shared.past <;> simp

/-- The switch is left and reached again. -/
def Script.reach (e : Endstop) : Script :=
  [.env (.level e false), .env (.level e true), .env (.interrupt e)]

/-- A dose calibration whose one motion ends at the EMPTY switch, up to its publication. -/
def Script.calibratedDose : Script :=
  boot ++ turns .http 1 ++ request .http { type := .calRun, mode := some "dose" } 10 ++
    reach .empty ++ turns .motor 13 ++ reach .empty ++ turns .motor 9

/-- The main loop writes the line of the result. -/
def Script.lineWritten : Script := calibratedDose ++ turns .main 14

theorem readable_afterDose : ∃ c r, Reachable {} c ∧ published c.shared.past = some r ∧
    (Readable .http { type := .calGetResult } r c.shared ↔ drained c.shared.past = false) := by
  have hrun : (device.run (Guard.any device) Script.calibratedDose (Boot.config {})).any
      (fun c => !c.shared.mem.aborted &&
        (published c.shared.past).any fun r => r.type.isCalibration) = true := by decide +kernel
  obtain ⟨c, hsteps, hc⟩ := Machine.exists_of_run hrun
  obtain ⟨hrunning, hpub⟩ := (Bool.and_eq_true _ _).mp hc
  obtain ⟨r, hr, hcal⟩ := (Option.any_eq_true _ _).mp hpub
  exact ⟨c, r, hsteps.weaken, hr,
    result_readable_iff hsteps.weaken (by simpa using hrunning) hr hcal rfl⟩

/-- Once the main loop has written the line of the result, it can no longer be read. -/
theorem result_lost_after_line : ∃ c r, Reachable {} c ∧ c.shared.mem.aborted = false ∧
    published c.shared.past = some r ∧ r.type.isCalibration = true ∧
    ¬ Readable .http { type := .calGetResult } r c.shared := by
  have hrun : (device.run (Guard.any device) Script.lineWritten (Boot.config {})).any
      (fun c => !c.shared.mem.aborted && drained c.shared.past &&
        (published c.shared.past).any fun r => r.type.isCalibration) = true := by decide +kernel
  obtain ⟨c, hsteps, hc⟩ := Machine.exists_of_run hrun
  simp only [Bool.and_eq_true, Bool.not_eq_true'] at hc
  obtain ⟨⟨hrunning, hdrained⟩, hpub⟩ := hc
  obtain ⟨r, hr, hcal⟩ := (Option.any_eq_true _ _).mp hpub
  refine ⟨c, r, hsteps.weaken, hrunning, hr, hcal, fun hread => ?_⟩
  have hnone : r.type ≠ .none := fun ht => by rw [ht] at hcal; cases hcal
  have hqueue := (readable_iff hrunning rfl hnone).mp hread
  have hpeek := peekResult_unread hsteps.weaken (by rw [hr]; rfl) .nothing
  simp only [Act.run] at hpeek
  rw [hpeek, unread, hdrained] at hqueue
  cases hqueue

end Ecotiter
