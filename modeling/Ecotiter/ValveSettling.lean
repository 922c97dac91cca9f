import Ecotiter.ValveSelection
import Ecotiter.LimitInterlock

/-!
# The settling time of the valve

A runner waits after each selection of a valve position, unless it reads the stop flag of the motion
to come as set. The flag may have been left set by an earlier motion in the same direction: it is
lowered only when the next motion starts.
-/

namespace Ecotiter
open Interleaving

/-- The valve position the motor task selects. -/
def Event.selected : Event → Option ValvePosition
  | .did .motor (.gpioSetLevel .valve level) _ _ => some (if level then .output else .input)
  | _ => none

/-- The time a delay of the motor task takes. -/
def Event.delay : Event → ℕ
  | .did .motor (.vTaskDelay ms) _ _ => ms
  | _ => 0

/-- The milliseconds the motor task has waited since it last selected a valve position. -/
def waitedSinceSelection : List Event → Option ℕ
  | [] => none
  | ev :: past =>
    if ev.selected.isSome then some 0 else (waitedSinceSelection past).map (· + ev.delay)

/-- A client requests a stop or an emergency stop. -/
def Event.requestsStop : Event → Bool
  | .did t (.storeStop _ true) _ _ => t.isClient
  | .did t (.xQueueSend mc) true _ => t.isClient && (mc.type = .stop || mc.type = .emergencyStop)
  | _ => false

/-- A stop was requested after the last selection of a valve position. -/
def stopSinceSelection : List Event → Bool
  | [] => false
  | ev :: past => ev.selected.isNone && (ev.requestsStop || stopSinceSelection past)

/-- The settling time is over or a stop was requested. -/
def SettlingDone (past : List Event) : Prop :=
  stopSinceSelection past ∨ (waitedSinceSelection past).all fun ms => Config.valveSettleMs ≤ ms

instance : DecidablePred SettlingDone := fun past =>
  inferInstanceAs (Decidable (stopSinceSelection past = true ∨
    (waitedSinceSelection past).all (fun ms => Config.valveSettleMs ≤ ms) = true))

/-- No chunk is started before the settling time of the last selection is over. -/
def SettledBeforeMotion : List Event → Prop :=
  Throughout fun ev past => ev.transmits → SettlingDone past

instance : DecidablePred SettledBeforeMotion := decidableThroughout _

/-- The position for which the settling time is running. -/
def ValveChoice.settling : ValveChoice → Option ValvePosition
  | .waiting pos n => if n < slices then some pos else none
  | .slice pos _ => some pos
  | _ => none

def valveChoice (past : List Event) : ValveChoice := phaseAfter choiceProtocol .free .motor past

/-- A position is selected only with its flag clear, and its switch has no interrupt while the
settling time is running. -/
def selectsWithFlagClear : Guard device where
  allows t _ a e w :=
    (Event.did t a (a.run e w.mem).1 w.mem).selected.all fun pos => !w.mem.flag pos.flag
  allowsEnv h w :=
    match h with
    | .interrupt e => (valveChoice w.past).settling.all fun pos => pos.flag ≠ e.flag
    | .level _ _ => true

section History
variable {ev : Event} {past : List Event}

theorem waited_of_not_selected (h : ev.selected = none) :
    waitedSinceSelection (ev :: past) = (waitedSinceSelection past).map (· + ev.delay) := by
  simp [waitedSinceSelection, h]

theorem stopSince_of_not_selected (h : ev.selected = none) :
    stopSinceSelection (ev :: past) = (ev.requestsStop || stopSinceSelection past) := by
  simp [stopSinceSelection, h]

theorem waited_mono (h : ev.selected = none) {k : ℕ}
    (hk : (waitedSinceSelection past).all (k ≤ ·)) :
    (waitedSinceSelection (ev :: past)).all (k ≤ ·) := by
  rw [waited_of_not_selected h]
  cases hw : waitedSinceSelection past with
  | none => rfl
  | some ms =>
    rw [hw] at hk
    have hms : k ≤ ms := of_decide_eq_true hk
    have hlater : k ≤ ms + ev.delay := by omega
    exact decide_eq_true hlater

theorem SettlingDone.mono (h : ev.selected = none) (hd : SettlingDone past) :
    SettlingDone (ev :: past) := by
  rcases hd with hstop | hwaited
  · left
    rw [stopSince_of_not_selected h, hstop, Bool.or_true]
  · right
    exact waited_mono h hwaited

end History

/-- What holds of the history in a phase of the selection. -/
def Settling (past : List Event) : ValveChoice → Prop
  | .waiting _ n => n ≤ ValveChoice.slices ∧ (waitedSinceSelection past).all (10 * n ≤ ·)
  | .slice _ n => n < ValveChoice.slices ∧ (waitedSinceSelection past).all (10 * n ≤ ·)
  | _ => SettlingDone past

/-- The flag of the position is up during the settling time only if a stop was requested. -/
def FlagQuiet (m : Mem) (past : List Event) (c : ValveChoice) : Prop :=
  ∀ pos, c.settling = some pos → m.flag pos.flag = true → stopSinceSelection past = true

theorem Settling.mono {ev : Event} {past : List Event} {c : ValveChoice} (h : ev.selected = none)
    (hs : Settling past c) : Settling (ev :: past) c := by
  cases c with
  | waiting pos n | slice pos n => exact ⟨hs.1, waited_mono h hs.2⟩
  | _ => exact SettlingDone.mono h hs

theorem Event.selected_of_sparesValve {β : Type} {a : Act β} {b : β} {m : Mem}
    (h : a.sparesValve) : (Event.did .motor a b m).selected = none := by
  induction a with
  | gpioSetLevel pin level => cases pin <;> first | rfl | cases h
  | _ => rfl

/-- A selection is made by a move of its own. -/
theorem ChoiceMove.selected {β : Type} {a : Act β} {b : β} {c c' : ValveChoice} {m : Mem}
    {pos : ValvePosition} (h : ChoiceMove a b c c')
    (hs : (Event.did .motor a b m).selected = some pos) : c' = .waiting pos 0 := by
  induction h with
  | select =>
    have hs : some _ = some pos := hs
    cases hs
    rfl
  | within ha =>
    rw [Event.selected_of_sparesValve (Act.sparesValve_of_ofAimed ha)] at hs
    cases hs
  | free ha =>
    rw [Event.selected_of_sparesValve ha] at hs
    cases hs
  | between ha =>
    rw [Event.selected_of_sparesValve (Act.sparesValve_of_ofPause ha)] at hs
    cases hs
  | _ => cases hs

/-- The chunks of a motion are sent outside the settling time. -/
theorem ChoiceMove.settlingDone {β : Type} {a : Act β} {b : β} {c c' : ValveChoice} {m : Mem}
    {past : List Event} (h : ChoiceMove a b c c') (hs : Settling past c)
    (ht : (Event.did .motor a b m).transmits) : SettlingDone past := by
  induction h with
  | within ha => exact hs
  | free ha => exact hs
  | @between _ a _ ha =>
    induction a with
    | rmtTransmit symbols => cases ha
    | _ => cases ht
  | _ => cases ht

/-- The settling time runs on, is over, or is cut short by a flag. -/
theorem ChoiceMove.settling {β : Type} {a : Act β} {c c' : ValveChoice} {e : Input} {m : Mem}
    {past : List Event} (h : ChoiceMove a (a.run e m).1 c c') (hs : Settling past c)
    (hq : FlagQuiet m past c) : Settling (.did .motor a (a.run e m).1 m :: past) c' := by
  cases hsel : (Event.did .motor a (a.run e m).1 m).selected with
  | some pos =>
    rw [h.selected hsel]
    refine ⟨Nat.zero_le _, ?_⟩
    simp [waitedSinceSelection, hsel]
  | none =>
    have hmono : ∀ {c : ValveChoice}, Settling past c →
        Settling (.did .motor a (a.run e m).1 m :: past) c := fun hc => hc.mono hsel
    generalize hb : (a.run e m).1 = b at h hsel hmono
    induction h with
    | select => cases hsel
    | @cut pos n hn =>
      have hstop := hq pos (if_pos hn) hb
      left
      rw [stopSince_of_not_selected hsel, hstop, Bool.or_true]
    | slice hn => exact ⟨hn, (hmono hs).2⟩
    | @tick pos n =>
      refine ⟨hs.1, ?_⟩
      have hwaited := hs.2
      rw [waited_of_not_selected hsel]
      cases hw : waitedSinceSelection past with
      | none => rfl
      | some ms =>
        rw [hw] at hwaited
        have hms : 10 * n ≤ ms := of_decide_eq_true hwaited
        have hdelay : 10 * (n + 1) ≤ ms + 10 := by omega
        exact decide_eq_true hdelay
    | elapsed => exact .inr (hmono hs).2
    | @receive c cmd hc =>
      have hdone : SettlingDone past := by rcases hc with rfl | rfl <;> exact hs
      have hafter := SettlingDone.mono hsel hdone
      split <;> exact hafter
    | note | announce | aim | within | enable | receiveNone | free | between => exact hmono hs

/-- The settling time starts with the flag clear, and the motor task raises no flag in it. -/
theorem ChoiceMove.flagQuiet {β : Type} {a : Act β} {c c' : ValveChoice} {e : Input} {w : World}
    (h : ChoiceMove a (a.run e w.mem).1 c c') (hq : FlagQuiet w.mem w.past c)
    (hC : selectsWithFlagClear.allows .motor a e w) :
    FlagQuiet (a.run e w.mem).2 (w.did .motor a e).past c' := by
  have hkeep : ∀ f, a.writes (.flag f) = false → (a.run e w.mem).2.flag f = w.mem.flag f :=
    fun f hw => Act.run_same hw e w.mem
  have hC : (Event.did .motor a (a.run e w.mem).1 w.mem).selected.all
      (fun pos => !w.mem.flag pos.flag) = true := hC
  intro pos hpos hup
  rw [World.did_past]
  generalize hb : (a.run e w.mem).1 = b at h hC ⊢
  have hstays : c.settling = some pos → a.writes (.flag pos.flag) = false →
      (Event.did .motor a b w.mem).selected = none →
      stopSinceSelection (.did .motor a b w.mem :: w.past) = true := by
    intro hc hw hsel
    have hbefore := hq pos hc ((hkeep _ hw).symm.trans hup)
    rw [stopSince_of_not_selected hsel, hbefore, Bool.or_true]
  induction h with
  | @select level =>
    have hpos : (if level then ValvePosition.output else .input) = pos := by
      simpa [ValveChoice.settling, ValveChoice.slices, Config.valveSettleMs] using hpos
    have hclear : w.mem.flag pos.flag = false := by
      simpa [Event.selected, hpos] using hC
    have hup := (hkeep pos.flag rfl).symm.trans hup
    rw [hclear] at hup
    cases hup
  | note => exact hstays hpos rfl rfl
  | slice hn =>
    refine hstays ?_ rfl rfl
    simpa [ValveChoice.settling, hn] using hpos
  | tick =>
    refine hstays ?_ rfl rfl
    simp only [ValveChoice.settling] at hpos ⊢
    split at hpos
    · exact hpos
    · cases hpos
  | receive hc => split at hpos <;> cases hpos
  | receiveNone hc => rcases hc with rfl | rfl <;> cases hpos
  | _ => cases hpos

structure SettlingInvariant (w : World) : Prop where
  settled : SettledBeforeMotion w.past
  waited : Settling w.past (valveChoice w.past)
  quiet : FlagQuiet w.mem w.past (valveChoice w.past)

theorem SettlingInvariant.motor {w : World} {β : Type} {a : Act β} {e : Input} {q : MotorPhase}
    {c : ValveChoice} (hI : SettlingInvariant w) (hC : selectsWithFlagClear.allows .motor a e w)
    (hs : LayerStep choiceProtocol .free w a e q c) : SettlingInvariant (w.did .motor a e) := by
  obtain ⟨hsettled, hwaited, hquiet⟩ := hI
  have hmove := ValveChoice.moves hs.next
  have hafter : valveChoice (w.did .motor a e).past = c := hs.after
  refine ⟨⟨hmove.settlingDone hwaited, hsettled⟩, ?_, ?_⟩
  · rw [hafter]
    exact hmove.settling hwaited hquiet
  · rw [hafter]
    exact hmove.flagQuiet hquiet hC

/-- Another task keeps the invariant if it raises a flag only to request a stop. -/
theorem SettlingInvariant.other {w w' : World} {ev : Event} (hI : SettlingInvariant w)
    (hpast : w'.past = ev :: w.past) (htransmit : ev.transmits = false)
    (hselected : ev.selected = none) (hchoice : valveChoice w'.past = valveChoice w.past)
    (hflag : ∀ pos, (valveChoice w.past).settling = some pos → w'.mem.flag pos.flag = true →
      w.mem.flag pos.flag = true ∨ ev.requestsStop = true) : SettlingInvariant w' := by
  obtain ⟨hsettled, hwaited, hquiet⟩ := hI
  refine ⟨?_, ?_, ?_⟩
  · rw [hpast]
    refine ⟨fun h => ?_, hsettled⟩
    rw [htransmit] at h
    cases h
  · rw [hchoice, hpast]
    exact hwaited.mono hselected
  · intro pos hpos hup
    rw [hchoice] at hpos
    rw [hpast, stopSince_of_not_selected hselected, Bool.or_eq_true]
    rcases hflag pos hpos hup with hbefore | hnow
    · exact .inr (hquiet pos hpos hbefore)
    · exact .inl hnow

/-- A client raises a flag only to request an emergency stop. -/
theorem ClientMove.raises {isMain : Bool} {t : Tid} (ht : t.isClient) {β : Type} {a : Act β}
    {p q : ClientPhase} {e : Input} {m : Mem} {f : StopFlag}
    (h : ClientMove isMain a (a.run e m).1 p q) (hup : (a.run e m).2.flag f = true) :
    m.flag f = true ∨ (Event.did t a (a.run e m).1 m).requestsStop = true := by
  have hkeep : a.writes (.flag f) = false → (a.run e m).2.flag f = m.flag f :=
    fun hw => Act.run_same hw e m
  generalize hb : (a.run e m).1 = b at h
  induction h with
  | raiseStop => exact .inr ht
  | _ => exact .inl ((hkeep rfl).symm.trans hup)

/-- In a run in which a valve position is selected only with its flag clear, and in which the switch
of that flag does not fire during the settling time, every motion starts after the settling time. -/
theorem settledBeforeMotion_of_selectsWithFlagClear {b : Boot} {c : Config Act Tid World}
    (h : Steps selectsWithFlagClear.assumption b.config c) :
    SettledBeforeMotion c.shared.past := by
  have hI : SettlingInvariant c.shared := by
    refine layered_invariant selects_motorTaskEntry h ⟨trivial, .inr rfl, nofun⟩ ?_ ?_ ?_ ?_
    · intro w β a e q r hI hC hs
      exact hI.motor hC hs
    · intro w t β a e q hI _ ht hs hchoice
      have hne := Tid.ne_motor_of_isClient ht
      have hselected : (Event.did t a (a.run e w.mem).1 w.mem).selected = none := by
        cases t <;> first | rfl | exact absurd rfl hne
      refine hI.other rfl ?_ hselected hchoice ?_
      · rcases hs with hs | hs
        · exact Event.transmits_of_quiet hs.quiet _ _
        · exact hs.move.not_driver.2.2 t w.mem
      · intro pos _ hup
        rcases hs with hs | hs
        · exact .inl ((hs.same (.flag pos.flag)).symm.trans hup)
        · exact hs.move.raises ht hup
    · intro w β a e hI _ hs hchoice
      refine hI.other rfl (Event.transmits_of_quiet hs.quiet _ _) rfl hchoice ?_
      intro pos _ hup
      exact .inl ((hs.same (.flag pos.flag)).symm.trans hup)
    · intro w h m hI hC hm
      refine hI.other rfl rfl rfl rfl ?_
      intro pos hpos hup
      left
      cases h with
      | level e active =>
        have hsame : (Field.flag pos.flag).Same w.mem m :=
          Happening.run_same hm fun ht => by cases ht
        exact Eq.trans hsame.symm hup
      | interrupt e =>
        have hC : (valveChoice w.past).settling.all (fun pos => pos.flag ≠ e.flag) = true := hC
        rw [hpos] at hC
        have hne : pos.flag ≠ e.flag := of_decide_eq_true hC
        have hsame : (Field.flag pos.flag).Same w.mem m := by
          refine Happening.run_same hm ?_
          intro ht
          exact hne (Field.flag.inj ht)
        exact Eq.trans hsame.symm hup
  exact hI.settled

def rinseOnce : Command := { type := .rinse, volume := some 1 }

/-- A rinse after power-up, up to the first chunk of its first motion. -/
def Script.firstRinse : Script :=
  boot ++ turns .http 1 ++ request .http rinseOnce 9 ++ turns .motor 170

theorem settled_in_firstRinse :
    ∃ c, Steps selectsWithFlagClear.assumption (Boot.config {}) c ∧
      c.shared.past.head?.any Event.transmits = true ∧ SettledBeforeMotion c.shared.past := by
  have hrun : (device.run selectsWithFlagClear Script.firstRinse (Boot.config {})).any
      (fun c => c.shared.past.head?.any Event.transmits) = true := by decide +kernel
  obtain ⟨c, hsteps, hc⟩ := Machine.exists_of_run hrun
  exact ⟨c, hsteps, hc, settledBeforeMotion_of_selectsWithFlagClear hsteps⟩

/-- A rinse after a fill that has run into its limit switch. -/
def Script.rinseAfterFill : Script :=
  fillToSwitch ++ turns .motor 11 ++ request .http rinseOnce 9 ++ turns .motor 23

/-- The flag left set by the fill cuts the settling time of the rinse short. -/
theorem rinseAfterFill_unsettled : ∃ c, Reachable {} c ∧ ¬ SettledBeforeMotion c.shared.past := by
  have hrun : (device.run (Guard.any device) Script.rinseAfterFill (Boot.config {})).any
      (fun c => decide (¬ SettledBeforeMotion c.shared.past)) = true := by decide +kernel
  obtain ⟨c, hsteps, hc⟩ := Machine.exists_of_run hrun
  exact ⟨c, hsteps.weaken, of_decide_eq_true hc⟩

end Ecotiter
