import Ecotiter.ClientPhases
import Ecotiter.MemoryFrames

/-!
# The moves of the tasks

What an action that a phase admits can be, and where it leads. Most actions are quiet: they change
neither a phase nor the part of the memory that the invariants of the later modules speak of.
`MotorMove` and `ClientMove` list the others, so that a proof about all runs goes by cases on them
instead of unfolding the automata.
-/

namespace Ecotiter
open Interleaving

/-- Loads of these variables change no phase. -/
def Var.quietLoad : {α : Type} → Var α → Bool
  | _, .direction | _, .speed | _, .calCache | _, .lastCmdId => false
  | _, _ => true

def Act.quiet : {β : Type} → Act β → Bool
  | _, .load v => v.quietLoad
  | _, .poll _ _ | _, .rmtTransmit _ | _, .rmtTxWaitAllDone _ | _, .positionFetchAdd _
  | _, .taskWdtReset | _, .receiveRequest _ | _, .respond _ | _, .resultLine _ _ _ => false
  | _, a => a.target.isNone

theorem Act.writes_of_quiet {β : Type} {a : Act β} (ha : a.quiet) (f : Field) :
    a.writes f = false := by
  have htarget : a.target = none := by
    induction a with
    | store v x => induction v <;> first | rfl | cases ha
    | gpioSetLevel pin level => cases pin <;> first | rfl | cases ha
    | _ => first | rfl | cases ha
  simp [Act.writes, htarget]

theorem Act.same_of_quiet {β : Type} {a : Act β} (ha : a.quiet) (e : Input) (m : Mem) (f : Field) :
    f.Same m (a.run e m).2 :=
  Act.run_same (Act.writes_of_quiet ha f) e m

theorem MotorPhase.onReady_eq {p q : MotorPhase} (h : onReady p = some q) : q = p := by
  unfold onReady at h
  split at h <;> cases h
  rfl

theorem MotorPhase.onBoot_eq {p q : MotorPhase} (h : onBoot p = some q) : q = p := by
  unfold onBoot at h
  split at h <;> cases h
  rfl

theorem ClientPhase.onHandling_eq {p q : ClientPhase} (h : onHandling p = some q) : q = p := by
  unfold onHandling at h
  split at h <;> cases h
  rfl

/-- The moves of the motor task. -/
inductive MotorMove : {β : Type} → Act β → β → MotorPhase → MotorPhase → Prop
  | createFails : MotorMove .createMotorCmdQueue false .unborn .unborn
  | create : MotorMove .createMotorCmdQueue true .unborn .created
  | createResults : MotorMove .createSmResultQueue () .created .booting
  | boot : MotorMove (.store .buretteState .homing) () .booting (.running .homing .ready)
  | listen : MotorMove .taskWdtReset () .listening .listening
  | finish {op : Op} : MotorMove .taskWdtReset () (.running op .done) .listening
  | finishReady {op : Op} (hop : op.restores = false) :
      MotorMove .taskWdtReset () (.running op .ready) .listening
  | feed {op : Op} (hop : op.restores) :
      MotorMove .taskWdtReset () (.running op .ready) (.running op .ready)
  | feedMoving {op : Op} {m : Motion} {p : Place} :
      MotorMove .taskWdtReset () (.running op (.moving m p)) (.running op (.moving m p))
  | receiveNone : MotorMove .xQueueReceive none .listening .listening
  | receive {cmd : MotorCommand} :
      MotorMove .xQueueReceive (some cmd) .listening (.running (.command cmd) .ready)
  | announce {op : Op} {x : BuretteState} (hop : op.restores) (hx : x.isBusy) :
      MotorMove (.store .buretteState x) () (.running op .ready) (.running op .ready)
  | restore {op : Op} (hop : op.restores) (hp : op.produces = false) :
      MotorMove (.store .buretteState .idle) () (.running op .ready) (.running op .done)
  | restored {op : Op} :
      MotorMove (.store .buretteState .idle) () (.running op .published) (.running op .done)
  | latchError {op : Op} (hop : op.restores = false) (ht : op.hasType .emergencyStop) :
      MotorMove (.store .buretteState .error) () (.running op .ready) (.running op .done)
  | fault {op : Op} {m : Motion} {p : Place} (hop : op.homes) (hp : p.leaves) :
      MotorMove (.store .buretteState .error) () (.running op (.moving m p))
        (.running op (.moving m .faulted))
  | limitHit {op : Op} {m : Motion} {p : Place} (hop : op.hasType .moveSteps) (hp : p.leaves) :
      MotorMove (.store .buretteState .error) () (.running op (.moving m p))
        (.running op (.moving m p))
  | storeDirection {op : Op} {d : Direction} :
      MotorMove (.store .direction d) () (.running op .ready) (.running op .ready)
  | storeSpeed {op : Op} {speed : ℕ} :
      MotorMove (.store .speed speed) () (.running op .ready) (.running op .ready)
  | storeStop {op : Op} {flag : StopFlag} {b : Bool}
      (hop : op.hasType .stop ∨ op.hasType .emergencyStop ∨ op.homes) :
      MotorMove (.storeStop flag b) () (.running op .ready) (.running op .ready)
  | clear {op : Op} {d : Direction} {flag : StopFlag} (hop : op.homes) :
      MotorMove (.storeStop flag false) () (.running op (.aimed d)) (.running op (.cleared d))
  | startHoming {op : Op} {d : Direction} :
      MotorMove (.storeStop .stopFull false) () (.running op (.cleared d))
        (.running op (.moving ⟨d, .stopFull, none⟩ .poised))
  | startEndstop {op : Op} {d : Direction} (hop : op.endstop) :
      MotorMove (.storeStop (op.polls d) false) () (.running op (.aimed d))
        (.running op (.moving ⟨d, op.polls d, none⟩ .poised))
  | startSteps {op : Op} {d : Direction} {speed : ℕ} (hop : op.hasType .moveSteps) :
      MotorMove (.load .speed) speed (.running op (.aimed d))
        (.running op (.moving ⟨d, .stopFull, some (clampStepFreq speed)⟩ .poised))
  | readDirection {op : Op} {d : Direction} (hop : op.hasType .moveSteps) :
      MotorMove (.load .direction) d (.running op .ready) (.running op (.directed d))
  | aimSteps {op : Op} {d : Direction} :
      MotorMove (.gpioSetLevel .dir d.level) () (.running op (.directed d)) (.running op (.aimed d))
  | aim {op : Op} {d : Direction} (hop : op.homes ∧ d = .liqIn ∨ op.endstop) :
      MotorMove (.gpioSetLevel .dir d.level) () (.running op .ready) (.running op (.aimed d))
  | setDirPin {op : Op} {level : Bool} (hop : op.hasType .setDirection) :
      MotorMove (.gpioSetLevel .dir level) () (.running op .ready) (.running op .ready)
  | settlePoll {op : Op} {flag : StopFlag} {seen : Bool} :
      MotorMove (.poll .settle flag) seen (.running op .ready) (.running op .ready)
  | headClear {op : Op} {m : Motion} {p : Place} (hp : p = .poised ∨ p = .armed ∨ p = .moved) :
      MotorMove (.poll .loopHead m.flag) false (.running op (.moving m p))
        (.running op (.moving m .armed))
  | headSeen {op : Op} {m : Motion} {p : Place} {seen : Bool}
      (hp : p = .halted ∨ (p = .poised ∨ p = .armed ∨ p = .moved) ∧ seen) :
      MotorMove (.poll .loopHead m.flag) seen (.running op (.moving m p))
        (.running op (.moving m .halted))
  | innerSeen {op : Op} {m : Motion} {p : Place} {site : PollSite}
      (hp : site = .chunk ∧ (p = .armed ∨ p = .moved) ∨ site = .transmit ∧ p = .checked ∨
        site = .wait ∧ p = .sending) :
      MotorMove (.poll site m.flag) true (.running op (.moving m p))
        (.running op (.moving m .halting))
  | chunkClear {op : Op} {m : Motion} {p : Place} (hp : p = .armed ∨ p = .moved) :
      MotorMove (.poll .chunk m.flag) false (.running op (.moving m p))
        (.running op (.moving m .checked))
  | transmitClear {op : Op} {m : Motion} :
      MotorMove (.poll .transmit m.flag) false (.running op (.moving m .checked))
        (.running op (.moving m .committed))
  | waitClear {op : Op} {m : Motion} :
      MotorMove (.poll .wait m.flag) false (.running op (.moving m .sending))
        (.running op (.moving m .sending))
  | transmit {op : Op} {m : Motion} {symbols : List RmtSymbol} {err : EspErr}
      (hm : MotorPhase.Motion.fits m symbols) :
      MotorMove (.rmtTransmit symbols) err (.running op (.moving m .committed))
        (.running op (.moving m (.afterTransmit err)))
  | await {op : Op} {m : Motion} {ms : ℕ} {err : EspErr} :
      MotorMove (.rmtTxWaitAllDone ms) err (.running op (.moving m .sending))
        (.running op (.moving m (.afterAwait err)))
  | awaitLeft {op : Op} {m : Motion} {p : Place} {ms : ℕ} {err : EspErr}
      (hp : p = .halted ∨ p = .faulted) :
      MotorMove (.rmtTxWaitAllDone ms) err (.running op (.moving m p)) (.running op (.moving m p))
  | counted {op : Op} {m : Motion} {n : ℕ} :
      MotorMove (.positionFetchAdd n) () (.running op (.moving m .sent))
        (.running op (.moving m .moved))
  | disable {op : Op} {m : Motion} {p : Place}
      (hp : p = .halting ∨ p.leaves ∧ op.hasType .moveSteps = false) :
      MotorMove (.gpioSetLevel .en true) () (.running op (.moving m p))
        (.running op (.moving m .halted))
  | disableFaulted {op : Op} {m : Motion} (hop : op.homes) :
      MotorMove (.gpioSetLevel .en true) () (.running op (.moving m .faulted))
        (.running op (.moving m .faulted))
  | enable {op : Op} {m : Motion} (hop : op.hasType .moveSteps = false) :
      MotorMove (.gpioSetLevel .en false) () (.running op (.moving m .halted)) (.running op .ready)
  | enableFaulted {op : Op} {m : Motion} (hop : op.hasType .moveSteps = false) :
      MotorMove (.gpioSetLevel .en false) () (.running op (.moving m .faulted)) (.running op .done)
  | publish {op : Op} {r : SmResult} (hop : op.produces) :
      MotorMove (.xQueueOverwrite r) () (.running op .ready) (.running op .published)
  | publishSteps {op : Op} {m : Motion} {p : Place} {r : SmResult} (hop : op.hasType .moveSteps)
      (hp : p.leaves) :
      MotorMove (.xQueueOverwrite r) () (.running op (.moving m p)) (.running op .published)

namespace MotorPhase
variable {p q : MotorPhase}

theorem moves_onStoreState {x : BuretteState} (h : onStoreState x p = some q) :
    MotorMove (.store .buretteState x) () p q := by
  unfold onStoreState at h
  split at h
  case h_1 =>
    split at h
    case isTrue hx =>
      cases h
      subst hx
      exact .boot
    case isFalse => cases h
  case h_2 op =>
    split at h
    case isTrue hop =>
      split at h
      case isTrue hx =>
        cases h
        exact .announce hop hx
      case isFalse =>
        split at h
        case isTrue hx =>
          obtain ⟨rfl, hp⟩ := hx
          cases h
          exact .restore hop hp
        case isFalse => cases h
    case isFalse hop =>
      split at h
      case isTrue hx =>
        obtain ⟨ht, rfl⟩ := hx
        cases h
        exact .latchError (by simpa using hop) ht
      case isFalse => cases h
  case h_3 op m p =>
    split at h
    case isTrue hx =>
      obtain ⟨rfl, hp⟩ := hx
      split at h
      case isTrue hop =>
        cases h
        exact .fault hop hp
      case isFalse =>
        split at h
        case isTrue hop =>
          cases h
          exact .limitHit hop hp
        case isFalse => cases h
    case isFalse => cases h
  case h_4 op =>
    split at h
    case isTrue hx =>
      subst hx
      cases h
      exact .restored
    case isFalse => cases h
  case h_5 => cases h

theorem moves_onStoreStop {flag : StopFlag} {b : Bool} (h : onStoreStop flag b p = some q) :
    MotorMove (.storeStop flag b) () p q := by
  unfold onStoreStop at h
  split at h
  case h_1 op =>
    split at h
    case isTrue hop =>
      cases h
      exact .storeStop hop
    case isFalse => cases h
  case h_2 op d =>
    cases b with
    | true => cases h
    | false =>
      simp only [Bool.false_eq_true, if_false] at h
      split at h
      case isTrue hop =>
        cases h
        exact .clear hop
      case isFalse =>
        split at h
        case isTrue hop =>
          obtain ⟨hop, rfl⟩ := hop
          cases h
          exact .startEndstop hop
        case isFalse => cases h
  case h_3 op d =>
    split at h
    case isTrue hx =>
      obtain ⟨rfl, rfl⟩ := hx
      cases h
      exact .startHoming
    case isFalse => cases h
  case h_4 => cases h

theorem moves_onDirPin {level : Bool} (h : onDirPin level p = some q) :
    MotorMove (.gpioSetLevel .dir level) () p q := by
  unfold onDirPin at h
  split at h
  case h_1 op =>
    split at h
    case isTrue hop =>
      cases level with
      | true =>
        cases h
        exact .aim (.inl ⟨hop, rfl⟩)
      | false => cases h
    case isFalse =>
      split at h
      case isTrue hop =>
        have haim : ∀ d : Direction, MotorMove (.gpioSetLevel .dir d.level) ()
            (.running op .ready) (.running op (.aimed d)) := fun d => .aim (.inr hop)
        cases level with
        | true =>
          cases h
          exact haim .liqIn
        | false =>
          cases h
          exact haim .liqOut
      case isFalse =>
        split at h
        case isTrue hop =>
          cases h
          exact .setDirPin hop
        case isFalse => cases h
  case h_2 op d =>
    split at h
    case isTrue hx =>
      subst hx
      cases h
      exact .aimSteps
    case isFalse => cases h
  case h_3 => cases h

theorem moves_onEnPin {level : Bool} (h : onEnPin level p = some q) :
    MotorMove (.gpioSetLevel .en level) () p q := by
  unfold onEnPin at h
  split at h
  case h_1 op m p =>
    cases level with
    | true =>
      simp only [if_true] at h
      split at h
      case isTrue hp =>
        cases h
        exact .disable hp
      case isFalse =>
        split at h
        case isTrue hp =>
          obtain ⟨rfl, hop⟩ := hp
          cases h
          exact .disableFaulted hop
        case isFalse => cases h
    | false =>
      simp only [Bool.false_eq_true, if_false] at h
      split at h
      case isTrue => cases h
      case isFalse hop =>
        have hop : op.hasType .moveSteps = false := by simpa using hop
        split at h
        case isTrue hp =>
          subst hp
          cases h
          exact .enable hop
        case isFalse =>
          split at h
          case isTrue hp =>
            subst hp
            cases h
            exact .enableFaulted hop
          case isFalse => cases h
  case h_2 => cases h

theorem moves_onPoll {site : PollSite} {flag : StopFlag} {seen : Bool}
    (h : onPoll site flag seen p = some q) : MotorMove (.poll site flag) seen p q := by
  unfold onPoll at h
  split at h
  case h_1 op =>
    split at h
    case isTrue hsite =>
      subst hsite
      cases h
      exact .settlePoll
    case isFalse => cases h
  case h_2 op m p =>
    split at h
    case isTrue => cases h
    case isFalse hflag =>
      obtain rfl : flag = m.flag := by simpa using hflag
      cases seen <;> split at h <;> cases h
      all_goals
        first
        | exact .headClear (by simp)
        | exact .headSeen (by simp)
        | exact .innerSeen (by simp)
        | exact .chunkClear (by simp)
        | exact .transmitClear
        | exact .waitClear
  case h_3 => cases h

theorem moves_onWdtReset (h : onWdtReset p = some q) : MotorMove .taskWdtReset () p q := by
  unfold onWdtReset at h
  split at h
  case h_1 | h_2 | h_3 => cases h
  case h_4 =>
    cases h
    exact .listen
  case h_5 =>
    cases h
    exact .finish
  case h_6 op =>
    split at h
    case isTrue hop =>
      cases h
      exact .feed hop
    case isFalse hop =>
      cases h
      exact .finishReady (by simpa using hop)
  case h_7 op m p =>
    cases h
    exact .feedMoving
  case h_8 => cases h

/-- Every action of the motor task that its phase admits is quiet or one of the moves. -/
theorem moves {β : Type} {a : Act β} {b : β} (h : p.next a b = some q) :
    a.quiet ∧ q = p ∨ MotorMove a b p q := by
  induction a with
  | load v =>
    induction v with
    | direction =>
      refine .inr ?_
      simp only [next] at h
      unfold onLoadDirection at h
      split at h
      case h_1 =>
        split at h
        case isTrue hop =>
          cases h
          exact .readDirection hop
        case isFalse => cases h
      case h_2 => cases h
    | speed =>
      refine .inr ?_
      simp only [next] at h
      unfold onLoadSpeed at h
      split at h
      case h_1 =>
        split at h
        case isTrue hop =>
          cases h
          exact .startSteps hop
        case isFalse => cases h
      case h_2 => cases h
    | calCache | lastCmdId => cases h
    | _ =>
      simp only [next, Option.some.injEq] at h
      exact .inl ⟨rfl, h.symm⟩
  | store v x =>
    induction v with
    | buretteState =>
      simp only [next] at h
      exact .inr (moves_onStoreState h)
    | direction =>
      refine .inr ?_
      simp only [next] at h
      unfold onReady at h
      split at h <;> cases h
      exact .storeDirection
    | speed =>
      refine .inr ?_
      simp only [next] at h
      unfold onReady at h
      split at h <;> cases h
      exact .storeSpeed
    | homingDone =>
      simp only [next, Option.some.injEq] at h
      exact .inl ⟨rfl, h.symm⟩
    | valveIsSettling | accel | stallGuardThreshold | valvePosition =>
      simp only [next] at h
      exact .inl ⟨rfl, onReady_eq h⟩
    | _ => cases h
  | gpioSetLevel pin level =>
    cases pin with
    | dir =>
      simp only [next] at h
      exact .inr (moves_onDirPin h)
    | en =>
      simp only [next] at h
      exact .inr (moves_onEnPin h)
    | valve =>
      simp only [next] at h
      exact .inl ⟨rfl, onReady_eq h⟩
  | poll site flag =>
    simp only [next] at h
    exact .inr (moves_onPoll h)
  | storeStop flag x =>
    simp only [next] at h
    exact .inr (moves_onStoreStop h)
  | createMotorCmdQueue =>
    refine .inr ?_
    simp only [next] at h
    unfold onCreate at h
    split at h
    case h_1 =>
      cases b with
      | true =>
        cases h
        exact .create
      | false =>
        cases h
        exact .createFails
    case h_2 => cases h
  | createSmResultQueue =>
    refine .inr ?_
    simp only [next] at h
    unfold onCreateResults at h
    split at h <;> cases h
    exact .createResults
  | xQueueReceive =>
    refine .inr ?_
    simp only [next] at h
    unfold onReceive at h
    split at h
    case h_1 =>
      cases b with
      | none =>
        cases h
        exact .receiveNone
      | some cmd =>
        cases h
        exact .receive
    case h_2 => cases h
  | xQueueOverwrite r =>
    refine .inr ?_
    simp only [next] at h
    unfold onPublish at h
    split at h
    case h_1 =>
      split at h
      case isTrue hop =>
        cases h
        exact .publish hop
      case isFalse => cases h
    case h_2 =>
      split at h
      case isTrue hop =>
        cases h
        exact .publishSteps hop.1 hop.2
      case isFalse => cases h
    case h_3 => cases h
  | rmtTransmit symbols =>
    refine .inr ?_
    simp only [next] at h
    unfold onTransmit at h
    split at h
    case h_1 =>
      split at h
      case isTrue hm =>
        cases h
        exact .transmit hm
      case isFalse => cases h
    case h_2 => cases h
  | rmtTxWaitAllDone ms =>
    refine .inr ?_
    simp only [next] at h
    unfold onAwait at h
    split at h
    case h_1 =>
      cases h
      exact .await
    case h_2 =>
      cases h
      exact .awaitLeft (.inl rfl)
    case h_3 =>
      cases h
      exact .awaitLeft (.inr rfl)
    case h_4 => cases h
  | positionFetchAdd n =>
    refine .inr ?_
    simp only [next] at h
    unfold onCounted at h
    split at h <;> cases h
    exact .counted
  | taskWdtReset =>
    simp only [next] at h
    exact .inr (moves_onWdtReset h)
  | exchangeTimerArmed x | espTimerIsCreated | espTimerStop =>
    simp only [next] at h
    exact .inl ⟨rfl, onReady_eq h⟩
  | gpioIsrHandlerAdd e | tmcConnected =>
    simp only [next] at h
    exact .inl ⟨rfl, onBoot_eq h⟩
  | positionLoad | positionStore n | vTaskDelay ms | xTaskGetTickCount | wsBroadcast event
  | tmcWriteRegister reg value | tmcReadRegister reg | abort =>
    simp only [next, Option.some.injEq] at h
    exact .inl ⟨rfl, h.symm⟩
  | _ => cases h

end MotorPhase

/-- The moves of a client; `isMain` tells the main loop from the HTTP server. -/
inductive ClientMove (isMain : Bool) :
    {β : Type} → Act β → β → ClientPhase → ClientPhase → Prop
  | loadDirection {d : Direction} {p : ClientPhase} : ClientMove isMain (.load .direction) d p p
  | loadSpeed {speed : ℕ} {p : ClientPhase} : ClientMove isMain (.load .speed) speed p p
  | loadCal {cal : Option CalibrationData} {p : ClientPhase} (hp : ∀ cmd, p ≠ .handling cmd .claimed) :
      ClientMove isMain (.load .calCache) cal p p
  | useCal {cal : Option CalibrationData} {cmd : Command}
      (hcal : ClientPhase.claimUsable cmd cal) :
      ClientMove isMain (.load .calCache) cal (.handling cmd .claimed) (.handling cmd .claimed)
  | leak {cal : Option CalibrationData} {cmd : Command}
      (hcal : ClientPhase.claimUsable cmd cal = false) :
      ClientMove isMain (.load .calCache) cal (.handling cmd .claimed) (.handling cmd .leaking)
  | loadId {id : ℕ} {p : ClientPhase} (hp : ∀ r, p ≠ .draining r none) :
      ClientMove isMain (.load .lastCmdId) id p p
  | drainId {id : ℕ} {r : SmResult} :
      ClientMove isMain (.load .lastCmdId) id (.draining r none) (.draining r (some id))
  | claim {desired : BuretteState} {cmd : Command} (hd : desired.isBusy) :
      ClientMove isMain (.casBuretteState desired) true (.handling cmd .fresh)
        (.handling cmd .claimed)
  | claimFails {desired : BuretteState} {cmd : Command} (hd : desired.isBusy) :
      ClientMove isMain (.casBuretteState desired) false (.handling cmd .fresh)
        (.handling cmd .fresh)
  | casError {cmd : Command} {ok : Bool} (ht : cmd.type = .emergencyStop) :
      ClientMove isMain (.casBuretteState .error) ok (.handling cmd .fresh) (.handling cmd .fresh)
  | raiseStop {cmd : Command} (ht : cmd.type = .emergencyStop) :
      ClientMove isMain (.storeStop .stopFull true) () (.handling cmd .fresh)
        (.handling cmd .fresh)
  | handOver {cmd : Command} {mc : MotorCommand} (hmc : mc.type.restoresIdle) :
      ClientMove isMain (.xQueueSend mc) true (.handling cmd .claimed) (.handling cmd (.queued mc))
  | handOverFails {cmd : Command} {mc : MotorCommand} (hmc : mc.type.restoresIdle) :
      ClientMove isMain (.xQueueSend mc) false (.handling cmd .claimed) (.handling cmd .claimed)
  | send {cmd : Command} {mc : MotorCommand} {ok : Bool} (hmc : mc.type.restoresIdle = false) :
      ClientMove isMain (.xQueueSend mc) ok (.handling cmd .fresh) (.handling cmd .fresh)
  | release {cmd : Command} :
      ClientMove isMain (.store .buretteState .idle) () (.handling cmd .claimed)
        (.handling cmd .released)
  | storeDirection {cmd : Command} {s : ClaimStage} {d : Direction} :
      ClientMove isMain (.store .direction d) () (.handling cmd s) (.handling cmd s)
  | storeSpeed {cmd : Command} {s : ClaimStage} {speed : ℕ} :
      ClientMove isMain (.store .speed speed) () (.handling cmd s) (.handling cmd s)
  | storeId {cmd : Command} {mc : MotorCommand} (hmain : isMain) (hmc : mc.type.producesResult) :
      ClientMove isMain (.store .lastCmdId cmd.id) () (.handling cmd (.queued mc))
        (.handling cmd (.noted mc))
  | waitNone (hmain : isMain) : ClientMove isMain .waitResult none .waiting .waiting
  | takeResult {r : SmResult} (hmain : isMain) :
      ClientMove isMain .waitResult (some r) .waiting (.draining r none)
  | receiveNone {source : Source} :
      ClientMove isMain (.receiveRequest source) none .waiting .waiting
  | receive {source : Source} {req : Request} :
      ClientMove isMain (.receiveRequest source) (some req) .waiting
        ((dispatched source req).elim .refusing fun cmd => .handling cmd .fresh)
  | refuse {rsp : CommandResponse} : ClientMove isMain (.respond rsp) () .refusing .waiting
  | answer {cmd : Command} {s : ClaimStage} {rsp : CommandResponse} (hs : s ≠ .claimed)
      (hrsp : rsp.kind = .ackThen ↔ s.accepted)
      (hmain : isMain → s.accepted → ∃ mc, s = .noted mc) :
      ClientMove isMain (.respond rsp) () (.handling cmd s) .waiting
  | resultLine {id : ℕ} {r : SmResult} {volume : Option ℚ} :
      ClientMove isMain (.resultLine id r volume) () (.draining r (some id)) .waiting

namespace ClientPhase
variable {isMain : Bool} {p q : ClientPhase}

theorem moves_onLoadCal {cal : Option CalibrationData} (h : onLoadCal cal p = some q) :
    ClientMove isMain (.load .calCache) cal p q := by
  unfold onLoadCal at h
  split at h
  case h_1 cmd =>
    cases hcal : claimUsable cmd cal with
    | true =>
      rw [hcal] at h
      cases h
      exact .useCal hcal
    | false =>
      rw [hcal] at h
      cases h
      exact .leak hcal
  case h_2 hp =>
    cases h
    exact .loadCal hp

theorem moves_onLoadId {id : ℕ} (h : onLoadId id p = some q) :
    ClientMove isMain (.load .lastCmdId) id p q := by
  unfold onLoadId at h
  split at h
  case h_1 =>
    cases h
    exact .drainId
  case h_2 hp =>
    cases h
    exact .loadId hp

theorem moves_onCas {desired : BuretteState} {ok : Bool} (h : onCas desired ok p = some q) :
    ClientMove isMain (.casBuretteState desired) ok p q := by
  unfold onCas at h
  split at h
  case h_1 cmd =>
    split at h
    case isTrue hd =>
      subst hd
      split at h
      case isTrue ht =>
        cases h
        exact .casError ht
      case isFalse => cases h
    case isFalse =>
      split at h
      case isTrue hd =>
        cases ok with
        | true =>
          cases h
          exact .claim hd
        | false =>
          cases h
          exact .claimFails hd
      case isFalse => cases h
  case h_2 => cases h

theorem moves_onSend {mc : MotorCommand} {ok : Bool} (h : onSend mc ok p = some q) :
    ClientMove isMain (.xQueueSend mc) ok p q := by
  unfold onSend at h
  split at h
  case h_1 cmd =>
    split at h
    case isTrue hmc =>
      cases ok with
      | true =>
        cases h
        exact .handOver hmc
      | false =>
        cases h
        exact .handOverFails hmc
    case isFalse => cases h
  case h_2 cmd =>
    split at h
    case isTrue => cases h
    case isFalse hmc =>
      cases h
      exact .send (by simpa using hmc)
  case h_3 => cases h

theorem moves_onRespond {rsp : CommandResponse} (h : onRespond isMain rsp p = some q) :
    ClientMove isMain (.respond rsp) () p q := by
  unfold onRespond at h
  split at h
  case h_1 =>
    cases h
    exact .refuse
  case h_2 cmd s =>
    split at h
    case isTrue => cases h
    case isFalse hs =>
      split at h
      case isTrue hrsp =>
        split at h
        case h_1 mc =>
          split at h
          case isTrue => cases h
          case isFalse hnot =>
            cases h
            exact .answer hs hrsp fun hm ha => absurd (by simp [hm, ha]) hnot
        case h_2 hqueued =>
          cases h
          refine .answer hs hrsp fun _ ha => ?_
          cases s with
          | queued mc => exact absurd rfl (hqueued mc)
          | noted mc => exact ⟨mc, rfl⟩
          | fresh | claimed | leaking | released => cases ha
      case isFalse => cases h
  case h_3 => cases h

/-- Every action of a client that its phase admits is quiet or one of the moves. -/
theorem moves {β : Type} {a : Act β} {b : β} (h : p.next isMain a b = some q) :
    a.quiet ∧ q = p ∨ ClientMove isMain a b p q := by
  induction a with
  | load v =>
    induction v with
    | direction =>
      simp only [next, Option.some.injEq] at h
      subst h
      exact .inr .loadDirection
    | speed =>
      simp only [next, Option.some.injEq] at h
      subst h
      exact .inr .loadSpeed
    | calCache =>
      simp only [next] at h
      exact .inr (moves_onLoadCal h)
    | lastCmdId =>
      simp only [next] at h
      exact .inr (moves_onLoadId h)
    | _ =>
      simp only [next, Option.some.injEq] at h
      exact .inl ⟨rfl, h.symm⟩
  | store v x =>
    induction v with
    | buretteState =>
      refine .inr ?_
      simp only [next] at h
      unfold onStoreState at h
      split at h
      case h_1 =>
        split at h
        case isTrue hx =>
          subst hx
          cases h
          exact .release
        case isFalse => cases h
      case h_2 => cases h
    | direction =>
      refine .inr ?_
      simp only [next] at h
      unfold onHandling at h
      split at h <;> cases h
      exact .storeDirection
    | speed =>
      refine .inr ?_
      simp only [next] at h
      unfold onHandling at h
      split at h <;> cases h
      exact .storeSpeed
    | lastCmdId =>
      refine .inr ?_
      simp only [next] at h
      unfold onStoreId at h
      split at h
      case h_1 =>
        split at h
        case isTrue hx =>
          obtain ⟨hmain, hmc, rfl⟩ := hx
          cases h
          exact .storeId hmain hmc
        case isFalse => cases h
      case h_2 => cases h
    | calCache =>
      simp only [next, Option.some.injEq] at h
      exact .inl ⟨rfl, h.symm⟩
    | valveIsSettling | accel | stallGuardThreshold | valvePosition | pendingCal =>
      simp only [next] at h
      exact .inl ⟨rfl, onHandling_eq h⟩
    | _ => cases h
  | gpioSetLevel pin level =>
    cases pin with
    | valve =>
      simp only [next] at h
      exact .inl ⟨rfl, onHandling_eq h⟩
    | _ => cases h
  | casBuretteState desired =>
    simp only [next] at h
    exact .inr (moves_onCas h)
  | storeStop flag x =>
    refine .inr ?_
    simp only [next] at h
    unfold onStoreStop at h
    split at h
    case h_1 =>
      split at h
      case isTrue hx =>
        obtain ⟨ht, rfl, hx⟩ := hx
        rw [hx]
        cases h
        exact .raiseStop ht
      case isFalse => cases h
    case h_2 => cases h
  | xQueueSend mc =>
    simp only [next] at h
    exact .inr (moves_onSend h)
  | waitResult =>
    refine .inr ?_
    simp only [next] at h
    unfold onWaitResult at h
    split at h
    case h_1 =>
      split at h
      case isTrue hmain =>
        cases b with
        | none =>
          cases h
          exact .waitNone hmain
        | some r =>
          cases h
          exact .takeResult hmain
      case isFalse => cases h
    case h_2 => cases h
  | receiveRequest source =>
    refine .inr ?_
    simp only [next] at h
    unfold onReceive at h
    split at h
    case h_1 =>
      cases b with
      | none =>
        cases h
        exact .receiveNone
      | some req =>
        cases h
        exact .receive
    case h_2 => cases h
  | respond rsp =>
    simp only [next] at h
    exact .inr (moves_onRespond h)
  | resultLine id r volume =>
    refine .inr ?_
    simp only [next] at h
    unfold onResultLine at h
    split at h
    case h_1 =>
      split at h
      case isTrue hx =>
        obtain ⟨rfl, rfl⟩ := hx
        cases h
        exact .resultLine
      case isFalse => cases h
    case h_2 => cases h
  | casValveIsSettling | exchangeTimerArmed x | assignPendingCal f | motorQueueCreated
  | peekResult | espTimerIsCreated | espTimerCreate arg | espTimerStop | espTimerStartOnce
  | abort | handledElsewhere =>
    simp only [next] at h
    exact .inl ⟨rfl, onHandling_eq h⟩
  | nvsOpen readWrite | nvsGet k | nvsSet k x | vTaskDelay ms =>
    simp only [next, Option.some.injEq] at h
    exact .inl ⟨rfl, h.symm⟩
  | _ => cases h

end ClientPhase

theorem TimerPhase.quiet_of_next {p q : TimerPhase} {β : Type} {a : Act β} {b : β}
    (h : p.next a b = some q) : a.quiet := by
  induction a with
  | store v x => induction v <;> first | rfl | cases h
  | espTimerExpired | wsBroadcast event => rfl
  | _ => cases h

end Ecotiter
