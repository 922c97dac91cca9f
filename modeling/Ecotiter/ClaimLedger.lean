import Ecotiter.Histories

/-!
# The ledger of claims on the burette

A handler claims the burette by moving `gBuretteState` out of idle. The claim is handed over with a
motor command and given back when the command has been executed. It is lost when a handler returns
early, and an error that is written while a claim is outstanding is overwritten later on. Once
nothing is outstanding and the state is not idle, nothing can change the state to idle any more.
-/

namespace Ecotiter
open Interleaving

/-- The handler will hand its claim over or put idle back. -/
def ClientPhase.claims : ClientPhase → Bool
  | .handling _ .claimed => true
  | _ => false

namespace MotorPhase

/-- The operation under way will write idle to `gBuretteState`. -/
def owes : MotorPhase → Bool
  | .running _ .published => true
  | .running _ .done => false
  | .running _ (.moving _ .faulted) => false
  | .running op _ => op.restores
  | _ => false

/-- Homing after power-up has been entered. -/
def booted : MotorPhase → Bool
  | .unborn | .created | .booting => false
  | _ => true

end MotorPhase

theorem Op.restores_of_produces {op : Op} (h : op.produces) : op.restores := by
  cases op with
  | homing => rfl
  | command cmd => exact MotorCommandType.restoresIdle_of_producesResult h

theorem Op.restores_of_moveSteps {op : Op} (h : op.hasType .moveSteps) : op.restores := by
  cases op with
  | homing => rfl
  | command cmd =>
    have ht : cmd.type = .moveSteps := of_decide_eq_true h
    simp [Op.restores, ht, MotorCommandType.restoresIdle, MotorCommandType.producesResult]

section Owed

/-- Somebody will give the claim back. -/
def Owed (w : World) : Prop :=
  (∃ t : Tid, t.isClient ∧ (clientPhase t w.past).claims) ∨
    (∃ q cmd, w.mem.motorCmdQueue = some q ∧ cmd ∈ q ∧ cmd.type.restoresIdle) ∨
      (motorPhase w.past).owes

/-- If no handler is in the middle of a call, the queue is empty and the motor task is idle, the
burette is idle or in the error state. -/
def NoStuckClaim (w : World) : Prop :=
  (∀ t : Tid, t.isClient → (clientPhase t w.past).midCall = false) →
    w.mem.motorCmdQueue = some [] → motorPhase w.past = .listening →
      w.mem.buretteState.isBusy = false

/-- The cache that is loaded with a claim can be used. -/
def claimsUsable : Guard device where
  allows t _ a _ w :=
    match a, clientPhase t w.past with
    | .load .calCache, .handling cmd .claimed => ClientPhase.claimUsable cmd w.mem.calCache
    | _, _ => true
  allowsEnv _ _ := true

structure LedgerInvariant (w : World) : Prop where
  queue : motorPhase w.past = .unborn → w.mem.motorCmdQueue = none
  kept : ∀ t : Tid, t.isClient → ∀ cmd, clientPhase t w.past ≠ .handling cmd .leaking
  owed : w.mem.buretteState.isBusy → Owed w

theorem LedgerInvariant.noStuckClaim {w : World} (h : LedgerInvariant w) : NoStuckClaim w := by
  intro hclients hqueue hmotor
  rw [Bool.eq_false_iff]
  intro hbusy
  rcases h.owed hbusy with ⟨t, ht, hclaims⟩ | ⟨q, cmd, hq, hcmd, -⟩ | howes
  · have hmid := hclients t ht
    unfold ClientPhase.claims at hclaims
    split at hclaims
    case h_1 heq =>
      rw [heq] at hmid
      cases hmid
    case h_2 => cases hclaims
  · rw [hqueue] at hq
    cases hq
    cases hcmd
  · rw [hmotor] at howes
    cases howes

/-- An operation that owes idle goes on owing it until it writes the state. -/
theorem MotorMove.owes {β : Type} {a : Act β} {b : β} {p q : MotorPhase} (h : MotorMove a b p q)
    (hp : p.owes) (ha : a.writes .buretteState = false) : q.owes := by
  induction h with
  | restore | restored | latchError | fault | limitHit | announce | boot => cases ha
  | publish | publishSteps => rfl
  | finish | enableFaulted => cases hp
  | finishReady hop =>
    have hrestores : Op.restores _ = true := hp
    rw [hop] at hrestores
    cases hrestores
  | _ =>
    first
    | exact hp
    | (simp only [MotorPhase.owes] at hp ⊢
       grind -ring -linarith -ac [MotorPhase.owes, Place.leaves, Place.afterTransmit_cases,
         Place.afterAwait_cases])

theorem LedgerInvariant.motor {w : World} {β : Type} {a : Act β} {e : Input} {q : MotorPhase}
    (hI : LedgerInvariant w) (hs : MotorStep w a e q) : LedgerInvariant (w.did .motor a e) := by
  obtain ⟨hmove, hq, hclient⟩ := hs
  have hkeep : a.writes .motorCmdQueue = false →
      (w.did .motor a e).mem.motorCmdQueue = w.mem.motorCmdQueue := fun h => Act.run_same h e w.mem
  generalize hb : (a.run e w.mem).1 = b at hmove
  refine ⟨fun hunborn => ?_, fun t ht cmd => ?_, fun hbusy => ?_⟩
  · rw [hq] at hunborn
    generalize hp : motorPhase w.past = p at hmove
    induction hmove with
    | createFails =>
      have hnone := hI.queue hp
      simp only [Act.run] at hb
      split at hb
      case isTrue => cases hb
      case isFalse he => simpa [Act.run, he] using hnone
    | _ => cases hunborn
  · rw [hclient t ht]
    exact hI.kept t ht cmd
  · cases hstate : a.writes .buretteState with
    | true =>
      refine .inr (.inr ?_)
      rw [hq]
      generalize motorPhase w.past = p at hmove
      induction hmove with
      | boot => rfl
      | announce hop => exact hop
      | restore | restored | latchError | fault | limitHit => cases hbusy
      | _ => cases hstate
    | false =>
      have hsame : (w.did .motor a e).mem.buretteState = w.mem.buretteState :=
        Act.run_same hstate e w.mem
      rw [hsame] at hbusy
      rcases hI.owed hbusy with ⟨t, ht, hclaims⟩ | ⟨l, cmd, hl, hcmd, hrestores⟩ | howes
      · exact .inl ⟨t, ht, by rwa [hclient t ht]⟩
      · refine .inr ?_
        rw [hq]
        generalize hp : motorPhase w.past = p at hmove
        induction hmove with
        | createFails | create =>
          rw [hI.queue hp] at hl
          cases hl
        | receiveNone =>
          exact .inl ⟨l, cmd, by rwa [World.did_mem, Act.run_receiveNone hb], hcmd, hrestores⟩
        | @receive cmd' =>
          obtain ⟨rest, hrest, hafter⟩ := Act.run_receive hb
          rw [hl] at hrest
          cases hrest
          rcases List.mem_cons.mp hcmd with rfl | hmem
          · exact .inr hrestores
          · exact .inl ⟨rest, cmd, hafter, hmem, hrestores⟩
        | _ => exact .inl ⟨l, cmd, (hkeep rfl).trans hl, hcmd, hrestores⟩
      · refine .inr (.inr ?_)
        rw [hq]
        exact hmove.owes howes hstate

/-- What is owed stays owed if the other parts of the ledger stay. -/
theorem Owed.client {w w' : World} {t : Tid} (h : Owed w)
    (hself : (clientPhase t w.past).claims → (clientPhase t w'.past).claims)
    (hother : ∀ s, s ≠ t → clientPhase s w'.past = clientPhase s w.past)
    (hmotor : motorPhase w'.past = motorPhase w.past)
    (hqueue : ∀ q, w.mem.motorCmdQueue = some q →
      ∃ l, w'.mem.motorCmdQueue = some (q ++ l)) : Owed w' := by
  rcases h with ⟨s, hs, hclaims⟩ | ⟨q, cmd, hq, hcmd, hrestores⟩ | howes
  · refine .inl ⟨s, hs, ?_⟩
    by_cases hst : s = t
    · subst hst
      exact hself hclaims
    · rwa [hother s hst]
  · obtain ⟨l, hl⟩ := hqueue q hq
    exact .inr (.inl ⟨_, cmd, hl, List.mem_append_left l hcmd, hrestores⟩)
  · exact .inr (.inr (by rwa [hmotor]))

/-- Sending only adds to the queue. -/
theorem Act.queue_of_send {e : Input} {m : Mem} {cmd : MotorCommand} {q : List MotorCommand}
    (hq : m.motorCmdQueue = some q) :
    ∃ l, ((Act.xQueueSend cmd).run e m).2.motorCmdQueue = some (q ++ l) := by
  cases hb : ((Act.xQueueSend cmd).run e m).1 with
  | true =>
    obtain ⟨q', hq', hafter⟩ := Act.run_send hb
    rw [hq] at hq'
    cases hq'
    exact ⟨[cmd], hafter⟩
  | false => exact ⟨[], by rw [Act.run_sendFails hb, hq, List.append_nil]⟩

theorem ClientMove.queue {isMain : Bool} {β : Type} {a : Act β} {b : β} {p q : ClientPhase}
    (h : ClientMove isMain a b p q) (e : Input) {m : Mem} {l : List MotorCommand}
    (hl : m.motorCmdQueue = some l) :
    ∃ l', (a.run e m).2.motorCmdQueue = some (l ++ l') := by
  have hkeep : a.writes .motorCmdQueue = false →
      (a.run e m).2.motorCmdQueue = m.motorCmdQueue := fun hw => Act.run_same hw e m
  induction h with
  | handOver | handOverFails | send => exact Act.queue_of_send hl
  | _ => exact ⟨[], by rw [hkeep rfl, hl, List.append_nil]⟩

/-- A claim stays until the state is written or a command is sent, unless it is lost. -/
theorem ClientMove.claims {isMain : Bool} {β : Type} {a : Act β} {b : β} {p q : ClientPhase}
    (h : ClientMove isMain a b p q) (hp : p.claims)
    (hleak : ∀ cmd, q ≠ .handling cmd .leaking) (hstate : a.writes .buretteState = false)
    (hqueue : a.writes .motorCmdQueue = false) : q.claims := by
  induction h with
  | leak => exact absurd rfl (hleak _)
  | claim | claimFails | casError | release => cases hstate
  | handOver | handOverFails | send => cases hqueue
  | @answer cmd s rsp hs =>
    cases s <;> first | exact absurd rfl hs | cases hp
  | _ => first | exact hp | cases hp

theorem LedgerInvariant.client {w : World} {t : Tid} {β : Type} {a : Act β} {e : Input}
    {q : ClientPhase} (hI : LedgerInvariant w) (hC : claimsUsable.allows t a e w)
    (hs : ClientStep w t a e q) : LedgerInvariant (w.did t a e) := by
  obtain ⟨ht, hmove, hself, hother, hmotor⟩ := hs
  have howed : Owed w → ((clientPhase t w.past).claims →
      (clientPhase t (w.did t a e).past).claims) → Owed (w.did t a e) :=
    fun hw hp => Owed.client hw hp hother hmotor fun l hl => hmove.queue e hl
  have hkept : ∀ cmd, q ≠ .handling cmd .leaking := by
    intro cmd hq
    have hbefore := hI.kept t ht
    generalize hb : (a.run e w.mem).1 = b at hmove
    generalize hp : clientPhase t w.past = p at hmove hbefore
    induction hmove with
    | @leak _ cmd' hcal =>
      have husable : ClientPhase.claimUsable cmd' w.mem.calCache = true := by
        simpa [claimsUsable, hp] using hC
      have hlost : ClientPhase.claimUsable cmd' w.mem.calCache = false := by
        rw [← hb] at hcal
        exact hcal
      rw [husable] at hlost
      cases hlost
    | @receive source req => cases hd : dispatched source req <;> simp [hd] at hq
    | _ => first | exact hbefore cmd hq | cases hq
  refine ⟨fun hunborn => ?_, fun s hs cmd => ?_, fun hbusy => ?_⟩
  · rw [hmotor] at hunborn
    exact hmove.queue_none e (hI.queue hunborn)
  · by_cases hst : s = t
    · subst hst
      rw [hself]
      exact hkept cmd
    · rw [hother s hst]
      exact hI.kept s hs cmd
  · have hkeep : a.writes .buretteState = false →
        (w.did t a e).mem.buretteState = w.mem.buretteState := fun hw => Act.run_same hw e w.mem
    have hclaims : a.writes .buretteState = false → a.writes .motorCmdQueue = false →
        Owed (w.did t a e) := by
      intro hstate hqueue
      rw [hkeep hstate] at hbusy
      refine howed (hI.owed hbusy) fun hp => ?_
      rw [hself]
      exact hmove.claims hp hkept hstate hqueue
    have hstays : (w.did t a e).mem.buretteState = w.mem.buretteState →
        (q.claims ∨ (clientPhase t w.past).claims = false) → Owed (w.did t a e) := by
      intro hstate hq
      rw [hstate] at hbusy
      refine howed (hI.owed hbusy) fun hp => ?_
      rw [hself]
      exact hq.resolve_right fun hnot => by simp [hnot] at hp
    generalize hb : (a.run e w.mem).1 = b at hmove
    generalize hp : clientPhase t w.past = p at hmove hstays
    induction hmove with
    | claim => exact .inl ⟨t, ht, by rw [hself]; rfl⟩
    | claimFails => exact hstays (by rw [World.did_mem, Act.run_casFails hb]) (.inr rfl)
    | @casError cmd ok =>
      cases ok with
      | true =>
        rw [World.did_mem, (Act.run_cas hb).2] at hbusy
        cases hbusy
      | false => exact hstays (by rw [World.did_mem, Act.run_casFails hb]) (.inr rfl)
    | release => cases hbusy
    | @handOver cmd mc hmc =>
      obtain ⟨l, -, hafter⟩ := Act.run_send hb
      exact .inr (.inl ⟨_, mc, hafter, by simp, hmc⟩)
    | handOverFails => exact hstays (hkeep rfl) (.inl rfl)
    | send => exact hstays (hkeep rfl) (.inr rfl)
    | _ => exact hclaims rfl rfl

/-- What changes neither a phase nor the state nor the queue keeps the ledger. -/
theorem LedgerInvariant.same {w w' : World} (hI : LedgerInvariant w)
    (hmotor : motorPhase w'.past = motorPhase w.past)
    (hclient : ∀ t : Tid, t.isClient → clientPhase t w'.past = clientPhase t w.past)
    (hstate : w'.mem.buretteState = w.mem.buretteState)
    (hqueue : w'.mem.motorCmdQueue = w.mem.motorCmdQueue) : LedgerInvariant w' := by
  obtain ⟨hunborn, hkept, howed⟩ := hI
  refine ⟨?_, fun t ht cmd => ?_, fun hbusy => ?_⟩
  · rwa [hmotor, hqueue]
  · rw [hclient t ht]
    exact hkept t ht cmd
  · rw [hstate] at hbusy
    rcases howed hbusy with ⟨t, ht, hclaims⟩ | hq | howes
    · exact .inl ⟨t, ht, by rwa [hclient t ht]⟩
    · exact .inr (.inl (by rwa [hqueue]))
    · exact .inr (.inr (by rwa [hmotor]))

/-- A handler that claims the burette and returns early is the only way to lose a claim. -/
theorem noStuckClaim_of_claimsUsable {b : Boot} {c : Config Act Tid World}
    (h : Steps claimsUsable.assumption b.config c) : NoStuckClaim c.shared := by
  have hI : LedgerInvariant c.shared := by
    refine system_invariant h ?_ ?_ ?_ ?_ ?_
    · exact ⟨fun _ => rfl, fun t _ cmd h => (by cases h), fun h => (by cases h)⟩
    · intro w t β a e hI hs
      exact hI.same hs.motor hs.client (hs.same .buretteState) (hs.same .motorCmdQueue)
    · intro w β a e q hI _ hs
      exact hI.motor hs
    · intro w t β a e q hI hC hs
      exact hI.client hC hs
    · intro w h m hI _ hm
      have hstate : Field.buretteState.Same w.mem m := Happening.run_internal hm rfl
      have hqueue : Field.motorCmdQueue.Same w.mem m := Happening.run_internal hm rfl
      exact hI.same rfl (fun _ _ => rfl) hstate hqueue
  exact hI.noStuckClaim

/-- A fill is requested and executed to its end, which the FULL switch brings about. -/
def Script.filled : Script :=
  boot ++ turns .http 1 ++ request .http { type := .fill } 12 ++ turns .motor 9 ++
    [.env (.level .full true), .env (.interrupt .full)] ++ turns .motor 11

theorem noStuckClaim_after_filled : ∃ c, Steps claimsUsable.assumption (Boot.config {}) c ∧
    motorPhase c.shared.past = .listening ∧ c.shared.mem.motorCmdQueue = some [] ∧
      NoStuckClaim c.shared := by
  have hrun : (device.run claimsUsable Script.filled (Boot.config {})).any
      (fun c => motorPhase c.shared.past = .listening ∧ c.shared.mem.motorCmdQueue = some []) =
        true := by decide +kernel
  obtain ⟨c, hsteps, hc⟩ := Machine.exists_of_run hrun
  obtain ⟨hmotor, hqueue⟩ := of_decide_eq_true hc
  exact ⟨c, hsteps, hmotor, hqueue, noStuckClaim_of_claimsUsable hsteps⟩

/-- A dose of 60 ml is requested, which no plan allows. -/
def Script.doseTooLarge : Script :=
  boot ++ turns .http 1 ++ request .http { type := .doseVolume, volume := some 60 } 6

/-- The handler answers `invalid_params` and keeps the burette claimed. -/
theorem doseTooLarge_stuck : ∃ c, Reachable {} c ∧ ¬ NoStuckClaim c.shared := by
  have hrun : (device.run (Guard.any device) Script.doseTooLarge (Boot.config {})).any
      (fun c => (clientPhase .main c.shared.past).midCall = false ∧
        (clientPhase .http c.shared.past).midCall = false ∧
        c.shared.mem.motorCmdQueue = some [] ∧ motorPhase c.shared.past = .listening ∧
        c.shared.mem.buretteState.isBusy = true) = true := by decide +kernel
  obtain ⟨c, hsteps, hc⟩ := Machine.exists_of_run hrun
  obtain ⟨hmain, hhttp, hqueue, hmotor, hbusy⟩ := of_decide_eq_true hc
  refine ⟨c, hsteps.weaken, fun hstuck => ?_⟩
  have hcalls : ∀ t : Tid, t.isClient → (clientPhase t c.shared.past).midCall = false := by
    intro t ht
    cases t with
    | main => exact hmain
    | http => exact hhttp
    | motor | timer => cases ht
  have hidle := hstuck hcalls hqueue hmotor
  rw [hbusy] at hidle
  cases hidle

end Owed
section Settled

/-- Nothing is outstanding: no handler has a claim, no claimed command is queued, and the motor task
is past homing and owes nothing. -/
def World.settled (w : World) : Bool :=
  !(clientPhase .main w.past).claims && !(clientPhase .http w.past).claims &&
    (w.mem.motorCmdQueue.all fun q => q.all fun cmd => !cmd.type.restoresIdle) &&
      (motorPhase w.past).booted && !(motorPhase w.past).owes

theorem World.settled_iff {w : World} : w.settled = true ↔
    (∀ t : Tid, t.isClient → (clientPhase t w.past).claims = false) ∧
      (∀ q, w.mem.motorCmdQueue = some q → ∀ cmd ∈ q, cmd.type.restoresIdle = false) ∧
        (motorPhase w.past).booted ∧ (motorPhase w.past).owes = false := by
  have hclients : (∀ t : Tid, t.isClient → (clientPhase t w.past).claims = false) ↔
      (clientPhase .main w.past).claims = false ∧ (clientPhase .http w.past).claims = false := by
    constructor
    · exact fun h => ⟨h .main rfl, h .http rfl⟩
    · intro h t ht
      cases t with
      | main => exact h.1
      | http => exact h.2
      | motor | timer => cases ht
  rw [hclients]
  simp only [World.settled, Bool.and_eq_true, Bool.not_eq_true', Option.all_eq_true,
    List.all_eq_true]
  tauto

/-- An event that can leave the error state alone. -/
def Event.keepsError (ev : Event) : Bool := ev.setsState.all (· = .error)

theorem MotorMove.booted {β : Type} {a : Act β} {b : β} {p q : MotorPhase}
    (h : MotorMove a b p q) (hp : p.booted) : q.booted := by
  induction h <;> first | rfl | exact hp

/-- A motor task that owes nothing writes no state but the error. -/
theorem MotorMove.settled {β : Type} {a : Act β} {b : β} {p q : MotorPhase} (m : Mem)
    (h : MotorMove a b p q) (hboot : p.booted) (hp : p.owes = false)
    (hlisten : p ≠ .listening) :
    q.owes = false ∧ (Event.did .motor a b m).keepsError := by
  induction h with
  | createFails | create | createResults | boot => cases hboot
  | listen | receiveNone | receive => exact absurd rfl hlisten
  | announce hop | restore hop =>
    have hrestores : Op.restores _ = false := hp
    rw [hop] at hrestores
    cases hrestores
  | restored => cases hp
  | latchError | finish | finishReady | enableFaulted => exact ⟨rfl, rfl⟩
  | fault hop hpl =>
    have hrestores := (Op.homes_types hop).1
    simp only [MotorPhase.owes] at hp
    grind -ring -linarith -ac [Place.leaves]
  | limitHit hop hpl =>
    have hrestores := Op.restores_of_moveSteps hop
    simp only [MotorPhase.owes] at hp
    grind -ring -linarith -ac [Place.leaves]
  | publish hop =>
    have hrestores : Op.restores _ = false := hp
    rw [Op.restores_of_produces hop] at hrestores
    cases hrestores
  | publishSteps hop hpl =>
    have hrestores := Op.restores_of_moveSteps hop
    simp only [MotorPhase.owes] at hp
    grind -ring -linarith -ac [Place.leaves]
  | _ =>
    refine ⟨?_, rfl⟩
    first
    | exact hp
    | (simp only [MotorPhase.owes] at hp ⊢
       grind -ring -linarith -ac [MotorPhase.owes, Place.leaves, Place.afterTransmit_cases,
         Place.afterAwait_cases])

/-- A task that listens for commands. -/
theorem MotorMove.listening {β : Type} {a : Act β} {p q : MotorPhase} {e : Input} {m : Mem}
    (h : MotorMove a (a.run e m).1 p q) (hp : p = .listening)
    (hqueue : ∀ l, m.motorCmdQueue = some l → ∀ cmd ∈ l, cmd.type.restoresIdle = false) :
    q.owes = false ∧ (Event.did .motor a (a.run e m).1 m).keepsError := by
  generalize hb : (a.run e m).1 = b at h
  induction h with
  | listen | receiveNone => exact ⟨rfl, rfl⟩
  | @receive cmd =>
    obtain ⟨rest, hrest, -⟩ := Act.run_receive hb
    exact ⟨hqueue _ hrest cmd List.mem_cons_self, rfl⟩
  | _ => cases hp

/-- Past power-up the motor task only takes commands out of its queue. -/
theorem MotorMove.queue {β : Type} {a : Act β} {p q : MotorPhase} {e : Input} {m : Mem}
    (h : MotorMove a (a.run e m).1 p q) (hboot : p.booted) {l : List MotorCommand}
    (hl : (a.run e m).2.motorCmdQueue = some l) :
    ∃ l', m.motorCmdQueue = some l' ∧ ∀ cmd ∈ l, cmd ∈ l' := by
  have hkeep : a.writes .motorCmdQueue = false →
      (a.run e m).2.motorCmdQueue = m.motorCmdQueue := fun hw => Act.run_same hw e m
  generalize hb : (a.run e m).1 = b at h
  induction h with
  | createFails | create | createResults | boot => cases hboot
  | receiveNone => exact ⟨l, by rwa [Act.run_receiveNone hb] at hl, fun _ => id⟩
  | receive =>
    obtain ⟨rest, hrest, hafter⟩ := Act.run_receive hb
    rw [hafter] at hl
    cases hl
    exact ⟨_, hrest, fun _ => List.mem_cons_of_mem _⟩
  | _ => exact ⟨l, by rwa [hkeep rfl] at hl, fun _ => id⟩

theorem Act.state_of_keepsError {t : Tid} {β : Type} {a : Act β} {e : Input} {m : Mem}
    (h : (Event.did t a (a.run e m).1 m).keepsError) :
    (a.run e m).2.buretteState = m.buretteState ∨ (a.run e m).2.buretteState = .error := by
  rw [Act.state_after t a e m]
  unfold Event.keepsError at h
  cases hset : (Event.did t a (a.run e m).1 m).setsState with
  | none => exact .inl rfl
  | some x =>
    rw [hset] at h
    exact .inr (of_decide_eq_true h)

theorem Event.keepsError_of_quiet {t : Tid} {β : Type} {a : Act β} (ha : a.quiet) (b : β)
    (m : Mem) : (Event.did t a b m).keepsError := by
  induction a with
  | store v x => induction v <;> first | rfl | cases ha
  | casBuretteState desired => cases ha
  | _ => rfl

theorem World.settled_same {w w' : World} (hw : w.settled)
    (hmotor : motorPhase w'.past = motorPhase w.past)
    (hclient : ∀ t : Tid, t.isClient → clientPhase t w'.past = clientPhase t w.past)
    (hqueue : w'.mem.motorCmdQueue = w.mem.motorCmdQueue) : w'.settled := by
  rw [World.settled_iff] at hw ⊢
  rw [hmotor, hqueue]
  exact ⟨fun t ht => by rw [hclient t ht]; exact hw.1 t ht, hw.2⟩

theorem World.settled_motor {w : World} {β : Type} {a : Act β} {e : Input} {q : MotorPhase}
    (hw : w.settled) (hs : MotorStep w a e q) :
    (w.did .motor a e).settled ∧ (Event.did .motor a (a.run e w.mem).1 w.mem).keepsError := by
  obtain ⟨hmove, hq, hclient⟩ := hs
  rw [World.settled_iff] at hw ⊢
  obtain ⟨hclaims, hqueue, hboot, howes⟩ := hw
  have hafter : q.owes = false ∧ (Event.did .motor a (a.run e w.mem).1 w.mem).keepsError := by
    by_cases hlisten : motorPhase w.past = .listening
    · exact hmove.listening hlisten hqueue
    · exact hmove.settled w.mem hboot howes hlisten
  refine ⟨⟨fun t ht => ?_, fun l hl cmd hcmd => ?_, ?_, ?_⟩, hafter.2⟩
  · rw [hclient t ht]
    exact hclaims t ht
  · obtain ⟨l', hl', hmem⟩ := hmove.queue hboot hl
    exact hqueue l' hl' cmd (hmem cmd hcmd)
  · rw [hq]
    exact hmove.booted hboot
  · rw [hq]
    exact hafter.1

/-- A client without a claim gets one only while the burette is idle, and sends no claimed
command. -/
theorem ClientMove.settled {isMain : Bool} {β : Type} {a : Act β} {p q : ClientPhase} {e : Input}
    {m : Mem} (t : Tid) (h : ClientMove isMain a (a.run e m).1 p q) (hp : p.claims = false)
    (hm : m.buretteState ≠ .idle) :
    q.claims = false ∧ (Event.did t a (a.run e m).1 m).keepsError ∧
      ∀ l, (a.run e m).2.motorCmdQueue = some l → ∀ cmd ∈ l,
        (∃ l', m.motorCmdQueue = some l' ∧ cmd ∈ l') ∨ cmd.type.restoresIdle = false := by
  have hkeep : a.writes .motorCmdQueue = false → ∀ l, (a.run e m).2.motorCmdQueue = some l →
      ∀ cmd ∈ l, (∃ l', m.motorCmdQueue = some l' ∧ cmd ∈ l') ∨ cmd.type.restoresIdle = false := by
    intro hw l hl cmd hcmd
    have hsame : (a.run e m).2.motorCmdQueue = m.motorCmdQueue := Act.run_same hw e m
    exact .inl ⟨l, hsame ▸ hl, hcmd⟩
  generalize hb : (a.run e m).1 = b at h
  induction h with
  | claim => exact absurd (Act.run_cas hb).1 hm
  | claimFails => exact ⟨rfl, rfl, hkeep rfl⟩
  | @casError cmd ok => cases ok <;> exact ⟨rfl, rfl, hkeep rfl⟩
  | useCal | handOver | handOverFails | release => cases hp
  | @send cmd mc ok hmc =>
    refine ⟨rfl, rfl, fun l hl cmd' hcmd => ?_⟩
    cases ok with
    | true =>
      obtain ⟨l', hl', hafter⟩ := Act.run_send hb
      rw [hafter] at hl
      cases hl
      rcases List.mem_append.mp hcmd with hmem | hmem
      · exact .inl ⟨l', hl', hmem⟩
      · rw [List.mem_singleton.mp hmem]
        exact .inr hmc
    | false =>
      rw [Act.run_sendFails hb] at hl
      exact .inl ⟨l, hl, hcmd⟩
  | @receive source req =>
    refine ⟨?_, rfl, hkeep rfl⟩
    cases dispatched source req <;> rfl
  | _ => exact ⟨by first | rfl | exact hp, rfl, hkeep rfl⟩

theorem World.settled_client {w : World} {t : Tid} {β : Type} {a : Act β} {e : Input}
    {q : ClientPhase} (hw : w.settled) (hidle : w.mem.buretteState ≠ .idle)
    (hs : ClientStep w t a e q) :
    (w.did t a e).settled ∧ (Event.did t a (a.run e w.mem).1 w.mem).keepsError := by
  obtain ⟨ht, hmove, hself, hother, hmotor⟩ := hs
  rw [World.settled_iff] at hw ⊢
  obtain ⟨hclaims, hqueue, hboot, howes⟩ := hw
  obtain ⟨hq, hkeeps, hsent⟩ := hmove.settled t (hclaims t ht) hidle
  refine ⟨⟨fun s hs => ?_, fun l hl cmd hcmd => ?_, ?_, ?_⟩, hkeeps⟩
  · by_cases hst : s = t
    · subst hst
      rw [hself]
      exact hq
    · rw [hother s hst]
      exact hclaims s hs
  · rcases hsent l hl cmd hcmd with ⟨l', hl', hmem⟩ | hnot
    · exact hqueue l' hl' cmd hmem
    · exact hnot
  · rw [hmotor]
    exact hboot
  · rw [hmotor]
    exact howes

end Settled

section ErrorLatched

/-- Once the state is error, nothing writes another state. -/
def ErrorLatched : List Event → Prop :=
  Throughout fun ev _ => ev.before.buretteState = .error → ev.keepsError

instance : DecidablePred ErrorLatched := decidableThroughout _

/-- The error is written only when nothing is outstanding any more. -/
def errorsSettle : Guard device where
  allows t _ a e w :=
    (Event.did t a (a.run e w.mem).1 w.mem).setsState ≠ some .error || (w.did t a e).settled
  allowsEnv _ _ := true

structure LatchInvariant (w : World) : Prop where
  latched : ErrorLatched w.past
  settled : w.mem.buretteState = .error → w.settled

/-- A step that starts in the error state only if nothing is outstanding. -/
theorem LatchInvariant.step {w : World} {t : Tid} {β : Type} {a : Act β} {e : Input}
    (hI : LatchInvariant w) (hC : errorsSettle.allows t a e w)
    (hs : w.settled → w.mem.buretteState = .error →
      (w.did t a e).settled ∧ (Event.did t a (a.run e w.mem).1 w.mem).keepsError) :
    LatchInvariant (w.did t a e) := by
  obtain ⟨hlatched, hsettled⟩ := hI
  refine ⟨⟨fun herror => (hs (hsettled herror) herror).2, hlatched⟩, fun herror => ?_⟩
  by_cases hbefore : w.mem.buretteState = .error
  · exact (hs (hsettled hbefore) hbefore).1
  · have hset : (Event.did t a (a.run e w.mem).1 w.mem).setsState = some .error := by
      rw [World.did_mem, Act.state_after t a e w.mem] at herror
      cases hset : (Event.did t a (a.run e w.mem).1 w.mem).setsState with
      | none =>
        rw [hset] at herror
        exact absurd herror hbefore
      | some x =>
        rw [hset] at herror
        exact congrArg some herror
    have hC : ((Event.did t a (a.run e w.mem).1 w.mem).setsState ≠ some .error ||
        (w.did t a e).settled) = true := hC
    simpa [hset] using hC

/-- In a run in which the error is written only when nothing is outstanding, it is latched. -/
theorem latched_of_errorsSettle {b : Boot} {c : Config Act Tid World}
    (h : Steps errorsSettle.assumption b.config c) : ErrorLatched c.shared.past := by
  have hI : LatchInvariant c.shared := by
    refine system_invariant h ?_ ?_ ?_ ?_ ?_
    · exact ⟨trivial, fun h => (by cases h)⟩
    · intro w t β a e hI hs
      obtain ⟨hlatched, hsettled⟩ := hI
      refine ⟨⟨fun _ => Event.keepsError_of_quiet hs.quiet _ _, hlatched⟩, fun herror => ?_⟩
      have hstate : (w.did t a e).mem.buretteState = w.mem.buretteState := hs.same .buretteState
      rw [hstate] at herror
      exact World.settled_same (hsettled herror) hs.motor hs.client (hs.same .motorCmdQueue)
    · intro w β a e q hI hC hs
      exact hI.step hC fun hw _ => World.settled_motor hw hs
    · intro w t β a e q hI hC hs
      refine hI.step hC fun hw herror => World.settled_client hw ?_ hs
      rw [herror]
      decide
    · intro w h m hI _ hm
      have hstate : Field.buretteState.Same w.mem m := Happening.run_internal hm rfl
      have hqueue : Field.motorCmdQueue.Same w.mem m := Happening.run_internal hm rfl
      obtain ⟨hlatched, hsettled⟩ := hI
      refine ⟨⟨fun _ => rfl, hlatched⟩, fun herror => ?_⟩
      rw [hstate] at herror
      exact World.settled_same (hsettled herror) rfl (fun _ _ => rfl) hqueue
  exact hI.latched

/-- An emergency stop of a device at rest. -/
def Script.stoppedAtRest : Script :=
  boot ++ turns .http 1 ++ request .http { type := .emergencyStop } 7 ++ turns .motor 8

theorem latched_after_stoppedAtRest : ∃ c, Steps errorsSettle.assumption (Boot.config {}) c ∧
    c.shared.mem.buretteState = .error ∧ ErrorLatched c.shared.past := by
  have hrun : (device.run errorsSettle Script.stoppedAtRest (Boot.config {})).any
      (fun c => c.shared.mem.buretteState = .error) = true := rfl
  obtain ⟨c, hsteps, hc⟩ := Machine.exists_of_run hrun
  exact ⟨c, hsteps, of_decide_eq_true hc, latched_of_errorsSettle hsteps⟩

/-- The fill that its switch cuts short writes the error, and then its result writes idle. -/
theorem filled_unlatched : ∃ c, Reachable {} c ∧ ¬ ErrorLatched c.shared.past := by
  have hrun : (device.run (Guard.any device) Script.filled (Boot.config {})).any
      (fun c => decide (¬ ErrorLatched c.shared.past)) = true := by decide +kernel
  obtain ⟨c, hsteps, hc⟩ := Machine.exists_of_run hrun
  exact ⟨c, hsteps.weaken, of_decide_eq_true hc⟩

end ErrorLatched

section Recovery

/-- The burette can become idle again, whatever is requested. -/
def Recoverable (c : Config Act Tid World) : Prop :=
  ∃ c', Steps (.any device) c c' ∧ c'.shared.mem.buretteState = .idle

/-- Not idle, and nothing is outstanding. -/
structure Stranded (w : World) : Prop where
  settled : w.settled
  notIdle : w.mem.buretteState ≠ .idle

theorem Stranded.step {w : World} {t : Tid} {β : Type} {a : Act β} {e : Input} (hw : Stranded w)
    (hs : (w.did t a e).settled ∧ (Event.did t a (a.run e w.mem).1 w.mem).keepsError) :
    Stranded (w.did t a e) := by
  refine ⟨hs.1, fun hidle => ?_⟩
  rcases Act.state_of_keepsError hs.2 with hsame | herror
  · exact hw.notIdle (hsame ▸ hidle)
  · rw [World.did_mem, herror] at hidle
    cases hidle

/-- A stranded device stays stranded. -/
theorem Stranded.forever {b : Boot} {c c' : Config Act Tid World} (hc : Reachable b c)
    (hw : Stranded c.shared) (h : Steps (.any device) c c') : Stranded c'.shared := by
  refine run_invariant h hc.obeys hw ?_ ?_ ?_ ?_
  · intro w t β a e hw hs
    exact hw.step ⟨World.settled_same hw.settled hs.motor hs.client (hs.same .motorCmdQueue),
      Event.keepsError_of_quiet hs.quiet _ _⟩
  · intro w β a e q hw _ hs
    exact hw.step (World.settled_motor hw.settled hs)
  · intro w t β a e q hw _ hs
    exact hw.step (World.settled_client hw.settled hw.notIdle hs)
  · intro w h m hw _ hm
    have hstate : Field.buretteState.Same w.mem m := Happening.run_internal hm rfl
    have hqueue : Field.motorCmdQueue.Same w.mem m := Happening.run_internal hm rfl
    exact ⟨World.settled_same hw.settled rfl (fun _ _ => rfl) hqueue,
      fun hidle => hw.notIdle (hstate ▸ hidle)⟩

theorem World.settled_of_rest {w : World} (hmotor : motorPhase w.past = .listening)
    (hqueue : w.mem.motorCmdQueue = some [])
    (hclients : ∀ t : Tid, t.isClient → (clientPhase t w.past).claims = false) : w.settled := by
  rw [World.settled_iff, hmotor, hqueue]
  refine ⟨hclients, fun q hq cmd hcmd => ?_, rfl, rfl⟩
  cases hq
  cases hcmd

/-- With the motor task idle, the queue empty and no handler holding a claim, the burette can become
idle again exactly if it is idle. -/
theorem recoverable_iff_idle {b : Boot} {c : Config Act Tid World} (hc : Reachable b c)
    (hmotor : motorPhase c.shared.past = .listening)
    (hqueue : c.shared.mem.motorCmdQueue = some [])
    (hclients : ∀ t : Tid, t.isClient → (clientPhase t c.shared.past).claims = false) :
    Recoverable c ↔ c.shared.mem.buretteState = .idle := by
  constructor
  · rintro ⟨c', hsteps, hidle⟩
    by_contra hstate
    have hrest := World.settled_of_rest hmotor hqueue hclients
    exact (Stranded.forever hc ⟨hrest, hstate⟩ hsteps).notIdle hidle
  · intro hidle
    exact ⟨c, .refl, hidle⟩

/-- What a script must show of the configuration it ends in. -/
def atRest (c : Config Act Tid World) : Bool :=
  motorPhase c.shared.past = .listening && c.shared.mem.motorCmdQueue = some [] &&
    !(clientPhase .main c.shared.past).claims && !(clientPhase .http c.shared.past).claims

theorem atRest_iff {c : Config Act Tid World} (h : atRest c = true) :
    motorPhase c.shared.past = .listening ∧ c.shared.mem.motorCmdQueue = some [] ∧
      ∀ t : Tid, t.isClient → (clientPhase t c.shared.past).claims = false := by
  simp only [atRest, Bool.and_eq_true, decide_eq_true_eq, Bool.not_eq_true'] at h
  refine ⟨h.1.1.1, h.1.1.2, fun t ht => ?_⟩
  cases t with
  | main => exact h.1.2
  | http => exact h.2
  | motor | timer => cases ht

theorem recoverable_after_filled : ∃ c, Reachable {} c ∧ atRest c ∧
    (Recoverable c ↔ c.shared.mem.buretteState = .idle) := by
  have hrun : (device.run (Guard.any device) Script.filled (Boot.config {})).any
      atRest = true := by decide +kernel
  obtain ⟨c, hsteps, hc⟩ := Machine.exists_of_run hrun
  obtain ⟨hmotor, hqueue, hclients⟩ := atRest_iff hc
  exact ⟨c, hsteps.weaken, hc, recoverable_iff_idle hsteps.weaken hmotor hqueue hclients⟩

/-- After an emergency stop nothing can make the burette idle again. -/
theorem stoppedAtRest_stranded : ∃ c, Reachable {} c ∧ atRest c ∧ ¬ Recoverable c := by
  have hrun : (device.run (Guard.any device) Script.stoppedAtRest (Boot.config {})).any
      (fun c => atRest c && c.shared.mem.buretteState = .error) = true := rfl
  obtain ⟨c, hsteps, hc⟩ := Machine.exists_of_run hrun
  rw [Bool.and_eq_true] at hc
  obtain ⟨hmotor, hqueue, hclients⟩ := atRest_iff hc.1
  refine ⟨c, hsteps.weaken, hc.1, ?_⟩
  rintro ⟨c', hsteps', hidle⟩
  have herror : c.shared.mem.buretteState = .error := of_decide_eq_true hc.2
  have hstranded : Stranded c.shared :=
    ⟨World.settled_of_rest hmotor hqueue hclients, fun h => by rw [herror] at h; cases h⟩
  exact (hstranded.forever hsteps.weaken hsteps').notIdle hidle

end Recovery
end Ecotiter
