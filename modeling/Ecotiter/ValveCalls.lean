import Ecotiter.HistoryPhases

/-!
# Calls that concern the valve

The control flow of the clients and of the motor task as far as it touches `gValveIsSettling` and
the settle timer: a burette handler reads the flag before it claims the burette, `handleSetPosition`
reads the state, raises the flag and arms the timer, an emergency stop cancels the timer and lowers
the flag. A failed check of the platform leads to `dead`, where the device stops.
-/

namespace Ecotiter
open Interleaving Firmware

inductive ValveCall
  | outside
  | valveClear                -- `gValveIsSettling` was read clear
  | stateIdle                 -- `gBuretteState` was read idle
  | acquired                  -- `gValveIsSettling` is raised
  | existing                  -- the timer exists
  | missing                   -- the timer does not exist yet
  | rearming (armed : Bool)   -- `s_valveTimerArmed` is raised, and was `armed`
  | created                   -- the timer was created by this call
  | started (first : Bool)    -- the timer runs, and was created by this call
  | cancelling                -- `s_valveTimerArmed` is lowered, and was raised
  | stopping                  -- the timer that is to be stopped exists
  | cancelled                 -- the timer is stopped
  | failing                   -- the platform has refused something
  | dead
  deriving DecidableEq, Repr

namespace ValveCall

/-- In no section of code that the settle timer depends on. -/
def calm : ValveCall → Bool
  | .outside | .valveClear | .stateIdle => true
  | _ => false

/-- The phases in which a handler answers. -/
def answers : ValveCall → Bool
  | .outside | .valveClear | .stateIdle | .started _ => true
  | _ => false

def onLoadSettling (settling : Bool) (p : ValveCall) : Option ValveCall :=
  if p.calm then some (if settling then .outside else .valveClear) else none

def onLoadState (state : BuretteState) (p : ValveCall) : Option ValveCall :=
  if p = .valveClear then some .valveClear
  else if p.calm then some (if state = .idle then .stateIdle else .outside)
  else none

def onCas (desired : BuretteState) : ValveCall → Option ValveCall
  | .valveClear => some .outside
  | .outside => if desired = .error then some .outside else none
  | _ => none

def onAcquire (ok : Bool) : ValveCall → Option ValveCall
  | .stateIdle => some (if ok then .acquired else .outside)
  | _ => none

def onIsCreated (yes : Bool) : ValveCall → Option ValveCall
  | .acquired => some (if yes then .existing else .missing)
  | .cancelling => some (if yes then .stopping else .cancelled)
  | _ => none

def onExchange (armed before : Bool) (p : ValveCall) : Option ValveCall :=
  if armed then if p = .existing then some (.rearming before) else none
  else if p.calm then some (if before then .cancelling else .cancelled)
  else none

def onCreate (err : EspErr) : ValveCall → Option ValveCall
  | .missing => some (if err = .ok then .created else .failing)
  | _ => none

def onStop (err : EspErr) : ValveCall → Option ValveCall
  | .rearming true => some (if err = .ok ∨ err = .invalidState then .rearming false else .failing)
  | .stopping => some (if err = .ok ∨ err = .invalidState then .cancelled else .failing)
  | _ => none

def onStart (err : EspErr) : ValveCall → Option ValveCall
  | .rearming false => some (if err = .ok then .started false else .failing)
  | .created => some (if err = .ok then .started true else .failing)
  | _ => none

def onStoreSettling (settling : Bool) : ValveCall → Option ValveCall
  | .cancelled => if settling then none else some .outside
  | _ => none

def onReceive (p : ValveCall) : Option ValveCall :=
  if p.calm then some .outside else none

def onRespond (p : ValveCall) : Option ValveCall :=
  if p.answers then some .outside else none

def next (p : ValveCall) : {β : Type} → Act β → β → Option ValveCall
  | _, .load .valveIsSettling, settling => if p = .dead then some p else onLoadSettling settling p
  | _, .load .buretteState, state => if p = .dead then some p else onLoadState state p
  | _, .casBuretteState desired, _ => if p = .dead then some p else onCas desired p
  | _, .casValveIsSettling, ok => if p = .dead then some p else onAcquire ok p
  | _, .espTimerIsCreated, yes => if p = .dead then some p else onIsCreated yes p
  | _, .exchangeTimerArmed armed, before => if p = .dead then some p else onExchange armed before p
  | _, .espTimerCreate _, err => if p = .dead then some p else onCreate err p
  | _, .espTimerStop, err => if p = .dead then some p else onStop err p
  | _, .espTimerStartOnce, err => if p = .dead then some p else onStart err p
  | _, .store .valveIsSettling b, _ => if p = .dead then some p else onStoreSettling b p
  | _, .store .valveTimerArmed _, _ | _, .espTimerExpired, _ => if p = .dead then some p else none
  | _, .receiveRequest _, _ => if p = .dead then some p else onReceive p
  | _, .respond _, _ => if p = .dead then some p else onRespond p
  | _, .abort, _ => some .dead
  | _, _, _ => some p

end ValveCall

def valveProtocol : Protocol Act ValveCall := ⟨fun p _ a b => p.next a b⟩

@[simp] theorem valveProtocol_next (p : ValveCall) {β : Type} (a : Act β) (b : β) :
    valveProtocol.next p a b = p.next a b := rfl

/-- The actions that do not concern the valve. -/
def Act.valveNeutral : {β : Type} → Act β → Bool
  | _, .load .valveIsSettling | _, .load .buretteState | _, .casBuretteState _
  | _, .casValveIsSettling | _, .espTimerIsCreated | _, .exchangeTimerArmed _
  | _, .espTimerCreate _ | _, .espTimerStop | _, .espTimerStartOnce
  | _, .store .valveIsSettling _ | _, .store .valveTimerArmed _ | _, .espTimerExpired
  | _, .receiveRequest _ | _, .respond _ | _, .abort => false
  | _, _ => true

@[simp] theorem Act.valveNeutral_xQueueSend (cmd : MotorCommand) :
    (Act.xQueueSend cmd).valveNeutral = true := by
  rfl

namespace ValveCall

@[simp] theorem next_receiveRequest (source : Source) (req : Option Request) :
    next .outside (.receiveRequest source) req = some .outside := by
  simp [next, onReceive, calm]

theorem next_neutral (p : ValveCall) {β : Type} (a : Act β) (b : β) (ha : a.valveNeutral) :
    p.next a b = some p := by
  induction a with
  | load v => induction v <;> first | rfl | cases ha
  | store v x => induction v <;> first | rfl | cases ha
  | _ => first | rfl | cases ha

theorem next_dead {β : Type} (a : Act β) (b : β) : next .dead a b = some .dead := by
  induction a with
  | load v => induction v <;> rfl
  | store v x => induction v <;> rfl
  | _ => rfl

/-- Follows the phases from `p` on and returns as `Q` says, unless the device stops. -/
abbrev ValveFollows {α : Type} (prog : Firmware α) (p : ValveCall) (Q : α → ValveCall → Prop) :
    Prop :=
  valveProtocol.Conforms (fun a q => Q a q ∨ q = .dead) prog p

theorem follows_dead {α : Type} (prog : Firmware α) (Q : α → ValveCall → Prop) :
    ValveFollows prog .dead Q :=
  (Protocol.conforms_of_absorbing next_dead prog).mono fun _ _ => .inr

theorem ValveFollows.andThen {α γ : Type} {prog : Firmware α} {f : α → Firmware γ} {p : ValveCall}
    {Q : α → ValveCall → Prop} {R : γ → ValveCall → Prop} (h : ValveFollows prog p Q)
    (hf : ∀ a q, Q a q → ValveFollows (f a) q R) : ValveFollows (prog >>= f) p R := by
  refine Protocol.Conforms.bind h ?_
  intro a q hq
  rcases hq with hq | hq
  · exact hf a q hq
  · subst hq
    exact follows_dead (f a) R

theorem ValveFollows.iterate {β γ : Type} {body : β → Firmware (β ⊕ γ)} {b : β} {p : ValveCall}
    {Q : γ → ValveCall → Prop} (J : β → ValveCall → Prop)
    (hbody : ∀ b q, J b q → ValveFollows (body b) q (Sum.elim J Q)) (hJ : J b p) :
    ValveFollows (.iterate body b) p Q := by
  refine Protocol.Conforms.iterate (fun b q => J b q ∨ q = .dead) ?_ (.inl hJ)
  intro b q hq
  have hturn : ValveFollows (body b) q (Sum.elim J Q) := by
    rcases hq with hq | hq
    · exact hbody b q hq
    · subst hq
      exact follows_dead (body b) _
  refine hturn.mono ?_
  intro r q hq
  cases r <;> exact hq

theorem follows_neutral {α : Type} {prog : Firmware α} (h : prog.Only Act.valveNeutral)
    (p : ValveCall) : ValveFollows prog p (fun _ q => q = p) :=
  (h.keeps fun a b ha => next_neutral p a b ha).mono fun _ _ => .inl

end ValveCall
end Ecotiter
