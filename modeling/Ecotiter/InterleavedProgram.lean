import Mathlib.Logic.Relation
import Mathlib.Logic.Function.Basic

/-!
# Interleaved programs over a shared state

A `Program A α` is a thread of control that performs atomic actions of type `A`. It is a tree
whose nodes are actions and whose only unbounded construct is `loop`, an iteration that is unfolded
one turn at a time. A `Machine` says what each action does to the shared state when a given thread
performs it, and which further changes the environment may make between two actions.

Nothing here fixes the actions, the threads or the state.
-/

namespace Interleaving

universe u v

inductive Program (A : Type → Type v) : Type → Type (max 1 v)
  | ret {α : Type} (a : α) : Program A α
  | act {α β : Type} (a : A β) (next : β → Program A α) : Program A α
  | loop {α β γ : Type} (body : β → Program A (β ⊕ γ)) (b : β) (next : γ → Program A α) :
      Program A α

namespace Program
variable {A : Type → Type v} {α β γ δ : Type}

def bind : Program A α → (α → Program A δ) → Program A δ
  | .ret a, f => f a
  | .act a next, f => .act a (fun b => (next b).bind f)
  | .loop body b next, f => .loop body b (fun c => (next c).bind f)

instance : Monad (Program A) where
  pure := .ret
  bind := bind

/-- A single atomic action. -/
abbrev perform (a : A β) : Program A β := .act a .ret

/-- Repeats `body` from `b` until it answers on the right. -/
abbrev iterate (body : β → Program A (β ⊕ γ)) (b : β) : Program A γ := .loop body b .ret

/-- One turn of a loop, followed by the rest of the loop. -/
def unroll (body : β → Program A (β ⊕ γ)) (b : β) (next : γ → Program A α) : Program A α :=
  (body b).bind (Sum.elim (fun b' => .loop body b' next) next)

theorem pure_eq (a : α) : (pure a : Program A α) = .ret a := rfl

theorem bind_eq (p : Program A α) (f : α → Program A β) : p >>= f = p.bind f := rfl

@[simp] theorem ret_bind (a : α) (f : α → Program A β) : (.ret a >>= f) = f a := rfl

@[simp] theorem pure_bind (a : α) (f : α → Program A β) : ((pure a : Program A α) >>= f) = f a :=
  rfl

@[simp] theorem act_bind (a : A β) (next : β → Program A α) (f : α → Program A δ) :
    (.act a next >>= f) = .act a (fun b => next b >>= f) := rfl

@[simp] theorem loop_bind (body : β → Program A (β ⊕ γ)) (b : β) (next : γ → Program A α)
    (f : α → Program A δ) : (.loop body b next >>= f) = .loop body b (fun c => next c >>= f) := rfl

theorem bind_assoc (p : Program A α) (f : α → Program A β) (g : β → Program A γ) :
    (p.bind f).bind g = p.bind (fun a => (f a).bind g) := by
  induction p with
  | ret a => rfl
  | act a next ih => simp only [bind, ih]
  | loop body b next _ ih => simp only [bind, ih]

theorem unroll_bind (body : β → Program A (β ⊕ γ)) (b : β) (next : γ → Program A α)
    (f : α → Program A δ) :
    (unroll body b next).bind f = unroll body b (fun c => (next c).bind f) := by
  rw [unroll, bind_assoc, unroll]
  congr 1
  funext r
  cases r <;> rfl

end Program

/-- The meaning of atomic actions: what thread `i` gets back and leaves behind when it performs
`a` with outcome `e` chosen by the surroundings, and what the environment does by itself. -/
structure Machine (A : Type → Type v) (ι ε η : Type) (σ : Type u) where
  exec : ι → {β : Type} → A β → ε → σ → β × σ
  env : η → σ → Option σ
  running : σ → Bool

/-- A restriction on runs: which actions and environment changes are considered, and where. -/
structure Assumption {A : Type → Type v} {ι ε η : Type} {σ : Type u} (M : Machine A ι ε η σ) where
  allows : ι → {β : Type} → A β → ε → σ → Prop
  allowsEnv : η → σ → Prop

/-- All runs of the machine. -/
def Assumption.any {A : Type → Type v} {ι ε η : Type} {σ : Type u} (M : Machine A ι ε η σ) :
    Assumption M where
  allows _ _ _ _ _ := True
  allowsEnv _ _ := True

/-- An assumption that can be evaluated. -/
structure Guard {A : Type → Type v} {ι ε η : Type} {σ : Type u} (M : Machine A ι ε η σ) where
  allows : ι → {β : Type} → A β → ε → σ → Bool
  allowsEnv : η → σ → Bool

def Guard.any {A : Type → Type v} {ι ε η : Type} {σ : Type u} (M : Machine A ι ε η σ) :
    Guard M where
  allows _ _ _ _ _ := true
  allowsEnv _ _ := true

def Guard.assumption {A : Type → Type v} {ι ε η : Type} {σ : Type u} {M : Machine A ι ε η σ}
    (G : Guard M) : Assumption M where
  allows i _ a e s := G.allows i a e s = true
  allowsEnv h s := G.allowsEnv h s = true

structure Config (A : Type → Type v) (ι : Type) (σ : Type u) where
  shared : σ
  thread : ι → Program A Unit

inductive Label (ι ε η : Type)
  | thread (i : ι) (e : ε)
  | env (h : η)

section Runs
variable {A : Type → Type v} {ι ε η : Type} {σ : Type u} {M : Machine A ι ε η σ} [DecidableEq ι]

/-- One atomic step of an interleaved run that respects the assumption. -/
inductive Step (C : Assumption M) : Config A ι σ → Config A ι σ → Prop
  | act {c : Config A ι σ} (i : ι) {β : Type} {a : A β} {next : β → Program A Unit} (e : ε) :
      M.running c.shared → c.thread i = .act a next → C.allows i a e c.shared →
      Step C c ⟨(M.exec i a e c.shared).2,
        Function.update c.thread i (next (M.exec i a e c.shared).1)⟩
  | loop {c : Config A ι σ} (i : ι) {β γ : Type} {body : β → Program A (β ⊕ γ)} {b : β}
      {next : γ → Program A Unit} :
      M.running c.shared → c.thread i = .loop body b next →
      Step C c ⟨c.shared, Function.update c.thread i (.unroll body b next)⟩
  | env {c : Config A ι σ} (h : η) {s : σ} :
      M.running c.shared → C.allowsEnv h c.shared → M.env h c.shared = some s →
      Step C c ⟨s, c.thread⟩

/-- `Steps C c c'`: some run from `c` all of whose steps respect `C` ends in `c'`. -/
def Steps (C : Assumption M) : Config A ι σ → Config A ι σ → Prop :=
  Relation.ReflTransGen (Step C)

theorem Step.weaken {C : Assumption M} {c c' : Config A ι σ} (h : Step C c c') :
    Step (.any M) c c' := by
  cases h with
  | act i e hr ht _ => exact .act i e hr ht trivial
  | loop i hr ht => exact .loop i hr ht
  | env h hr _ hs => exact .env h hr trivial hs

theorem Steps.weaken {C : Assumption M} {c c' : Config A ι σ} (h : Steps C c c') :
    Steps (.any M) c c' :=
  Relation.ReflTransGen.mono (fun _ _ hs => hs.weaken) _ _ h

/-- The steps of `C` from and to states where `J` holds. -/
def Assumption.within (C : Assumption M) (J : σ → Prop) : Assumption M where
  allows i _ a e s := C.allows i a e s ∧ J s ∧ J (M.exec i a e s).2
  allowsEnv h s := C.allowsEnv h s ∧ J s

/-- What holds in all configurations that a run can reach may be assumed of its steps. -/
theorem Steps.within {C : Assumption M} {J : σ → Prop} {c c' : Config A ι σ} (h : Steps C c c')
    (hJ : ∀ d, Steps C c d → J d.shared) : Steps (C.within J) c c' := by
  induction h with
  | refl => exact .refl
  | tail hpast hs ih =>
    have hbefore := hJ _ hpast
    have hafter := hJ _ (hpast.tail hs)
    refine ih.tail ?_
    cases hs with
    | act i e hr ht ha => exact .act i e hr ht ⟨ha, hbefore, hafter⟩
    | loop i hr ht => exact .loop i hr ht
    | env h hr ha hs => exact .env h hr ⟨ha, hbefore⟩ hs

/-- What every admitted action and every admitted change of the environment preserve holds at the
end of every run. -/
theorem Steps.invariant {C : Assumption M} {c c' : Config A ι σ} {I : σ → Prop}
    (h : Steps C c c') (h0 : I c.shared)
    (hact : ∀ i {β : Type} (a : A β) e s, I s → M.running s → C.allows i a e s →
      I (M.exec i a e s).2)
    (henv : ∀ h s s', I s → M.running s → C.allowsEnv h s → M.env h s = some s' → I s') :
    I c'.shared := by
  induction h with
  | refl => exact h0
  | tail _ hs ih =>
    cases hs with
    | act i e hr _ ha => exact hact i _ e _ ih hr ha
    | loop => exact ih
    | env h hr ha hs => exact henv h _ _ ih hr ha hs

/-- What a label does, as a function; it is undefined where the label is not enabled or the guard
does not admit it. -/
def Machine.next (M : Machine A ι ε η σ) (G : Guard M) (c : Config A ι σ) :
    Label ι ε η → Option (Config A ι σ)
  | .thread i e =>
    if M.running c.shared then
      match c.thread i with
      | .ret _ => none
      | .act a next =>
        if G.allows i a e c.shared then
          some ⟨(M.exec i a e c.shared).2,
            Function.update c.thread i (next (M.exec i a e c.shared).1)⟩
        else none
      | .loop body b next => some ⟨c.shared, Function.update c.thread i (.unroll body b next)⟩
    else none
  | .env h =>
    if M.running c.shared ∧ G.allowsEnv h c.shared then (M.env h c.shared).map (⟨·, c.thread⟩)
    else none

/-- The run with the given labels. -/
def Machine.run (M : Machine A ι ε η σ) (G : Guard M) :
    List (Label ι ε η) → Config A ι σ → Option (Config A ι σ)
  | [], c => some c
  | l :: ls, c => (M.next G c l).bind (M.run G ls)

variable {G : Guard M}

theorem Machine.step_of_next {c c' : Config A ι σ} {l : Label ι ε η} (h : M.next G c l = some c') :
    Step G.assumption c c' := by
  cases l with
  | thread i e =>
    simp only [Machine.next] at h
    split at h
    case isTrue hr =>
      split at h
      case h_1 => cases h
      case h_2 heq =>
        split at h
        case isTrue ha =>
          cases h
          exact .act i e hr heq ha
        case isFalse => cases h
      case h_3 heq =>
        cases h
        exact .loop i hr heq
    case isFalse => cases h
  | env η =>
    simp only [Machine.next] at h
    split at h
    case isTrue hr =>
      obtain ⟨s, hs, rfl⟩ := Option.map_eq_some_iff.mp h
      exact .env η hr.1 hr.2 hs
    case isFalse => cases h

theorem Machine.steps_of_run {ls : List (Label ι ε η)} {c c' : Config A ι σ}
    (h : M.run G ls c = some c') : Steps G.assumption c c' := by
  induction ls generalizing c with
  | nil =>
    cases h
    exact .refl
  | cons l ls ih =>
    obtain ⟨d, hd, hrest⟩ := Option.bind_eq_some_iff.mp h
    exact .head (step_of_next hd) (ih hrest)

/-- A computed run shows that a configuration with a given property can be reached. -/
theorem Machine.exists_of_run {ls : List (Label ι ε η)} {c : Config A ι σ}
    {p : Config A ι σ → Bool} (h : (M.run G ls c).any p = true) :
    ∃ c', Steps G.assumption c c' ∧ p c' = true := by
  obtain ⟨c', hc', hp⟩ := (Option.any_eq_true _ _).mp h
  exact ⟨c', steps_of_run hc', hp⟩

/-- What thread `i` does if it runs a program without loops by itself, with the same outcome chosen
for each action: the answer and the state it leaves. -/
def Program.alone (M : Machine A ι ε η σ) (i : ι) (e : ε) {α : Type} :
    Program A α → σ → Option (α × σ)
  | .ret a, s => some (a, s)
  | .act a next, s =>
    if M.running s then (next (M.exec i a e s).1).alone M i e (M.exec i a e s).2 else none
  | .loop _ _ _, _ => none

end Runs
end Interleaving
