import Ecotiter.InterleavedProgram
import Mathlib.Data.Nat.Notation

/-!
# Protocols of interleaved programs

A `Protocol` describes the control flow of one thread as a partial automaton over its actions and
their answers. `Conforms` says that a program performs, whatever the answers, only actions the
protocol admits at that point; its rules follow the constructors of `Program`. If every thread
conforms and the shared state records each thread's phase, then along every run each action is one
its thread's protocol admits (`Steps.obeying`), so that invariants of the whole system follow by
cases on phases and actions, without looking at the programs again.
-/

namespace Interleaving

universe u v

structure Protocol (A : Type → Type v) (φ : Type) where
  next : φ → {β : Type} → A β → β → Option φ

namespace Protocol
variable {A : Type → Type v} {φ α β γ δ : Type}

/-- The first `n` nodes of the program, along every sequence of answers, follow the protocol. -/
def Follows (P : Protocol A φ) : ℕ → {α : Type} → (α → φ → Prop) → Program A α → φ → Prop
  | 0, _, _, _, _ => True
  | _ + 1, _, Q, .ret a, p => Q a p
  | n + 1, _, Q, .act a next, p => ∀ b, ∃ p', P.next p a b = some p' ∧ P.Follows n Q (next b) p'
  | n + 1, _, Q, .loop body b next, p => P.Follows n Q (.unroll body b next) p

/-- Started in phase `p` the program follows the protocol, and `Q` holds of its answer and of the
phase in which it returns. -/
def Conforms (P : Protocol A φ) (Q : α → φ → Prop) (prog : Program A α) (p : φ) : Prop :=
  ∀ n, P.Follows n Q prog p

variable {P : Protocol A φ} {Q : α → φ → Prop}

theorem Follows.pred {n : ℕ} {prog : Program A α} {p : φ} (h : P.Follows (n + 1) Q prog p) :
    P.Follows n Q prog p := by
  induction n generalizing prog p with
  | zero => trivial
  | succ n ih =>
    cases prog with
    | ret a => exact h
    | act a next =>
      intro b
      obtain ⟨p', hp, hf⟩ := h b
      exact ⟨p', hp, ih hf⟩
    | loop body b next => exact ih h

theorem Follows.mono {m n : ℕ} {prog : Program A α} {p : φ} (hmn : m ≤ n)
    (h : P.Follows n Q prog p) : P.Follows m Q prog p := by
  induction hmn with
  | refl => exact h
  | step _ ih => exact ih h.pred

theorem Follows.bind {R : δ → φ → Prop} {f : α → Program A δ} {n : ℕ} {prog : Program A α} {p : φ}
    (h : P.Follows n Q prog p) (hf : ∀ a p m, m ≤ n → Q a p → P.Follows m R (f a) p) :
    P.Follows n R (prog.bind f) p := by
  induction n generalizing prog p with
  | zero => trivial
  | succ n ih =>
    have hf' : ∀ a p m, m ≤ n → Q a p → P.Follows m R (f a) p :=
      fun a p m hm => hf a p m (Nat.le_succ_of_le hm)
    cases prog with
    | ret a => exact hf a p (n + 1) (Nat.le_refl _) h
    | act a next =>
      intro b
      obtain ⟨p', hp, hn⟩ := h b
      exact ⟨p', hp, ih hn hf'⟩
    | loop body b next =>
      have hbody := ih h hf'
      rwa [Program.unroll_bind] at hbody

@[simp] theorem conforms_ret {a : α} {p : φ} : P.Conforms Q (.ret a) p ↔ Q a p :=
  ⟨fun h => h 1, fun h n => match n with | 0 => trivial | _ + 1 => h⟩

@[simp] theorem conforms_pure {a : α} {p : φ} : P.Conforms Q (pure a) p ↔ Q a p := conforms_ret

@[simp] theorem conforms_act {a : A β} {next : β → Program A α} {p : φ} :
    P.Conforms Q (.act a next) p ↔
      ∀ b, ∃ p', P.next p a b = some p' ∧ P.Conforms Q (next b) p' := by
  constructor
  · intro h b
    obtain ⟨p', hp, _⟩ := h 1 b
    refine ⟨p', hp, fun n => ?_⟩
    obtain ⟨p'', hp', hn⟩ := h (n + 1) b
    rw [hp] at hp'
    cases hp'
    exact hn
  · intro h n
    cases n with
    | zero => trivial
    | succ n =>
      intro b
      obtain ⟨p', hp, hn⟩ := h b
      exact ⟨p', hp, hn n⟩

theorem conforms_loop {body : β → Program A (β ⊕ γ)} {b : β} {next : γ → Program A α} {p : φ} :
    P.Conforms Q (.loop body b next) p ↔ P.Conforms Q (.unroll body b next) p :=
  ⟨fun h n => h (n + 1), fun h n => match n with | 0 => trivial | n + 1 => h n⟩

namespace Conforms

theorem mono {Q' : α → φ → Prop} {prog : Program A α} {p : φ} (h : P.Conforms Q prog p)
    (hQ : ∀ a p, Q a p → Q' a p) : P.Conforms Q' prog p := by
  intro n
  have hn := h n
  clear h
  induction n generalizing prog p with
  | zero => trivial
  | succ n ih =>
    cases prog with
    | ret a => exact hQ a p hn
    | act a next =>
      intro b
      obtain ⟨p', hp, hf⟩ := hn b
      exact ⟨p', hp, ih hf⟩
    | loop body b next => exact ih hn

theorem perform {a : A β} {f : β → Program A α} {p : φ}
    (h : ∀ b, ∃ p', P.next p a b = some p' ∧ P.Conforms Q (f b) p') :
    P.Conforms Q (Program.perform a >>= f) p :=
  conforms_act.mpr h

theorem bind {R : δ → φ → Prop} {prog : Program A α} {f : α → Program A δ} {p : φ}
    (h : P.Conforms Q prog p) (hf : ∀ a p, Q a p → P.Conforms R (f a) p) :
    P.Conforms R (prog >>= f) p :=
  fun n => (h n).bind fun a p m _ hq => hf a p hq m

/-- The loop rule: `J` holds of the loop variable and the phase at the head, `K` when the loop is
left. -/
theorem loop {body : β → Program A (β ⊕ γ)} {next : γ → Program A α} (J : β → φ → Prop)
    (K : γ → φ → Prop) (hbody : ∀ b p, J b p → P.Conforms (Sum.elim J K) (body b) p)
    (hnext : ∀ c p, K c p → P.Conforms Q (next c) p) {b : β} {p : φ} (hJ : J b p) :
    P.Conforms Q (.loop body b next) p := by
  intro n
  induction n generalizing b p with
  | zero => trivial
  | succ n ih =>
    refine (hbody b p hJ n).bind fun r p m hm hr => ?_
    cases r with
    | inl b' => exact (ih hr).mono hm
    | inr c => exact hnext c p hr m

theorem iterate {body : β → Program A (β ⊕ α)} (J : β → φ → Prop)
    (hbody : ∀ b p, J b p → P.Conforms (Sum.elim J Q) (body b) p) {b : β} {p : φ} (hJ : J b p) :
    P.Conforms Q (.iterate body b) p :=
  loop J Q hbody (fun _ _ => conforms_ret.mpr) hJ

end Conforms

/-- From a phase that no action leaves, every program conforms. -/
theorem conforms_of_absorbing {p : φ} (hp : ∀ {β : Type} (a : A β) (b : β), P.next p a b = some p)
    (prog : Program A α) : P.Conforms (fun _ q => q = p) prog p := by
  intro n
  induction n generalizing α prog with
  | zero => trivial
  | succ n ih =>
    cases prog with
    | ret a => rfl
    | act a next => exact fun b => ⟨p, hp a b, ih (next b)⟩
    | loop body b next => exact ih _

end Protocol

/-- A value that the program can return, if every answer and every end of a loop is possible. -/
def Program.MayReturn {A : Type → Type v} : {α : Type} → Program A α → α → Prop
  | _, .ret a, r => a = r
  | _, .act _ next, r => ∃ b, (next b).MayReturn r
  | _, .loop _ _ next, r => ∃ c, (next c).MayReturn r

/-- Every action the program can come to is in `S`. -/
def Program.Only {A : Type → Type v} (S : {β : Type} → A β → Bool) :
    {α : Type} → Program A α → Prop
  | _, .ret _ => True
  | _, .act a next => S a = true ∧ ∀ b, (next b).Only S
  | _, .loop body _ next => (∀ b, (body b).Only S) ∧ ∀ c, (next c).Only S

namespace Program
variable {A : Type → Type v} {S : {β : Type} → A β → Bool} {α β γ δ : Type}

@[simp] theorem only_ret {a : α} : (.ret a : Program A α).Only S ↔ True := Iff.rfl

@[simp] theorem only_pure {a : α} : (pure a : Program A α).Only S ↔ True := Iff.rfl

@[simp] theorem only_act {a : A β} {next : β → Program A α} :
    (act a next).Only S ↔ S a = true ∧ ∀ b, (next b).Only S := Iff.rfl

@[simp] theorem only_loop {body : β → Program A (β ⊕ γ)} {b : β} {next : γ → Program A α} :
    (loop body b next).Only S ↔ (∀ b, (body b).Only S) ∧ ∀ c, (next c).Only S := Iff.rfl

theorem MayReturn.of_bind {prog : Program A α} {f : α → Program A δ} {r : δ}
    (h : (prog >>= f).MayReturn r) : ∃ a, prog.MayReturn a ∧ (f a).MayReturn r := by
  induction prog with
  | ret a => exact ⟨a, rfl, h⟩
  | act a next ih =>
    obtain ⟨b, hb⟩ := h
    obtain ⟨a, ha, hr⟩ := ih b hb
    exact ⟨a, ⟨b, ha⟩, hr⟩
  | loop body b next _ ih =>
    obtain ⟨c, hc⟩ := h
    obtain ⟨a, ha, hr⟩ := ih c hc
    exact ⟨a, ⟨c, ha⟩, hr⟩

theorem Only.mono {T : {β : Type} → A β → Bool} {prog : Program A α} (h : prog.Only S)
    (hST : ∀ {β : Type} (a : A β), S a = true → T a = true) : prog.Only T := by
  induction prog with
  | ret a => exact trivial
  | act a next ih => exact ⟨hST a h.1, fun b => ih b (h.2 b)⟩
  | loop body b next ihbody ihnext =>
    exact ⟨fun b => ihbody b (h.1 b), fun c => ihnext c (h.2 c)⟩

theorem Only.and {T : {β : Type} → A β → Bool} {prog : Program A α} (hS : prog.Only S)
    (hT : prog.Only T) : prog.Only fun a => S a && T a := by
  induction prog with
  | ret a => exact trivial
  | act a next ih =>
    exact ⟨Bool.and_eq_true_iff.mpr ⟨hS.1, hT.1⟩, fun b => ih b (hS.2 b) (hT.2 b)⟩
  | loop body b next ihbody ihnext =>
    exact ⟨fun b => ihbody b (hS.1 b) (hT.1 b), fun c => ihnext c (hS.2 c) (hT.2 c)⟩

theorem Only.bind {prog : Program A α} {f : α → Program A δ} (h : prog.Only S)
    (hf : ∀ a, (f a).Only S) : (prog >>= f).Only S := by
  induction prog with
  | ret a => exact hf a
  | act a next ih => exact ⟨h.1, fun b => ih b (h.2 b) hf⟩
  | loop body b next _ ih => exact ⟨h.1, fun c => ih c (h.2 c) hf⟩

theorem Only.of_bind {prog : Program A α} {f : α → Program A δ} (h : (prog >>= f).Only S) :
    prog.Only S := by
  induction prog with
  | ret a => exact trivial
  | act a next ih => exact ⟨h.1, fun b => ih b (h.2 b)⟩
  | loop body b next _ ih => exact ⟨h.1, fun c => ih c (h.2 c)⟩

theorem Only.andThen {a : A β} {f : β → Program A δ} (ha : S a = true)
    (hf : ∀ b, (f b).Only S) : (perform a >>= f).Only S :=
  ⟨ha, hf⟩

theorem Only.iterate {body : β → Program A (β ⊕ γ)} {b : β} (h : ∀ b, (body b).Only S) :
    (Program.iterate body b).Only S :=
  ⟨h, fun _ => trivial⟩

theorem Only.unroll {body : β → Program A (β ⊕ γ)} {b : β} {next : γ → Program A α}
    (h : (loop body b next).Only S) : (Program.unroll body b next).Only S := by
  refine Only.bind (h.1 b) fun r => ?_
  cases r with
  | inl b' => exact h
  | inr c => exact h.2 c

/-- A program keeps to a set of phases that its actions do not leave. -/
theorem Only.conforms {φ : Type} {P : Protocol A φ} {J : φ → Prop} {prog : Program A α}
    (h : prog.Only S)
    (hJ : ∀ p, J p → ∀ {β : Type} (a : A β) (b : β), S a = true →
      ∃ q, P.next p a b = some q ∧ J q) {p : φ} (hp : J p) :
    P.Conforms (fun _ q => J q) prog p := by
  induction prog generalizing p with
  | ret a => exact Protocol.conforms_ret.mpr hp
  | act a next ih =>
    rw [Protocol.conforms_act]
    intro b
    obtain ⟨q, hq, hJq⟩ := hJ p hp a b h.1
    exact ⟨q, hq, ih b (h.2 b) hJq⟩
  | loop body b next ihbody ihnext =>
    refine Protocol.Conforms.loop (fun _ => J) (fun _ => J) ?_ ?_ hp
    · intro b p hp
      refine (ihbody b (h.1 b) hp).mono ?_
      intro r q hq
      cases r <;> exact hq
    · intro c p hp
      exact ihnext c (h.2 c) hp

/-- A program whose actions keep a phase keeps it. -/
theorem Only.keeps {φ : Type} {P : Protocol A φ} {prog : Program A α} {p : φ} (h : prog.Only S)
    (hp : ∀ {β : Type} (a : A β) (b : β), S a = true → P.next p a b = some p) :
    P.Conforms (fun _ q => q = p) prog p := by
  have hstays : ∀ q, q = p → ∀ {β : Type} (a : A β) (b : β), S a = true →
      ∃ r, P.next q a b = some r ∧ r = p := by
    intro q hq β a b ha
    exact ⟨p, hq ▸ hp a b ha, rfl⟩
  exact h.conforms hstays rfl

end Program

section Tracking
variable {A : Type → Type v} {ι ε η : Type} {σ : Type u} {M : Machine A ι ε η σ} {Φ : ι → Type}

/-- The shared state determines the phase of every thread. -/
structure Tracks (M : Machine A ι ε η σ) (P : ∀ i, Protocol A (Φ i)) (phase : ∀ i, σ → Φ i) :
    Prop where
  own : ∀ i {β : Type} (a : A β) e s p, (P i).next (phase i s) a (M.exec i a e s).1 = some p →
    phase i (M.exec i a e s).2 = p
  other : ∀ i j {β : Type} (a : A β) e s, j ≠ i → phase j (M.exec i a e s).2 = phase j s
  env : ∀ j h s s', M.env h s = some s' → phase j s' = phase j s

/-- The steps of `C` in which each action is admitted by the protocol of its thread. -/
def Assumption.obeying (C : Assumption M) (P : ∀ i, Protocol A (Φ i)) (phase : ∀ i, σ → Φ i) :
    Assumption M where
  allows i _ a e s := C.allows i a e s ∧
    ∃ p, (P i).next (phase i s) a (M.exec i a e s).1 = some p ∧ phase i (M.exec i a e s).2 = p
  allowsEnv := C.allowsEnv

variable [DecidableEq ι] {C : Assumption M} {P : ∀ i, Protocol A (Φ i)} {phase : ∀ i, σ → Φ i}

/-- Every thread conforms to its protocol from its recorded phase on. -/
def Config.Obeys (P : ∀ i, Protocol A (Φ i)) (phase : ∀ i, σ → Φ i) (c : Config A ι σ) : Prop :=
  ∀ i, (P i).Conforms (fun _ _ => True) (c.thread i) (phase i c.shared)

theorem Step.obeying (hT : Tracks M P phase) {c c' : Config A ι σ} (h : Step C c c')
    (hc : c.Obeys P phase) : Step (C.obeying P phase) c c' ∧ c'.Obeys P phase := by
  cases h with
  | @act i β a next e hr ht ha =>
    have hown := hc i
    rw [ht, Protocol.conforms_act] at hown
    obtain ⟨p, hp, hnext⟩ := hown (M.exec i a e c.shared).1
    refine ⟨.act i e hr ht ⟨ha, p, hp, hT.own i a e _ p hp⟩, fun j => ?_⟩
    by_cases hj : j = i
    · subst j
      simpa only [Function.update_self, hT.own i a e _ p hp] using hnext
    · simpa only [Function.update_of_ne hj, hT.other i j a e _ hj] using hc j
  | @loop i β γ body b next hr ht =>
    refine ⟨.loop i hr ht, fun j => ?_⟩
    by_cases hj : j = i
    · subst j
      have hown := hc i
      rw [ht, Protocol.conforms_loop] at hown
      simpa only [Function.update_self] using hown
    · simpa only [Function.update_of_ne hj] using hc j
  | env h hr ha hs =>
    refine ⟨.env h hr ha hs, fun j => ?_⟩
    simpa only [hT.env j h _ _ hs] using hc j

/-- Along every run of conforming threads each action is one its thread's protocol admits. -/
theorem Steps.obeying (hT : Tracks M P phase) {c c' : Config A ι σ} (h : Steps C c c')
    (hc : c.Obeys P phase) : Steps (C.obeying P phase) c c' ∧ c'.Obeys P phase := by
  induction h with
  | refl => exact ⟨.refl, hc⟩
  | tail _ hs ih =>
    obtain ⟨hs', hobeys⟩ := Step.obeying hT hs ih.2
    exact ⟨ih.1.tail hs', hobeys⟩

end Tracking
end Interleaving
