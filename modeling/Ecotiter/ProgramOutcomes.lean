import Ecotiter.ProgramProtocol

/-!
# Outcomes of a program that runs by itself

`Program.Ends` relates the state in which a thread starts a program to the answers and states with
which it can end, while no other thread runs; the surroundings choose the outcome of each action
within an assumption. `Program.Post` is the corresponding weakest liberal precondition. Its rules
follow the constructors of `Program`, the rule for `loop` being an invariant rule, and every outcome
is a run of the whole system.
-/

namespace Interleaving

universe u v w

variable {A : Type → Type v} {ι ε η : Type} {σ : Type u} {M : Machine A ι ε η σ}
  {α β γ δ : Type}

inductive Program.Ends (C : Assumption M) (i : ι) :
    {α : Type} → Program A α → σ → α → σ → Prop
  | ret {α : Type} (a : α) (s : σ) : Ends C i (.ret a) s a s
  | act {α β : Type} {a : A β} {next : β → Program A α} {s s' : σ} {b : α} (e : ε) :
      M.running s → C.allows i a e s →
      Ends C i (next (M.exec i a e s).1) (M.exec i a e s).2 b s' → Ends C i (.act a next) s b s'
  | loop {α β γ : Type} {body : β → Program A (β ⊕ γ)} {b : β} {next : γ → Program A α} {s s' : σ}
      {c : α} :
      M.running s → Ends C i (.unroll body b next) s c s' → Ends C i (.loop body b next) s c s'

namespace Program
variable {C : Assumption M} {i : ι} {s s' t : σ}

@[simp] theorem ends_ret {a b : α} : (ret a : Program A α).Ends C i s b s' ↔ b = a ∧ s' = s := by
  constructor
  · intro h
    cases h
    exact ⟨rfl, rfl⟩
  · rintro ⟨rfl, rfl⟩
    exact .ret b s'

@[simp] theorem ends_act {a : A β} {next : β → Program A α} {b : α} :
    (act a next).Ends C i s b s' ↔
      M.running s ∧ ∃ e, C.allows i a e s ∧
        (next (M.exec i a e s).1).Ends C i (M.exec i a e s).2 b s' := by
  constructor
  · intro h
    cases h with
    | act e hr ha h => exact ⟨hr, e, ha, h⟩
  · rintro ⟨hr, e, ha, h⟩
    exact .act e hr ha h

theorem ends_loop {body : β → Program A (β ⊕ γ)} {b : β} {next : γ → Program A α} {c : α} :
    (loop body b next).Ends C i s c s' ↔
      M.running s ∧ (unroll body b next).Ends C i s c s' := by
  constructor
  · intro h
    cases h with
    | loop hr h => exact ⟨hr, h⟩
  · rintro ⟨hr, h⟩
    exact .loop hr h

theorem Ends.bind {p : Program A α} {f : α → Program A δ} {a : α} {b : δ}
    (hp : p.Ends C i s a t) (hf : (f a).Ends C i t b s') : (p >>= f).Ends C i s b s' := by
  induction hp with
  | ret a s => exact hf
  | act e hr ha _ ih => exact .act e hr ha (ih hf)
  | @loop _ _ body b' next s t c hr _ ih =>
    refine .loop hr ?_
    rw [← unroll_bind]
    exact ih hf

theorem Ends.of_bind {p : Program A α} {f : α → Program A δ} {b : δ}
    (h : (p >>= f).Ends C i s b s') : ∃ a t, p.Ends C i s a t ∧ (f a).Ends C i t b s' := by
  generalize hq : p >>= f = q at h
  induction h generalizing p with
  | ret b s =>
    cases p with
    | ret a => exact ⟨a, s, .ret a s, by rw [← ret_bind a f, hq]; exact .ret b s⟩
    | act a next => cases hq
    | loop body b next => cases hq
  | act e hr ha h ih =>
    cases p with
    | ret a => exact ⟨a, _, .ret a _, by rw [← ret_bind a f, hq]; exact .act e hr ha h⟩
    | act a next =>
      cases hq
      obtain ⟨a, t, hp, hf⟩ := ih rfl
      exact ⟨a, t, .act e hr ha hp, hf⟩
    | loop body b next => cases hq
  | loop hr h ih =>
    cases p with
    | ret a => exact ⟨a, _, .ret a _, by rw [← ret_bind a f, hq]; exact .loop hr h⟩
    | act a next => cases hq
    | loop body b next =>
      cases hq
      obtain ⟨a, t, hp, hf⟩ := ih (unroll_bind _ _ next f)
      exact ⟨a, t, .loop hr hp, hf⟩

/-- Every way in which the program can end satisfies `Q`. -/
def Post (C : Assumption M) (i : ι) (Q : α → σ → Prop) (p : Program A α) (s : σ) : Prop :=
  ∀ a s', p.Ends C i s a s' → Q a s'

variable {Q R : α → σ → Prop}

@[simp] theorem post_ret {a : α} : (ret a : Program A α).Post C i Q s ↔ Q a s :=
  ⟨fun h => h a s (.ret a s), fun h _ _ he => by obtain ⟨rfl, rfl⟩ := ends_ret.mp he; exact h⟩

@[simp] theorem post_pure {a : α} : (pure a : Program A α).Post C i Q s ↔ Q a s := post_ret

@[simp] theorem post_act {a : A β} {next : β → Program A α} :
    (act a next).Post C i Q s ↔
      (M.running s → ∀ e, C.allows i a e s →
        (next (M.exec i a e s).1).Post C i Q (M.exec i a e s).2) :=
  ⟨fun h hr e ha b s' he => h b s' (.act e hr ha he), fun h b s' he => by
    obtain ⟨hr, e, ha, he⟩ := ends_act.mp he
    exact h hr e ha b s' he⟩

theorem post_loop {body : β → Program A (β ⊕ γ)} {b : β} {next : γ → Program A α} :
    (loop body b next).Post C i Q s ↔ (M.running s → (unroll body b next).Post C i Q s) :=
  ⟨fun h hr c s' he => h c s' (.loop hr he), fun h c s' he => by
    obtain ⟨hr, he⟩ := ends_loop.mp he
    exact h hr c s' he⟩

theorem post_bind {p : Program A α} {f : α → Program A δ} {Q : δ → σ → Prop} :
    (p >>= f).Post C i Q s ↔ p.Post C i (fun a t => (f a).Post C i Q t) s := by
  constructor
  · intro h a t hp b s' hf
    exact h b s' (hp.bind hf)
  · intro h b s' he
    obtain ⟨a, t, hp, hf⟩ := he.of_bind
    exact h a t hp b s' hf

theorem Post.mono {p : Program A α} (h : p.Post C i Q s) (hQ : ∀ a t, Q a t → R a t) :
    p.Post C i R s :=
  fun a s' he => hQ a s' (h a s' he)

/-- The loop rule: `J` holds of the loop variable and the state at the head, `K` when the loop is
left. -/
theorem Post.loop {body : β → Program A (β ⊕ γ)} {next : γ → Program A α} (J : β → σ → Prop)
    (K : γ → σ → Prop) (hbody : ∀ b s, J b s → (body b).Post C i (Sum.elim J K) s)
    (hnext : ∀ c s, K c s → (next c).Post C i Q s) {b : β} (hJ : J b s) :
    (Program.loop body b next).Post C i Q s := by
  have hrest : ∀ (p : Program A α) s a s', p.Ends C i s a s' →
      ∀ q : Program A (β ⊕ γ), p = q >>= Sum.elim (fun b' => .loop body b' next) next →
        q.Post C i (Sum.elim J K) s → Q a s' := by
    intro p s a s' he
    clear hJ
    induction he with
    | ret a s =>
      intro q hq hpost
      cases q with
      | ret r =>
        have hr := post_ret.mp hpost
        cases r with
        | inl b' => cases hq
        | inr c => exact hnext c s hr a s (by rw [← show _ = next c from hq]; exact .ret a s)
      | act a next => cases hq
      | loop body b next => cases hq
    | act e hr ha h ih =>
      intro q hq hpost
      cases q with
      | ret r =>
        have hr' := post_ret.mp hpost
        cases r with
        | inl b' => cases hq
        | inr c =>
          exact hnext c _ hr' _ _ (by rw [← show _ = next c from hq]; exact .act e hr ha h)
      | act a next =>
        cases hq
        exact ih _ rfl (post_act.mp hpost hr e ha)
      | loop body b next => cases hq
    | loop hr h ih =>
      intro q hq hpost
      cases q with
      | ret r =>
        have hr' := post_ret.mp hpost
        cases r with
        | inl b' =>
          cases hq
          exact ih (body b') rfl (hbody b' _ hr')
        | inr c => exact hnext c _ hr' _ _ (by rw [← show _ = next c from hq]; exact .loop hr h)
      | act a next => cases hq
      | loop body' b' next' =>
        cases hq
        exact ih _ (unroll_bind _ _ next' _).symm (post_loop.mp hpost hr)
  intro a s' he
  exact hrest _ s a s' he (.ret (.inl b)) rfl (post_ret.mpr hJ)

theorem Post.iterate {body : β → Program A (β ⊕ α)} (J : β → σ → Prop)
    (hbody : ∀ b s, J b s → (body b).Post C i (Sum.elim J Q) s) {b : β} (hJ : J b s) :
    (Program.iterate body b).Post C i Q s :=
  .loop J Q hbody (fun _ _ => post_ret.mpr) hJ

/-- The program can end, and every way in which it can end satisfies `Q`. -/
def Total (C : Assumption M) (i : ι) (Q : α → σ → Prop) (p : Program A α) (s : σ) : Prop :=
  (∃ a s', p.Ends C i s a s') ∧ p.Post C i Q s

theorem total_ret {a : α} (h : Q a s) : (ret a : Program A α).Total C i Q s :=
  ⟨⟨a, s, .ret a s⟩, post_ret.mpr h⟩

theorem total_act {a : A β} {next : β → Program A α} (hr : M.running s)
    (hcan : ∃ e, C.allows i a e s)
    (h : ∀ e, C.allows i a e s → (next (M.exec i a e s).1).Total C i Q (M.exec i a e s).2) :
    (act a next).Total C i Q s := by
  obtain ⟨e, he⟩ := hcan
  obtain ⟨⟨b, s', hends⟩, -⟩ := h e he
  exact ⟨⟨b, s', .act e hr he hends⟩, post_act.mpr fun _ e he => (h e he).2⟩

theorem total_loop {body : β → Program A (β ⊕ γ)} {b : β} {next : γ → Program A α}
    (hr : M.running s) (h : (unroll body b next).Total C i Q s) :
    (loop body b next).Total C i Q s := by
  obtain ⟨⟨c, s', hends⟩, hpost⟩ := h
  exact ⟨⟨c, s', .loop hr hends⟩, post_loop.mpr fun _ => hpost⟩

theorem Total.bind {p : Program A α} {f : α → Program A δ} {Q : δ → σ → Prop}
    (h : p.Total C i (fun a t => (f a).Total C i Q t) s) : (p >>= f).Total C i Q s := by
  obtain ⟨⟨a, t, hp⟩, hpost⟩ := h
  obtain ⟨⟨b, s', hf⟩, -⟩ := hpost a t hp
  exact ⟨⟨b, s', hp.bind hf⟩, post_bind.mpr (hpost.mono fun a t ht => ht.2)⟩

theorem Total.mono {p : Program A α} (h : p.Total C i Q s) (hQ : ∀ a t, Q a t → R a t) :
    p.Total C i R s :=
  ⟨h.1, h.2.mono hQ⟩

/-- The rule for a loop that comes to its end: each turn lowers `V` or leaves the loop. -/
theorem Total.iterate {body : β → Program A (β ⊕ α)} (J : β → σ → Prop) (V : β → σ → ℕ)
    (hr : ∀ b s, J b s → M.running s)
    (hbody : ∀ b s, J b s →
      (body b).Total C i (fun r t => Sum.elim (fun b' => J b' t ∧ V b' t < V b s) (Q · t) r) s)
    {b : β} (hJ : J b s) : (Program.iterate body b).Total C i Q s := by
  induction hV : V b s using Nat.strongRecOn generalizing b s with
  | ind n ih =>
    refine total_loop (hr b s hJ) (Total.bind ((hbody b s hJ).mono fun r t ht => ?_))
    cases r with
    | inl b' => exact ih _ (hV ▸ ht.2) ht.1 rfl
    | inr c => exact total_ret ht

/-- Whatever the outcomes of its actions are, the program can go on until it ends, it does end, and
its answer and state then satisfy `Q`. -/
inductive Always (C : Assumption M) (i : ι) (Q : α → σ → Prop) : Program A α → σ → Prop
  | ret {a : α} {s : σ} : Q a s → Always C i Q (.ret a) s
  | act {β : Type} {a : A β} {next : β → Program A α} {s : σ} : M.running s →
      (∃ e, C.allows i a e s) →
      (∀ e, C.allows i a e s → Always C i Q (next (M.exec i a e s).1) (M.exec i a e s).2) →
      Always C i Q (.act a next) s
  | loop {β γ : Type} {body : β → Program A (β ⊕ γ)} {b : β} {next : γ → Program A α} {s : σ} :
      M.running s → Always C i Q (.unroll body b next) s → Always C i Q (.loop body b next) s

theorem Always.mono {p : Program A α} (h : p.Always C i Q s) (hQ : ∀ a t, Q a t → R a t) :
    p.Always C i R s := by
  induction h with
  | ret h => exact .ret (hQ _ _ h)
  | act hr hcan _ ih => exact .act hr hcan ih
  | loop hr _ ih => exact .loop hr ih

theorem Always.bind {p : Program A α} {f : α → Program A δ} {Q : δ → σ → Prop}
    (h : p.Always C i (fun a t => (f a).Always C i Q t) s) : (p >>= f).Always C i Q s := by
  induction h with
  | ret h => exact h
  | act hr hcan _ ih => exact .act hr hcan ih
  | @loop _ _ body b next s hr _ ih =>
    refine .loop hr ?_
    rw [← unroll_bind]
    exact ih

theorem Always.post {p : Program A α} (h : p.Always C i Q s) : p.Post C i Q s := by
  induction h with
  | ret h => exact post_ret.mpr h
  | act _ _ _ ih => exact post_act.mpr fun _ e he => ih e he
  | loop _ _ ih => exact post_loop.mpr fun _ => ih

theorem Always.total {p : Program A α} (h : p.Always C i Q s) : p.Total C i Q s := by
  refine ⟨?_, h.post⟩
  induction h with
  | @ret a s h => exact ⟨a, s, .ret a s⟩
  | act hr hcan _ ih =>
    obtain ⟨e, he⟩ := hcan
    obtain ⟨b, s', hends⟩ := ih e he
    exact ⟨b, s', .act e hr he hends⟩
  | loop hr _ ih =>
    obtain ⟨b, s', hends⟩ := ih
    exact ⟨b, s', .loop hr hends⟩

/-- The rule for a loop that always comes to its end: each turn lowers `V` or leaves the loop. -/
theorem Always.iterate {body : β → Program A (β ⊕ α)} (J : β → σ → Prop) (V : β → σ → ℕ)
    (hr : ∀ b s, J b s → M.running s)
    (hbody : ∀ b s, J b s →
      (body b).Always C i (fun r t => Sum.elim (fun b' => J b' t ∧ V b' t < V b s) (Q · t) r) s)
    {b : β} (hJ : J b s) : (Program.iterate body b).Always C i Q s := by
  induction hV : V b s using Nat.strongRecOn generalizing b s with
  | ind n ih =>
    refine .loop (hr b s hJ) (Always.bind ((hbody b s hJ).mono fun r t ht => ?_))
    cases r with
    | inl b' => exact ih _ (hV ▸ ht.2) ht.1 rfl
    | inr c => exact .ret ht

/-- A relation that every action of the program maintains holds at its end. -/
theorem Only.post {S : {β : Type} → A β → Bool} {p : Program A α} {I : σ → Prop} (h : p.Only S)
    (hS : ∀ {β : Type} (a : A β) e s, S a = true → I s → I (M.exec i a e s).2) (hI : I s) :
    p.Post C i (fun _ => I) s := by
  induction p generalizing s with
  | ret a => exact post_ret.mpr hI
  | act a next ih => exact post_act.mpr fun _ e _ => ih _ (h.2 _) (hS a e s h.1 hI)
  | loop body b next ihbody ihnext =>
    refine .loop (fun _ => I) (fun _ => I) (fun b s hs => ?_) (fun c s hs => ihnext c (h.2 c) hs) hI
    refine (ihbody b (h.1 b) hs).mono fun r t ht => ?_
    cases r <;> exact ht

/-- What a program computes when every action has the same outcome is one of its ends. -/
theorem ends_of_alone {e : ε} {p : Program A α} {a : α}
    (h : p.alone M i e s = some (a, s')) : p.Ends (.any M) i s a s' := by
  induction p generalizing s with
  | ret =>
    cases h
    exact .ret _ _
  | act b next ih =>
    rw [alone] at h
    split at h
    case isTrue hr => exact .act e hr trivial (ih _ h)
    case isFalse => cases h
  | loop => cases h

/-- The run of at most `n` nodes in which the state says what the surroundings contribute. -/
def outcome (M : Machine A ι ε η σ) (i : ι) (e : σ → ε) : ℕ → Program A α → σ → Option (α × σ)
  | 0, _, _ => none
  | _ + 1, .ret a, s => some (a, s)
  | n + 1, .act a next, s =>
    if M.running s then outcome M i e n (next (M.exec i a (e s) s).1) (M.exec i a (e s) s).2
    else none
  | n + 1, .loop body b next, s =>
    if M.running s then outcome M i e n (.unroll body b next) s else none

theorem ends_of_outcome {e : σ → ε} (he : ∀ {β : Type} (a : A β) s, C.allows i a (e s) s) {n : ℕ}
    {p : Program A α} {a : α} (h : p.outcome M i e n s = some (a, s')) : p.Ends C i s a s' := by
  induction n generalizing p s with
  | zero => cases h
  | succ n ih =>
    cases p with
    | ret b =>
      cases h
      exact .ret _ _
    | act b next =>
      rw [outcome] at h
      split at h
      case isTrue hr => exact .act (e s) hr (he b s) (ih h)
      case isFalse => cases h
    | loop body b next =>
      rw [outcome] at h
      split at h
      case isTrue hr => exact .loop hr (ih h)
      case isFalse => cases h

section Reading
variable {τ : Type w} {N : Machine A ι ε η τ} {D : Assumption N} {f : σ → τ}

/-- The part `f` of the state determines the answers and what happens to that part. -/
structure Reads (C : Assumption M) (D : Assumption N) (f : σ → τ) : Prop where
  answer : ∀ i {β : Type} (a : A β) e s, (N.exec i a e (f s)).1 = (M.exec i a e s).1
  state : ∀ i {β : Type} (a : A β) e s, (N.exec i a e (f s)).2 = f (M.exec i a e s).2
  running : ∀ s, N.running (f s) = M.running s
  allows : ∀ i {β : Type} (a : A β) e s, D.allows i a e (f s) ↔ C.allows i a e s

theorem Ends.read (hf : Reads C D f) {p : Program A α} {a : α} (h : p.Ends C i s a s') :
    p.Ends D i (f s) a (f s') := by
  induction h with
  | ret a s => exact .ret a (f s)
  | act e hr ha _ ih =>
    refine .act e ((hf.running _).trans hr) ((hf.allows i _ e _).mpr ha) ?_
    rw [hf.answer, hf.state]
    exact ih
  | loop hr _ ih => exact .loop ((hf.running _).trans hr) ih

theorem Ends.of_read (hf : Reads C D f) {p : Program A α} {a : α} {u : τ}
    (h : p.Ends D i (f s) a u) : ∃ s', f s' = u ∧ p.Ends C i s a s' := by
  generalize ht : f s = t at h
  induction h generalizing s with
  | ret a t => exact ⟨s, ht, .ret a s⟩
  | act e hr ha _ ih =>
    subst ht
    rw [hf.answer] at ih
    obtain ⟨s', hs', hends⟩ := ih (hf.state i _ e s).symm
    exact ⟨s', hs', .act e ((hf.running s).symm.trans hr) ((hf.allows i _ e s).mp ha) hends⟩
  | loop hr _ ih =>
    subst ht
    obtain ⟨s', hs', hends⟩ := ih rfl
    exact ⟨s', hs', .loop ((hf.running s).symm.trans hr) hends⟩

/-- A property of the part of the state that determines it can be shown for that part alone. -/
theorem post_read (hf : Reads C D f) {p : Program A α} {Q : α → τ → Prop} :
    p.Post C i (fun a s => Q a (f s)) s ↔ p.Post D i Q (f s) := by
  constructor
  · intro h a u he
    obtain ⟨s', rfl, hends⟩ := he.of_read hf
    exact h a s' hends
  · intro h a s' he
    exact h a (f s') (he.read hf)

end Reading

/-- What a program that runs by itself does is a run of the whole system. -/
theorem Ends.steps [DecidableEq ι] {p : Program A α} {f : α → Program A Unit} {c : Config A ι σ}
    {a : α} (h : p.Ends C i c.shared a s') (hp : c.thread i = p >>= f) :
    Steps C c ⟨s', Function.update c.thread i (f a)⟩ := by
  generalize hs : c.shared = s at h
  induction h generalizing c with
  | ret a s =>
    subst hs
    have hf : c.thread i = f a := hp
    rw [← hf, Function.update_eq_self]
    exact .refl
  | @act _ act next s s' b e hr ha _ ih =>
    subst hs
    have hstep : Step C c _ := .act i e hr hp ha
    let d : Config A ι σ := ⟨(M.exec i act e c.shared).2,
      Function.update c.thread i (next (M.exec i act e c.shared).1 >>= f)⟩
    have hthread : d.thread i = next (M.exec i act e c.shared).1 >>= f := Function.update_self ..
    have hrest := ih (c := d) hthread rfl
    rw [Function.update_idem] at hrest
    exact .head hstep hrest
  | @loop _ _ body b next s s' a hr _ ih =>
    subst hs
    have hstep : Step C c _ := .loop i hr hp
    let d : Config A ι σ := ⟨c.shared, Function.update c.thread i
      (unroll body b (fun c => next c >>= f))⟩
    have hthread : d.thread i = unroll body b next >>= f :=
      (Function.update_self ..).trans (unroll_bind body b next f).symm
    have hrest := ih (c := d) hthread rfl
    rw [Function.update_idem] at hrest
    exact .head hstep hrest

end Program
end Interleaving
