import Ecotiter.ProgramOutcomes
import Ecotiter.ProgramProtocol

/-!
# What one thread sees of a run

A part of the state may be one thread's own: its actions change it in a way that this part and their
answers tell, and the other threads leave it alone. In a run of the whole system the thread then
does what its programs do by themselves on a machine that has only this part, on which the other
threads appear as a choice of answers.
-/

namespace Interleaving

universe u v w

section
variable {A : Type → Type v} {ι ε ε' η : Type} {σ : Type u} {τ : Type w}
  {M : Machine A ι ε η σ} {N : Machine A ι ε' η τ} {C : Assumption M} {D : Assumption N}
  {f : σ → τ} {i : ι}

/-- The part `f` of the state is what thread `i` makes of it. -/
structure Views (C : Assumption M) (D : Assumption N) (i : ι) (f : σ → τ) : Prop where
  own : ∀ {β : Type} (a : A β) e s, C.allows i a e s → ∃ x, D.allows i a x (f s) ∧
    (N.exec i a x (f s)).1 = (M.exec i a e s).1 ∧ (N.exec i a x (f s)).2 = f (M.exec i a e s).2
  running : ∀ s, M.running s → N.running (f s)

/-- The other threads and the environment leave the part `f` alone. -/
structure LeaveAlone (C : Assumption M) (i : ι) (f : σ → τ) : Prop where
  other : ∀ j {β : Type} (a : A β) e s, j ≠ i → C.allows j a e s → f (M.exec j a e s).2 = f s
  env : ∀ h s s', M.env h s = some s' → f s' = f s

variable [DecidableEq ι] {α : Type} {c d : Config A ι σ}

/-- A step that is not the thread's own changes neither its program nor its part of the state. -/
theorem Step.own_or_alone (hC : LeaveAlone C i f) (h : Step C c d) :
    (d.thread i = c.thread i ∧ f d.shared = f c.shared) ∨
      (∃ (β : Type) (a : A β) (next : β → Program A Unit) (e : ε), M.running c.shared ∧
        c.thread i = .act a next ∧ C.allows i a e c.shared ∧
        d = ⟨(M.exec i a e c.shared).2,
          Function.update c.thread i (next (M.exec i a e c.shared).1)⟩) ∨
      ∃ (β γ : Type) (body : β → Program A (β ⊕ γ)) (b : β) (next : γ → Program A Unit),
        M.running c.shared ∧ c.thread i = .loop body b next ∧
        d = ⟨c.shared, Function.update c.thread i (.unroll body b next)⟩ := by
  cases h with
  | act j e hr ht ha =>
    by_cases hj : j = i
    · subst hj
      exact .inr (.inl ⟨_, _, _, e, hr, ht, ha, rfl⟩)
    · exact .inl ⟨Function.update_of_ne (Ne.symm hj) _ _, hC.other j _ e _ hj ha⟩
  | loop j hr ht =>
    by_cases hj : j = i
    · subst hj
      exact .inr (.inr ⟨_, _, _, _, _, hr, ht, rfl⟩)
    · exact .inl ⟨Function.update_of_ne (Ne.symm hj) _ _, rfl⟩
  | env h _ _ hs => exact .inl ⟨rfl, hC.env h _ _ hs⟩

/-- A part of a program of thread `i` is in its course, or it has come to an end as it does on the
machine of the thread's own part of the state. -/
theorem Steps.ends_view (hV : Views C D i f) (hC : LeaveAlone C i f) (h : Steps C c d)
    {p : Program A α} {k : α → Program A Unit} (hp : c.thread i = p >>= k) :
    (∃ q : Program A α, d.thread i = q >>= k) ∨ ∃ a e, Steps C c e ∧ Steps C e d ∧
      e.thread i = k a ∧ p.Ends D i (f c.shared) a (f e.shared) := by
  induction h using Relation.ReflTransGen.head_induction_on generalizing p with
  | refl => exact .inl ⟨p, hp⟩
  | @head c c' hstep hrest ih =>
    obtain ⟨hthread, hview⟩ | hown := hstep.own_or_alone hC
    · obtain hinside | ⟨a, e, hbefore, hafter, hk, hends⟩ := ih (hthread.trans hp)
      · exact .inl hinside
      · exact .inr ⟨a, e, .head hstep hbefore, hafter, hk, hview ▸ hends⟩
    · cases p with
      | ret a => exact .inr ⟨a, c, .refl, .head hstep hrest, hp, .ret a _⟩
      | act a next =>
        obtain ⟨β, a', next', e, hr, ht, ha, rfl⟩ | ⟨_, _, _, _, _, _, ht, -⟩ := hown
        · have hsame := hp.symm.trans ht
          cases hsame
          obtain ⟨x, hx, hanswer, hstate⟩ := hV.own a e _ ha
          have hthread : (Function.update c.thread i
              (next (M.exec i a e c.shared).1 >>= k)) i = next (M.exec i a e c.shared).1 >>= k :=
            Function.update_self ..
          obtain hinside | ⟨b, e', hbefore, hafter, hk, hends⟩ := ih hthread
          · exact .inl hinside
          · refine .inr ⟨b, e', .head hstep hbefore, hafter, hk, ?_⟩
            rw [← hanswer, ← hstate] at hends
            exact .act x (hV.running _ hr) hx hends
        · exact nomatch hp.symm.trans ht
      | loop body b next =>
        obtain ⟨_, _, _, _, _, ht, _, -⟩ | ⟨_, _, body', b', next', hr, ht, rfl⟩ := hown
        · exact nomatch hp.symm.trans ht
        · have hsame := hp.symm.trans ht
          cases hsame
          have hthread : (Function.update c.thread i
              (Program.unroll body b (fun c => next c >>= k))) i =
                Program.unroll body b next >>= k :=
            (Function.update_self ..).trans (Program.unroll_bind body b next k).symm
          obtain hinside | ⟨a, e', hbefore, hafter, hk, hends⟩ := ih hthread
          · exact .inl hinside
          · exact .inr ⟨a, e', .head hstep hbefore, hafter, hk, .loop (hV.running _ hr) hends⟩

end
end Interleaving
