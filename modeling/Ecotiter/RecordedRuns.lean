import Ecotiter.ProgramProtocol

/-!
# Recorded runs

A machine that keeps the history of the actions and their answers beside its memory. The history
determines the phase of every thread under any protocol, so that an invariant of all runs of
conforming threads follows from what each admitted action does to it.
-/

namespace Interleaving

universe v

/-- What the actions of the threads and the environment do to a memory. -/
structure Semantics (A : Type → Type v) (ι ε η μ : Type) where
  run : ι → {β : Type} → A β → ε → μ → β × μ
  env : η → μ → Option μ

inductive Record (A : Type → Type v) (ι : Type)
  | did (i : ι) {β : Type} (a : A β) (answer : β)

/-- A memory and the history that led to it, latest action first. -/
structure Recorded (A : Type → Type v) (ι μ : Type) where
  mem : μ
  past : List (Record A ι)

section
variable {A : Type → Type v} {ι ε η μ : Type}

def Recorded.did (K : Semantics A ι ε η μ) (s : Recorded A ι μ) (i : ι) {β : Type} (a : A β) (e : ε) :
    Recorded A ι μ :=
  ⟨(K.run i a e s.mem).2, .did i a (K.run i a e s.mem).1 :: s.past⟩

def Semantics.machine (K : Semantics A ι ε η μ) : Machine A ι ε η (Recorded A ι μ) where
  exec i _ a e s := ((K.run i a e s.mem).1, s.did K i a e)
  env h s := (K.env h s.mem).map fun m => ⟨m, s.past⟩
  running _ := true

variable [DecidableEq ι] {φ : Type}

/-- The phase of a thread after a history. -/
def phaseIn (P : Protocol A φ) (p0 : φ) (i : ι) : List (Record A ι) → φ
  | [] => p0
  | .did j a b :: past =>
    if j = i then (P.next (phaseIn P p0 i past) a b).getD (phaseIn P p0 i past)
    else phaseIn P p0 i past

variable {P : Protocol A φ} {p0 : φ}

theorem phaseIn_self {i : ι} {β : Type} {a : A β} {b : β} {past : List (Record A ι)} {q : φ}
    (h : P.next (phaseIn P p0 i past) a b = some q) : phaseIn P p0 i (.did i a b :: past) = q := by
  rw [phaseIn, if_pos rfl, h, Option.getD_some]

theorem phaseIn_other {i j : ι} (h : j ≠ i) {β : Type} (a : A β) (b : β)
    (past : List (Record A ι)) : phaseIn P p0 i (.did j a b :: past) = phaseIn P p0 i past := by
  rw [phaseIn, if_neg h]

variable {K : Semantics A ι ε η μ} {Φ : ι → Type} {Ps : ∀ i, Protocol A (Φ i)} {start : ∀ i, Φ i}

theorem tracks_phaseIn (K : Semantics A ι ε η μ) (Ps : ∀ i, Protocol A (Φ i)) (start : ∀ i, Φ i) :
    Tracks K.machine Ps (fun i s => phaseIn (Ps i) (start i) i s.past) where
  own _ _ _ _ _ _ hq := phaseIn_self hq
  other _ _ _ a e s hj := phaseIn_other hj.symm a (K.run _ a e s.mem).1 s.past
  env _ _ _ _ hs := by
    obtain ⟨m, -, rfl⟩ := Option.map_eq_some_iff.mp hs
    rfl

/-- After every run each thread conforms from its recorded phase on. -/
theorem Steps.obeysRecord {m0 : μ} {threads : ι → Program A Unit} {c : Config A ι (Recorded A ι μ)}
    (h : Steps (.any K.machine) ⟨⟨m0, []⟩, threads⟩ c)
    (hthreads : ∀ i, (Ps i).Conforms (fun _ _ => True) (threads i) (start i)) :
    c.Obeys Ps (fun i s => phaseIn (Ps i) (start i) i s.past) :=
  (Steps.obeying (tracks_phaseIn K Ps start) h hthreads).2

/-- What every action that the protocol of its thread admits preserves, and every change of the
environment, holds after every run of conforming threads. -/
theorem Steps.recorded {m0 : μ} {threads : ι → Program A Unit} {c : Config A ι (Recorded A ι μ)}
    {I : Recorded A ι μ → Prop}
    (h : Steps (.any K.machine) ⟨⟨m0, []⟩, threads⟩ c)
    (hthreads : ∀ i, (Ps i).Conforms (fun _ _ => True) (threads i) (start i))
    (h0 : I ⟨m0, []⟩)
    (hact : ∀ i {β : Type} (a : A β) e (s : Recorded A ι μ) q, I s →
      (Ps i).next (phaseIn (Ps i) (start i) i s.past) a (K.run i a e s.mem).1 = some q →
        phaseIn (Ps i) (start i) i (s.did K i a e).past = q → I (s.did K i a e))
    (henv : ∀ h (s : Recorded A ι μ) m, I s → K.env h s.mem = some m → I ⟨m, s.past⟩) :
    I c.shared := by
  have hruns := (Steps.obeying (tracks_phaseIn K Ps start) h hthreads).1
  refine hruns.invariant h0 ?_ ?_
  · rintro i β a e s hI - ⟨-, q, hnext, hafter⟩
    exact hact i a e s q hI hnext hafter
  · rintro h s s' hI - - hs
    obtain ⟨m, hm, rfl⟩ := Option.map_eq_some_iff.mp hs
    exact henv h s m hI hm

end
end Interleaving
