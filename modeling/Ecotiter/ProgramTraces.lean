import Ecotiter.ProgramProtocol

/-!
# What can be observed of a program

`Program.Trace` lists what an observer sees of the actions of a program that comes to an end,
whatever the answers are. Its constructors follow those of `Program`, a loop being left or taken
once more. `Program.Reaches` is the corresponding relation between a program and what is left of it;
every thread of a run of the whole system obeys it.
-/

namespace Interleaving

universe u v w

namespace Program

variable {A : Type → Type v} {ω : Type w} {obs : {β : Type} → A β → Option ω} {α β γ δ : Type}

inductive Trace (obs : {β : Type} → A β → Option ω) :
    {α : Type} → Program A α → List ω → α → Prop
  | ret {α : Type} (a : α) : Trace obs (.ret a) [] a
  | act {α β : Type} {a : A β} {next : β → Program A α} {l : List ω} {c : α} (b : β) :
      Trace obs (next b) l c → Trace obs (.act a next) ((obs a).toList ++ l) c
  | leave {α β γ : Type} {body : β → Program A (β ⊕ γ)} {b : β} {next : γ → Program A α}
      {l l' : List ω} {r : γ} {c : α} :
      Trace obs (body b) l (.inr r) → Trace obs (next r) l' c →
      Trace obs (.loop body b next) (l ++ l') c
  | again {α β γ : Type} {body : β → Program A (β ⊕ γ)} {b b' : β} {next : γ → Program A α}
      {l l' : List ω} {c : α} :
      Trace obs (body b) l (.inl b') → Trace obs (.loop body b' next) l' c →
      Trace obs (.loop body b next) (l ++ l') c

@[simp] theorem trace_ret {a c : α} {l : List ω} :
    (ret a : Program A α).Trace obs l c ↔ c = a ∧ l = [] := by
  constructor
  · intro h
    cases h
    exact ⟨rfl, rfl⟩
  · rintro ⟨rfl, rfl⟩
    exact .ret c

@[simp] theorem trace_pure {a c : α} {l : List ω} :
    (pure a : Program A α).Trace obs l c ↔ c = a ∧ l = [] := trace_ret

theorem trace_act {a : A β} {next : β → Program A α} {c : α} {l : List ω} :
    (act a next).Trace obs l c ↔ ∃ b l', l = (obs a).toList ++ l' ∧ (next b).Trace obs l' c := by
  constructor
  · intro h
    cases h with
    | act b h => exact ⟨b, _, rfl, h⟩
  · rintro ⟨b, l', rfl, h⟩
    exact .act b h

/-- An action that is not observed. -/
theorem trace_silent {a : A β} (ha : obs a = none) {next : β → Program A α} {c : α}
    {l : List ω} : (act a next).Trace obs l c ↔ ∃ b, (next b).Trace obs l c := by
  simp [trace_act, ha]

/-- An action that is neither observed nor answers. -/
theorem trace_skip {a : A Unit} (ha : obs a = none) {next : Unit → Program A α} {c : α}
    {l : List ω} : (act a next).Trace obs l c ↔ (next ()).Trace obs l c :=
  (trace_silent ha).trans ⟨fun ⟨_, h⟩ => h, fun h => ⟨(), h⟩⟩

theorem trace_loop {body : β → Program A (β ⊕ γ)} {b : β} {next : γ → Program A α} {c : α}
    {l : List ω} : (loop body b next).Trace obs l c ↔ ∃ r l₁ l₂, l = l₁ ++ l₂ ∧
      (body b).Trace obs l₁ r ∧
        (Sum.elim (fun b' => loop body b' next) next r).Trace obs l₂ c := by
  constructor
  · intro h
    cases h with
    | leave hbody hnext => exact ⟨.inr _, _, _, rfl, hbody, hnext⟩
    | again hbody hloop => exact ⟨.inl _, _, _, rfl, hbody, hloop⟩
  · rintro ⟨r, l₁, l₂, rfl, hbody, hrest⟩
    cases r with
    | inl b' => exact .again hbody hrest
    | inr r => exact .leave hbody hrest

theorem Trace.bind {p : Program A α} {f : α → Program A δ} {a : α} {d : δ} {l l' : List ω}
    (hp : p.Trace obs l a) (hf : (f a).Trace obs l' d) : (p >>= f).Trace obs (l ++ l') d := by
  induction hp with
  | ret a => exact hf
  | act b _ ih =>
    rw [List.append_assoc]
    exact .act b (ih hf)
  | leave hbody _ _ ih =>
    rw [List.append_assoc]
    exact .leave hbody (ih hf)
  | again hbody _ _ ih =>
    rw [List.append_assoc]
    exact .again hbody (ih hf)

theorem trace_bind {p : Program A α} {f : α → Program A δ} {d : δ} {l : List ω} :
    (p >>= f).Trace obs l d ↔
      ∃ a l₁ l₂, l = l₁ ++ l₂ ∧ p.Trace obs l₁ a ∧ (f a).Trace obs l₂ d := by
  constructor
  · intro h
    generalize hq : p >>= f = q at h
    induction h generalizing p with
    | ret d =>
      cases p with
      | ret a => exact ⟨a, [], [], rfl, .ret a, by rw [← ret_bind a f, hq]; exact .ret d⟩
      | act a next => cases hq
      | loop body b next => cases hq
    | act b h ih =>
      cases p with
      | ret a => exact ⟨a, [], _, rfl, .ret a, by rw [← ret_bind a f, hq]; exact .act b h⟩
      | act a next =>
        cases hq
        obtain ⟨a', l₁, l₂, rfl, hp, hf⟩ := ih rfl
        exact ⟨a', _, l₂, (List.append_assoc ..).symm, .act b hp, hf⟩
      | loop body b next => cases hq
    | leave hbody hnext _ ih =>
      cases p with
      | ret a => exact ⟨a, [], _, rfl, .ret a, by rw [← ret_bind a f, hq]; exact .leave hbody hnext⟩
      | act a next => cases hq
      | loop body b next =>
        cases hq
        obtain ⟨a', l₁, l₂, rfl, hp, hf⟩ := ih rfl
        exact ⟨a', _, l₂, (List.append_assoc ..).symm, .leave hbody hp, hf⟩
    | again hbody hloop _ ih =>
      cases p with
      | ret a => exact ⟨a, [], _, rfl, .ret a, by rw [← ret_bind a f, hq]; exact .again hbody hloop⟩
      | act a next => cases hq
      | loop body b next =>
        cases hq
        obtain ⟨a', l₁, l₂, rfl, hp, hf⟩ := ih (loop_bind ..)
        exact ⟨a', _, l₂, (List.append_assoc ..).symm, .again hbody hp, hf⟩
  · rintro ⟨a, l₁, l₂, rfl, hp, hf⟩
    exact hp.bind hf

/-- After a program of which all traces are the same. -/
theorem trace_bind_of {p : Program A Unit} {f : Unit → Program A δ} {l₀ l : List ω} {d : δ}
    (hp : ∀ l, p.Trace obs l () ↔ l = l₀) :
    (p >>= f).Trace obs l d ↔ ∃ l', l = l₀ ++ l' ∧ (f ()).Trace obs l' d := by
  rw [trace_bind]
  constructor
  · rintro ⟨_, l₁, l₂, rfl, h, hf⟩
    exact ⟨l₂, by rw [(hp l₁).mp h], hf⟩
  · rintro ⟨l', rfl, hf⟩
    exact ⟨(), l₀, l', rfl, (hp l₀).mpr rfl, hf⟩

/-- The loop rule: `J` holds of the loop variable and what has been seen at the head, `K` of the
result and what has been seen when the loop is left. -/
theorem Trace.iterate {body : β → Program A (β ⊕ α)} (J : β → List ω → Prop)
    (K : α → List ω → Prop)
    (hbody : ∀ b l, J b l → ∀ l' r, (body b).Trace obs l' r → Sum.elim J K r (l ++ l')) {b : β}
    {l : List ω} {c : α} (hJ : J b []) (h : (Program.iterate body b).Trace obs l c) : K c l := by
  have hseen : ∀ (q : Program A α) l c, q.Trace obs l c → ∀ b l₀, q = Program.iterate body b →
      J b l₀ → K c (l₀ ++ l) := by
    clear h hJ c
    intro q l c h
    induction h with
    | ret => exact fun _ _ hq => nomatch hq
    | act => exact fun _ _ hq => nomatch hq
    | leave hb hnext =>
      rintro b l₀ hq hJ
      cases hq
      obtain ⟨rfl, rfl⟩ := trace_ret.mp hnext
      rw [List.append_nil]
      exact hbody b l₀ hJ _ _ hb
    | again hb _ _ ih =>
      rintro b l₀ hq hJ
      cases hq
      rw [← List.append_assoc]
      exact ih K hbody _ _ rfl (hbody b l₀ hJ _ _ hb)
  exact hseen _ l c h b [] rfl hJ

/-- What is seen of a program was made by the actions it may perform. -/
theorem Only.trace_forall {S : {β : Type} → A β → Bool} {P : ω → Prop} {p : Program A α}
    (h : p.Only S) (hS : ∀ {β : Type} (a : A β), S a = true → ∀ x ∈ obs a, P x) {l : List ω}
    {c : α} (ht : p.Trace obs l c) : ∀ x ∈ l, P x := by
  induction ht with
  | ret => exact nofun
  | act b _ ih =>
    intro x hx
    obtain hx | hx := List.mem_append.mp hx
    · exact hS _ h.1 x (Option.mem_toList.mp hx)
    · exact ih (h.2 b) x hx
  | leave _ _ ihbody ihnext =>
    exact List.forall_mem_append.mpr ⟨ihbody (h.1 _), ihnext (h.2 _)⟩
  | again _ _ ihbody ihloop =>
    exact List.forall_mem_append.mpr ⟨ihbody (h.1 _), ihloop h⟩

/-- A program without observed actions shows nothing. -/
theorem Only.trace_nil {S : {β : Type} → A β → Bool} {p : Program A α} (h : p.Only S)
    (hS : ∀ {β : Type} (a : A β), S a = true → obs a = none) {l : List ω} {c : α}
    (ht : p.Trace obs l c) : l = [] := by
  refine List.eq_nil_iff_forall_not_mem.mpr (h.trace_forall (fun a ha x hx => ?_) ht)
  rw [hS a ha] at hx
  cases hx

/-- What is left of a program after some steps, and what has been seen of it. -/
inductive Reaches (obs : {β : Type} → A β → Option ω) :
    Program A α → List ω → Program A α → Prop
  | refl (p : Program A α) : Reaches obs p [] p
  | act {β : Type} {a : A β} {next : β → Program A α} {l : List ω} {q : Program A α} (b : β) :
      Reaches obs (next b) l q → Reaches obs (.act a next) ((obs a).toList ++ l) q
  | loop {β γ : Type} {body : β → Program A (β ⊕ γ)} {b : β} {next : γ → Program A α}
      {l : List ω} {q : Program A α} :
      Reaches obs (unroll body b next) l q → Reaches obs (.loop body b next) l q

theorem Reaches.trans {p q r : Program A α} {l l' : List ω} (h : p.Reaches obs l q)
    (h' : q.Reaches obs l' r) : p.Reaches obs (l ++ l') r := by
  induction h with
  | refl => exact h'
  | act b _ ih =>
    rw [List.append_assoc]
    exact .act b (ih h')
  | loop _ ih => exact .loop (ih h')

theorem Reaches.bind {p q : Program A α} {l : List ω} (h : p.Reaches obs l q)
    (f : α → Program A δ) : (p >>= f).Reaches obs l (q >>= f) := by
  induction h with
  | refl p => exact .refl _
  | act b _ ih => exact .act b ih
  | loop _ ih =>
    refine .loop ?_
    rw [← unroll_bind]
    exact ih

/-- A program that comes to its end has taken the steps up to there. -/
theorem Trace.reaches {p : Program A α} {l : List ω} {a : α} (h : p.Trace obs l a) :
    p.Reaches obs l (.ret a) := by
  induction h with
  | ret a => exact .refl _
  | act b _ ih => exact .act b ih
  | leave _ _ ihbody ihnext => exact .loop ((ihbody.bind _).trans ihnext)
  | again _ _ ihbody ihloop => exact .loop ((ihbody.bind _).trans ihloop)

/-- The end of a program does not depend on the observer. -/
theorem Trace.observe {p : Program A α} {l : List ω} {a : α} (h : p.Trace obs l a) {ω' : Type}
    (obs' : {β : Type} → A β → Option ω') : ∃ l', p.Trace obs' l' a := by
  induction h with
  | ret a => exact ⟨_, .ret a⟩
  | act b _ ih =>
    obtain ⟨l', h⟩ := ih
    exact ⟨_, .act b h⟩
  | leave _ _ ihbody ihnext =>
    obtain ⟨l₁, hbody⟩ := ihbody
    obtain ⟨l₂, hnext⟩ := ihnext
    exact ⟨_, .leave hbody hnext⟩
  | again _ _ ihbody ihloop =>
    obtain ⟨l₁, hbody⟩ := ihbody
    obtain ⟨l₂, hloop⟩ := ihloop
    exact ⟨_, .again hbody hloop⟩

/-- The course of a program without observed actions shows nothing. -/
theorem Only.reaches_nil {S : {β : Type} → A β → Bool} {p q : Program A α} (h : p.Only S)
    (hS : ∀ {β : Type} (a : A β), S a = true → obs a = none) {l : List ω}
    (hr : p.Reaches obs l q) : l = [] := by
  induction hr with
  | refl => rfl
  | act b _ ih =>
    rw [hS _ h.1, ih (h.2 b)]
    rfl
  | loop _ ih => exact ih (Only.unroll h)

/-- When a program followed by `f` has taken some steps, it is still in its course, or what was seen
of it is one of its traces. -/
theorem Reaches.of_bind {p : Program A α} {f : α → Program A δ} {q : Program A δ} {l : List ω}
    (h : (p >>= f).Reaches obs l q) :
    (∃ p', p.Reaches obs l p' ∧ q = p' >>= f) ∨
      ∃ a l₁ l₂, l = l₁ ++ l₂ ∧ p.Trace obs l₁ a ∧ (f a).Reaches obs l₂ q := by
  generalize hr : p >>= f = r at h
  induction h generalizing p with
  | refl => exact .inl ⟨p, .refl p, hr.symm⟩
  | act b h ih =>
    cases p with
    | ret a => exact .inr ⟨a, [], _, rfl, .ret a, by rw [← ret_bind a f, hr]; exact .act b h⟩
    | act a next =>
      cases hr
      obtain ⟨p', hp, rfl⟩ | ⟨a', l₁, l₂, rfl, hp, hf⟩ := ih rfl
      · exact .inl ⟨p', .act b hp, rfl⟩
      · exact .inr ⟨a', _, l₂, (List.append_assoc ..).symm, .act b hp, hf⟩
    | loop body b next => cases hr
  | loop h ih =>
    cases p with
    | ret a => exact .inr ⟨a, [], _, rfl, .ret a, by rw [← ret_bind a f, hr]; exact .loop h⟩
    | act a next => cases hr
    | loop body b next =>
      cases hr
      obtain ⟨p', hp, rfl⟩ | ⟨a', l₁, l₂, rfl, hp, hf⟩ := ih (unroll_bind ..)
      · exact .inl ⟨p', .loop hp, rfl⟩
      · obtain ⟨r, l, l', rfl, hbody, hrest⟩ := trace_bind.mp hp
        exact .inr ⟨a', _, l₂, rfl, trace_loop.mpr ⟨r, l, l', rfl, hbody, hrest⟩, hf⟩

end Program

section Runs
variable {A : Type → Type v} {ι ε η : Type} {σ : Type u} {M : Machine A ι ε η σ} [DecidableEq ι]
  {C : Assumption M} {ω : Type w} {obs : {β : Type} → A β → Option ω} {c c' : Config A ι σ}

theorem Step.reaches (h : Step C c c') (i : ι) :
    ∃ l, (c.thread i).Reaches obs l (c'.thread i) := by
  have hupdate : ∀ {j p q l}, c.thread j = p → p.Reaches obs l q →
      ∃ l, (c.thread i).Reaches obs l (Function.update c.thread j q i) := by
    rintro j _ q l rfl hl
    by_cases hij : i = j
    · subst hij
      rw [Function.update_self]
      exact ⟨l, hl⟩
    · rw [Function.update_of_ne hij]
      exact ⟨[], .refl _⟩
  cases h with
  | act j e _ ht _ => exact hupdate ht (.act _ (.refl _))
  | loop j _ ht => exact hupdate ht (.loop (.refl _))
  | env => exact ⟨[], .refl _⟩

/-- In a run of the whole system every thread takes such steps. -/
theorem Steps.reaches (h : Steps C c c') (i : ι) :
    ∃ l, (c.thread i).Reaches obs l (c'.thread i) := by
  induction h with
  | refl => exact ⟨[], .refl _⟩
  | tail _ hstep ih =>
    obtain ⟨l, hl⟩ := ih
    obtain ⟨l', hl'⟩ := hstep.reaches i
    exact ⟨l ++ l', hl.trans hl'⟩

end Runs
end Interleaving
