import Mathlib.Data.List.Basic
import Mathlib.Data.Nat.Notation

/-!
# The ledger of a bounded queue

A queue that refuses what does not fit is used by any number of parties. The ledger lists what was
offered, accepted and taken. Whatever the order of the uses, nothing that was accepted is lost,
repeated or moved: what was taken followed by what is still in the queue is what was accepted, and
this is what was offered with the refused entries left out. `HandedOn` is the link between two
queues: a party that has at most one entry in its hands.
-/

namespace QueueLedger
variable {α : Type}

inductive Use (α : Type)
  | accept (x : α)
  | refuse (x : α)
  | take (x : α)

namespace Use

def offered : Use α → Option α
  | .accept x | .refuse x => some x
  | .take _ => none

def accepted : Use α → Option α
  | .accept x => some x
  | .refuse _ | .take _ => none

def taken : Use α → Option α
  | .take x => some x
  | .accept _ | .refuse _ => none

/-- The content of a queue for `cap` entries before and after a use. -/
inductive Changes (cap : ℕ) : Use α → List α → List α → Prop
  | accept {q : List α} {x : α} (hroom : q.length < cap) : Changes cap (.accept x) q (q ++ [x])
  | refuse {q : List α} {x : α} (hfull : cap ≤ q.length) : Changes cap (.refuse x) q q
  | take {q : List α} {x : α} : Changes cap (.take x) (x :: q) q

end Use

/-- `Leads cap us q`: the uses `us` of an empty queue, oldest first, leave `q`. -/
inductive Leads (cap : ℕ) : List (Use α) → List α → Prop
  | nil : Leads cap [] []
  | snoc {us : List (Use α)} {u : Use α} {q q' : List α} (h : Leads cap us q)
      (hu : u.Changes cap q q') : Leads cap (us ++ [u]) q'

def offeredItems (us : List (Use α)) : List α := us.filterMap Use.offered

def acceptedItems (us : List (Use α)) : List α := us.filterMap Use.accepted

def takenItems (us : List (Use α)) : List α := us.filterMap Use.taken

theorem accepted_append (us : List (Use α)) (u : Use α) :
    acceptedItems (us ++ [u]) = acceptedItems us ++ u.accepted.toList := by
  cases u <;> exact List.filterMap_append

theorem taken_append (us : List (Use α)) (u : Use α) :
    takenItems (us ++ [u]) = takenItems us ++ u.taken.toList := by
  cases u <;> exact List.filterMap_append

theorem accepted_sublist_offered (us : List (Use α)) :
    (acceptedItems us).Sublist (offeredItems us) := by
  induction us with
  | nil => exact .slnil
  | cons u us ih =>
    cases u with
    | accept x => exact ih.cons_cons x
    | refuse x => exact ih.cons x
    | take x => exact ih

section Runs
variable {cap : ℕ} {us : List (Use α)} {q : List α}

/-- What was accepted is what was taken and then what is still there. -/
theorem Leads.accepted_eq (h : Leads cap us q) : acceptedItems us = takenItems us ++ q := by
  induction h with
  | nil => rfl
  | snoc _ hu ih =>
    rw [accepted_append, taken_append, ih]
    cases hu with
    | accept hroom =>
      change (takenItems _ ++ _) ++ [_] = (takenItems _ ++ []) ++ (_ ++ [_])
      rw [List.append_nil, List.append_assoc]
    | refuse hfull =>
      change (takenItems _ ++ _) ++ [] = (takenItems _ ++ []) ++ _
      rw [List.append_nil, List.append_nil]
    | take =>
      change (takenItems _ ++ (_ :: _)) ++ [] = (takenItems _ ++ [_]) ++ _
      rw [List.append_nil, List.append_assoc, List.singleton_append]

theorem Leads.length_le (h : Leads cap us q) : q.length ≤ cap := by
  induction h with
  | nil => exact Nat.zero_le cap
  | snoc _ hu ih =>
    cases hu with
    | accept hroom =>
      rw [List.length_append, List.length_singleton]
      exact hroom
    | refuse hfull => exact ih
    | take =>
      rw [List.length_cons] at ih
      omega

/-- What was taken was offered, in this order. -/
theorem Leads.taken_sublist_offered (h : Leads cap us q) :
    (takenItems us).Sublist (offeredItems us) := by
  have htaken : (takenItems us).Sublist (acceptedItems us) := by
    rw [h.accepted_eq]
    exact List.sublist_append_left _ _
  exact htaken.trans (accepted_sublist_offered us)

theorem Leads.of_prefix {pre : List (Use α)} (h : Leads cap us q) (hpre : pre <+: us) :
    ∃ q', Leads cap pre q' := by
  induction h with
  | nil =>
    rw [List.prefix_nil.mp hpre]
    exact ⟨[], .nil⟩
  | snoc hpast hu ih =>
    rcases List.prefix_concat_iff.mp hpre with rfl | hshorter
    · exact ⟨_, hpast.snoc hu⟩
    · exact ih hshorter

/-- An entry is refused only if as many as the queue holds were accepted and not yet taken. -/
theorem Leads.full_of_refuse {pre : List (Use α)} {x : α} (h : Leads cap us q)
    (hpre : pre ++ [.refuse x] <+: us) :
    (acceptedItems pre).length = (takenItems pre).length + cap := by
  obtain ⟨q', hleads⟩ := h.of_prefix hpre
  generalize hall : pre ++ [.refuse x] = all at hleads
  cases hleads with
  | nil => exact absurd hall (List.append_ne_nil_of_right_ne_nil _ (List.cons_ne_nil _ _))
  | snoc hpast hu =>
    obtain ⟨rfl, hlast⟩ := List.append_inj' hall rfl
    cases hlast
    cases hu with
    | refuse hfull =>
      have hlength := hpast.length_le
      rw [hpast.accepted_eq, List.length_append]
      omega

end Runs

/-- A party that takes entries one after the other, gives some of them on and holds at most one. -/
def HandedOn (held : Option α) (source sink : List α) : Prop :=
  ∃ front, source = front ++ held.toList ∧ sink.Sublist front

namespace HandedOn
variable {held : Option α} {source sink : List α} {x : α}

theorem sublist (h : HandedOn held source sink) : sink.Sublist source := by
  obtain ⟨front, rfl, hsink⟩ := h
  exact hsink.trans (List.sublist_append_left _ _)

theorem take (h : HandedOn held source sink) (x : α) : HandedOn (some x) (source ++ [x]) sink :=
  ⟨source, rfl, h.sublist⟩

theorem drop (h : HandedOn held source sink) : HandedOn none source sink :=
  ⟨source, (List.append_nil source).symm, h.sublist⟩

theorem give (h : HandedOn (some x) source sink) : HandedOn none source (sink ++ [x]) := by
  obtain ⟨front, rfl, hsink⟩ := h
  exact ⟨front ++ [x], (List.append_nil _).symm, hsink.append_right [x]⟩

end HandedOn
end QueueLedger
