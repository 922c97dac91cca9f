import Mathlib.Data.List.Infix
import Mathlib.Tactic.Common

/-!
# Names between quotes

A text is cut into parts by its quotes. The search for a name with its two quotes stops at the first
part that is the name, whether it stands between an opening and a closing quote or between a closing
and an opening one.
-/

namespace QuotedText
variable {α : Type} {q : α} {name part : List α}

/-- A name and the quote behind it begin a text if the part up to the next quote is the name. -/
theorem prefix_iff (hname : q ∉ name) (hpart : q ∉ part) (rest : List α) :
    name ++ [q] <+: part ++ q :: rest ↔ name = part := by
  induction name generalizing part with
  | nil =>
    cases part with
    | nil => simp
    | cons c part =>
      rw [List.mem_cons, not_or] at hpart
      simp [hpart.1]
  | cons d name ih =>
    rw [List.mem_cons, not_or] at hname
    cases part with
    | nil => simp [Ne.symm hname.1]
    | cons c part =>
      rw [List.mem_cons, not_or] at hpart
      rw [List.cons_append, List.cons_append, List.cons_prefix_cons, ih hname.2 hpart.2,
        List.cons.injEq]

variable [DecidableEq α]

/-- The rest of a text from the first place where `needle` stands. -/
def search (needle : List α) : List α → Option (List α)
  | [] => if needle = [] then some [] else none
  | c :: t => if needle <+: c :: t then some (c :: t) else search needle t

theorem search_skip (needle : List α) (hpart : q ∉ part) (rest : List α) :
    search (q :: needle) (part ++ rest) = search (q :: needle) rest := by
  induction part with
  | nil => rfl
  | cons c part ih =>
    rw [List.mem_cons, not_or] at hpart
    have hno : ¬ q :: needle <+: c :: (part ++ rest) := by
      intro h
      exact hpart.1 (List.cons_prefix_cons.mp h).1
    rw [List.cons_append, search, if_neg hno, ih hpart.2]

theorem search_quoted (hname : q ∉ name) (hpart : q ∉ part) (rest : List α) :
    search (q :: (name ++ [q])) (q :: (part ++ q :: rest)) =
      if name = part then some (q :: (part ++ q :: rest))
      else search (q :: (name ++ [q])) (q :: rest) := by
  have hhere : q :: (name ++ [q]) <+: q :: (part ++ q :: rest) ↔ name = part := by
    rw [List.prefix_cons_inj, prefix_iff hname hpart]
  rw [search]
  by_cases heq : name = part
  · rw [if_pos heq, if_pos (hhere.mpr heq)]
  · rw [if_neg heq, if_neg (fun h => heq (hhere.mp h)), search_skip _ hpart]

end QuotedText
