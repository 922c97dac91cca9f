import Mathlib.Data.List.GetD
import Mathlib.Data.List.Sort
import Mathlib.Data.List.TakeDrop
import Mathlib.Data.Nat.Notation

/-!
# Ranks and extremes of lists

The entry of a list that stands at an index once the list is sorted, and the extreme that a loop over
the list keeps.
-/

namespace OrderStatistics
variable {α : Type}

section Rank
variable [LinearOrder α]

/-- The value stands at index `k` when the list is sorted. -/
def HasRank (k : ℕ) (x : α) (l : List α) : Prop :=
  l.countP (· < x) ≤ k ∧ k < l.countP (· ≤ x)

instance (k : ℕ) (x : α) (l : List α) : Decidable (HasRank k x l) :=
  inferInstanceAs (Decidable (_ ∧ _))

theorem HasRank.perm {k : ℕ} {x : α} {l m : List α} (h : HasRank k x l) (hperm : l.Perm m) :
    HasRank k x m := by
  unfold HasRank at h ⊢
  rwa [← hperm.countP_eq, ← hperm.countP_eq]

theorem hasRank_of_pairwise {l : List α} (h : l.Pairwise (· ≤ ·)) {k : ℕ} (hk : k < l.length) :
    HasRank k l[k] l := by
  have hsplit : l.take k ++ l[k] :: l.drop (k + 1) = l := by
    rw [List.cons_getElem_drop_succ, List.take_append_drop]
  have hlength : (l.take k).length = k := List.length_take_of_le (Nat.le_of_lt hk)
  generalize l[k] = x at hsplit ⊢
  generalize l.take k = before at hsplit hlength
  generalize l.drop (k + 1) = after at hsplit
  subst hsplit
  rw [List.pairwise_append, List.pairwise_cons] at h
  obtain ⟨-, ⟨hafter, -⟩, hbefore⟩ := h
  constructor
  · have hnone : (x :: after).countP (· < x) = 0 := by
      rw [List.countP_eq_zero]
      intro y hy
      rcases List.mem_cons.mp hy with rfl | hy
      · simp
      · simpa using hafter y hy
    have hfew : before.countP (· < x) ≤ k := hlength ▸ List.countP_le_length
    rw [List.countP_append, hnone]
    exact hfew
  · have hall : before.countP (· ≤ x) = before.length := by
      rw [List.countP_eq_length]
      intro y hy
      simpa using hbefore y hy x List.mem_cons_self
    have hself : 0 < (x :: after).countP (· ≤ x) :=
      List.countP_pos_iff.mpr ⟨x, List.mem_cons_self, by simp⟩
    rw [List.countP_append, hall, hlength]
    omega

theorem hasRank_insertionSort {l : List α} {k : ℕ} (hk : k < l.length) (x : α) :
    HasRank k ((l.insertionSort (· ≤ ·)).getD k x) l := by
  have hsorted := List.pairwise_insertionSort (· ≤ ·) l
  have hperm := List.perm_insertionSort (· ≤ ·) l
  have hlength : k < (l.insertionSort (· ≤ ·)).length := by rwa [hperm.length_eq]
  rw [List.getD_eq_getElem _ _ hlength]
  exact (hasRank_of_pairwise hsorted hlength).perm hperm

end Rank

section Extreme
variable (r : α → α → Prop) [DecidableRel r]

/-- The loop that replaces its value by every entry beyond it. -/
def extreme (x : α) (l : List α) : α := l.foldl (fun m y => if r y m then y else m) x

variable {r}

theorem extreme_mem (x : α) (l : List α) : extreme r x l ∈ x :: l := by
  induction l generalizing x with
  | nil => exact List.mem_singleton.mpr rfl
  | cons y l ih =>
    have hrest := ih (if r y x then y else x)
    rcases List.mem_cons.mp hrest with hhead | htail
    · rw [extreme, List.foldl_cons]
      rw [extreme] at hhead
      rw [hhead]
      split
      · exact .tail _ List.mem_cons_self
      · exact List.mem_cons_self
    · exact .tail _ (.tail _ htail)

theorem extreme_eq_or_beyond [IsTrans α r] (x : α) (l : List α) :
    extreme r x l = x ∨ r (extreme r x l) x := by
  induction l generalizing x with
  | nil => exact .inl rfl
  | cons y l ih =>
    have hrest := ih (if r y x then y else x)
    change extreme r (if r y x then y else x) l = x ∨ r (extreme r (if r y x then y else x) l) x
    by_cases hy : r y x
    · rw [if_pos hy] at hrest ⊢
      rcases hrest with heq | hbeyond
      · exact .inr (by rwa [heq])
      · exact .inr (Trans.trans hbeyond hy)
    · rwa [if_neg hy] at hrest ⊢

/-- No entry is beyond the extreme. -/
theorem not_beyond_extreme [Std.Irrefl r] [IsTrans α r] (x : α) (l : List α) :
    ∀ y ∈ x :: l, ¬ r y (extreme r x l) := by
  induction l generalizing x with
  | nil =>
    intro y hy
    rw [List.mem_singleton.mp hy]
    exact irrefl x
  | cons z l ih =>
    have hrest := ih (if r z x then z else x)
    have hnew := hrest _ List.mem_cons_self
    intro y hy
    change ¬ r y (extreme r (if r z x then z else x) l)
    rcases List.mem_cons.mp hy with rfl | hy
    · by_cases hz : r z y
      · rw [if_pos hz] at hnew ⊢
        exact fun h => hnew (Trans.trans hz h)
      · rwa [if_neg hz] at hnew ⊢
    · rcases List.mem_cons.mp hy with rfl | hy
      · by_cases hz : r y x
        · rwa [if_pos hz] at hnew ⊢
        · rw [if_neg hz]
          rcases extreme_eq_or_beyond (r := r) x l with heq | hbeyond
          · rwa [heq]
          · exact fun h => hz (Trans.trans h hbeyond)
      · exact hrest y (.tail _ hy)

end Extreme
end OrderStatistics
