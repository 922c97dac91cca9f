import Mathlib.Data.List.TakeDrop
import Mathlib.Tactic.Common

/-!
# Checked access to an array

A range that is read and elements that are written. An access that leaves the array has no result.
-/

namespace CheckedMemory
variable {α : Type}

/-- `n` elements from an index on. -/
def load (mem : List α) (i n : ℕ) : Option (List α) :=
  if i + n ≤ mem.length then some ((mem.drop i).take n) else none

/-- Elements over the ones from an index on. -/
def store (mem : List α) (i : ℕ) (s : List α) : Option (List α) :=
  if i + s.length ≤ mem.length then some (mem.take i ++ s ++ mem.drop (i + s.length)) else none

theorem load_eq {mem : List α} {i n : ℕ} (h : i + n ≤ mem.length) :
    load mem i n = some ((mem.drop i).take n) := if_pos h

/-- A store behind what is kept in front. -/
theorem store_append (kept s rest : List α) (h : s.length ≤ rest.length) :
    store (kept ++ rest) kept.length s = some (kept ++ s ++ rest.drop s.length) := by
  have hin : kept.length + s.length ≤ (kept ++ rest).length := by
    rw [List.length_append]
    omega
  rw [store, if_pos hin, List.take_left, List.drop_length_add_append]

theorem store_zero (s rest : List α) (h : s.length ≤ rest.length) :
    store rest 0 s = some (s ++ rest.drop s.length) := store_append [] s rest h

end CheckedMemory
