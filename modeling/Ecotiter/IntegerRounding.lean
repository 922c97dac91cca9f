import Mathlib.Algebra.Order.Round
import Mathlib.Data.Int.ConditionallyCompleteOrder
import Mathlib.Order.MinMax
import Mathlib.Tactic.Linarith
import Mathlib.Tactic.NormNum

/-!
# Rounding to integers within limits

A number is rounded towards zero, or to a nearest integer. Adding one half and then rounding towards
zero is the usual way to reach a nearest integer; below zero it misses it.
-/

namespace IntegerRounding

variable {K : Type*} [Field K] [LinearOrder K] {x y : K} {n lo hi : ℤ}

/-- No integer is closer to the number. -/
def IsNearest (n : ℤ) (x : K) : Prop := ∀ k : ℤ, |x - n| ≤ |x - k|

/-- The nearest integer, brought between the limits. -/
def IsNearestWithin (lo hi n : ℤ) (x : K) : Prop := ∃ k : ℤ, IsNearest k x ∧ n = max lo (min hi k)

theorem IsNearest.within {k : ℤ} (h : IsNearest k x) :
    IsNearestWithin lo hi (max lo (min hi k)) x := ⟨k, h, rfl⟩

variable [FloorRing K]

/-- Rounding towards zero. -/
def truncate (x : K) : ℤ := if 0 ≤ x then ⌊x⌋ else -⌊-x⌋

theorem truncate_of_nonneg (h : 0 ≤ x) : truncate x = ⌊x⌋ := if_pos h

variable [IsStrictOrderedRing K]

theorem truncate_of_neg (h : x < 0) : truncate x = ⌈x⌉ := by
  rw [truncate, if_neg (not_le.mpr h), Int.floor_neg, neg_neg]

theorem truncate_intCast (n : ℤ) : truncate (n : K) = n := by
  by_cases h : (0 : K) ≤ n
  · rw [truncate_of_nonneg h, Int.floor_intCast]
  · rw [truncate_of_neg (not_le.mp h), Int.ceil_intCast]

theorem truncate_mono : Monotone (truncate : K → ℤ) := by
  intro x y hxy
  by_cases hx : 0 ≤ x
  · rw [truncate_of_nonneg hx, truncate_of_nonneg (hx.trans hxy)]
    exact Int.floor_mono hxy
  · rw [truncate_of_neg (not_le.mp hx)]
    by_cases hy : 0 ≤ y
    · have hceil : ⌈x⌉ ≤ 0 := by
        rw [Int.ceil_le, Int.cast_zero]
        exact (not_le.mp hx).le
      rw [truncate_of_nonneg hy]
      exact hceil.trans (Int.floor_nonneg.mpr hy)
    · rw [truncate_of_neg (not_le.mp hy)]
      exact Int.ceil_mono hxy

/-- Rounding towards zero commutes with limits that are integers. -/
theorem truncate_clamp (x : K) :
    truncate (max (lo : K) (min (hi : K) x)) = max lo (min hi (truncate x)) := by
  rw [truncate_mono.map_max, truncate_mono.map_min, truncate_intCast, truncate_intCast]

theorem isNearest_iff : IsNearest n x ↔ |x - n| ≤ 1 / 2 := by
  constructor
  · intro h
    exact (h (round x)).trans (abs_sub_round x)
  · intro h k
    by_cases hk : n = k
    · rw [hk]
    · have hone : (1 : K) ≤ |(n : K) - k| := by
        have hint : (1 : ℤ) ≤ |n - k| := Int.one_le_abs (sub_ne_zero.mpr hk)
        exact_mod_cast hint
      have htri := abs_sub_le (n : K) x k
      rw [abs_sub_comm (n : K) x] at htri
      linarith

theorem isNearest_round (x : K) : IsNearest (round x) x := round_le x

/-- A nearest integer is that of a number whose half above it lies in the interval above `n`. -/
theorem isNearest_iff_half : IsNearest n x ↔ (n : K) ≤ x + 1 / 2 ∧ x + 1 / 2 ≤ n + 1 := by
  rw [isNearest_iff, abs_le]
  constructor <;> rintro ⟨hlow, hhigh⟩ <;> constructor <;> linarith

/-- The sum with one half, rounded towards zero, is a nearest integer from -1/2 on, and below only
where the sum is an integer. -/
theorem isNearest_truncate_half_iff :
    IsNearest (truncate (x + 1 / 2)) x ↔ -(1 / 2) ≤ x ∨ ∃ k : ℤ, x + 1 / 2 = k := by
  rw [isNearest_iff_half]
  by_cases h : 0 ≤ x + 1 / 2
  · rw [truncate_of_nonneg h]
    refine iff_of_true ⟨Int.floor_le _, (Int.lt_floor_add_one _).le⟩ (.inl ?_)
    linarith
  · have hneg := not_le.mp h
    rw [truncate_of_neg hneg]
    have hceil := Int.ceil_lt_add_one (x + 1 / 2)
    constructor
    · rintro ⟨hle, -⟩
      exact .inr ⟨_, le_antisymm (Int.le_ceil _) hle⟩
    · rintro (hlow | ⟨k, hk⟩)
      · exact absurd (by linarith : (0 : K) ≤ x + 1 / 2) h
      · rw [hk, Int.ceil_intCast]
        constructor <;> linarith

/-- The sum with one half, brought between the limits and rounded towards zero, is the nearest
integer within the limits from -1/2 on, and below only where the sum is an integer or not above the
lower limit. -/
theorem isNearestWithin_truncate_iff (hlo : lo ≤ 0) (hhi : 0 ≤ hi) :
    IsNearestWithin lo hi (truncate (max (lo : K) (min (hi : K) (x + 1 / 2)))) x ↔
      -(1 / 2) ≤ x ∨ (∃ k : ℤ, x + 1 / 2 = k) ∨ x + 1 / 2 ≤ lo := by
  rw [truncate_clamp]
  constructor
  · rintro ⟨k, hk, heq⟩
    by_contra hcond
    obtain ⟨hneg, hint, hlow⟩ :
        x < -(1 / 2) ∧ (¬ ∃ k : ℤ, x + 1 / 2 = k) ∧ (lo : K) < x + 1 / 2 := by
      simpa only [not_or, not_le] using hcond
    obtain ⟨hle, hge⟩ := isNearest_iff_half.mp hk
    have hfloor : k < x + 1 / 2 := lt_of_le_of_ne hle fun h => hint ⟨k, h.symm⟩
    have hceil : x + 1 / 2 < ((k + 1 : ℤ) : K) := by
      refine lt_of_le_of_ne ?_ fun h => hint ⟨k + 1, h⟩
      push_cast
      exact hge
    have htrunc : truncate (x + 1 / 2) = k + 1 := by
      rw [truncate_of_neg (by linarith), Int.ceil_eq_iff]
      push_cast at hceil ⊢
      constructor <;> linarith
    have hklow : lo ≤ k := by
      have hlt : (lo : K) < ((k + 1 : ℤ) : K) := hlow.trans hceil
      have hlt : lo < k + 1 := by exact_mod_cast hlt
      omega
    have hkneg : k < 0 := by
      have hlt : (k : K) < 0 := by linarith
      exact_mod_cast hlt
    rw [htrunc] at heq
    omega
  · rintro (hcond | hint | hlow)
    · exact (isNearest_truncate_half_iff.mpr (.inl hcond)).within
    · exact (isNearest_truncate_half_iff.mpr (.inr hint)).within
    · refine ⟨round x, isNearest_round x, ?_⟩
      have hround : round x ≤ lo := by
        rw [round_eq]
        exact_mod_cast (Int.floor_mono hlow).trans (Int.floor_intCast lo).le
      have htrunc : truncate (x + 1 / 2) ≤ lo := (truncate_mono hlow).trans (truncate_intCast lo).le
      omega

end IntegerRounding
