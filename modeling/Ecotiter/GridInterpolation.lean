import Mathlib.Algebra.Order.Field.Basic
import Mathlib.Tactic.Linarith
import Mathlib.Tactic.Ring

/-!
# Interpolation on a grid

A function given at the points of a grid is continued linearly between neighbouring points and by a
constant outside. The cell of a number is found by a search through all of them.
-/

/-- Increasing points and the number of cells between them. -/
structure InterpolationGrid (K : Type*) [LT K] where
  point : ℕ → K
  cells : ℕ
  cells_pos : 0 < cells
  increasing : ∀ i < cells, point i < point (i + 1)

namespace InterpolationGrid

section
variable {K : Type*} [Field K]

def lerp (a b t : K) : K := a + (b - a) * t

theorem lerp_eq (a b t : K) : lerp a b t = (1 - t) * a + t * b := by
  unfold lerp
  ring

theorem lerp_self (a t : K) : lerp a a t = a := by
  rw [lerp, sub_self, zero_mul, add_zero]

end

variable {K : Type*} [LinearOrder K] (g : InterpolationGrid K)

/-- The last cell so far whose lower end does not exceed `x`, or the first. -/
def search (x : K) (k : ℕ) : ℕ :=
  (List.range k).foldl (fun acc i => if g.point i ≤ x then i else acc) 0

def cell (x : K) : ℕ := g.search x g.cells

def clamp (x : K) : K :=
  let x := if x < g.point 0 then g.point 0 else x
  if g.point g.cells < x then g.point g.cells else x

/-- `x` lies between the first point and the last. -/
def Covers (x : K) : Prop := g.point 0 ≤ x ∧ x ≤ g.point g.cells

variable {g} {v : ℕ → K} {x y : K} {i j k : ℕ}

theorem value_mono (hv : ∀ i < g.cells, v i ≤ v (i + 1)) (h : i ≤ j) (hj : j ≤ g.cells) :
    v i ≤ v j := by
  induction j, h using Nat.le_induction with
  | base => exact le_rfl
  | succ j _ ih => exact (ih (by omega)).trans (hv j (by omega))

theorem point_mono (h : i ≤ j) (hj : j ≤ g.cells) : g.point i ≤ g.point j :=
  value_mono (fun i hi => (g.increasing i hi).le) h hj

theorem clamp_of_covers (h : g.Covers x) : g.clamp x = x := by
  simp only [clamp, if_neg (not_lt.mpr h.1), if_neg (not_lt.mpr h.2)]

theorem clamp_of_le (h : x ≤ g.point 0) : g.clamp x = g.point 0 := by
  have hends : g.point 0 ≤ g.point g.cells := point_mono (Nat.zero_le _) le_rfl
  have hlow : (if x < g.point 0 then g.point 0 else x) = g.point 0 := by
    by_cases hx : x < g.point 0
    · exact if_pos hx
    · rw [if_neg hx]
      exact le_antisymm h (not_lt.mp hx)
  simp only [clamp, hlow, if_neg (not_lt.mpr hends)]

theorem clamp_of_ge (h : g.point g.cells ≤ x) : g.clamp x = g.point g.cells := by
  have hends : g.point 0 ≤ g.point g.cells := point_mono (Nat.zero_le _) le_rfl
  simp only [clamp, if_neg (not_lt.mpr (hends.trans h))]
  by_cases hx : g.point g.cells < x
  · exact if_pos hx
  · rw [if_neg hx]
    exact le_antisymm (not_lt.mp hx) h

theorem covers_clamp (x : K) : g.Covers (g.clamp x) := by
  have hends : g.point 0 ≤ g.point g.cells := point_mono (Nat.zero_le _) le_rfl
  by_cases hlow : x ≤ g.point 0
  · rw [clamp_of_le hlow]
    exact ⟨le_rfl, hends⟩
  · by_cases hhigh : g.point g.cells ≤ x
    · rw [clamp_of_ge hhigh]
      exact ⟨hends, le_rfl⟩
    · have hcovers : g.Covers x := ⟨(not_le.mp hlow).le, (not_le.mp hhigh).le⟩
      rwa [clamp_of_covers hcovers]

theorem clamp_mono (h : x ≤ y) : g.clamp x ≤ g.clamp y := by
  by_cases hlow : x ≤ g.point 0
  · rw [clamp_of_le hlow]
    exact (covers_clamp y).1
  · by_cases hhigh : g.point g.cells ≤ y
    · rw [clamp_of_ge hhigh]
      exact (covers_clamp x).2
    · have hx : g.Covers x := ⟨(not_le.mp hlow).le, h.trans (not_le.mp hhigh).le⟩
      have hy : g.Covers y := ⟨(not_le.mp hlow).le.trans h, (not_le.mp hhigh).le⟩
      rwa [clamp_of_covers hx, clamp_of_covers hy]

/-- What the search has found after `k` cells. -/
theorem search_spec (h0 : g.point 0 ≤ x) (k : ℕ) :
    (g.search x k < k ∨ g.search x k = 0) ∧ g.point (g.search x k) ≤ x ∧
      ∀ i, g.search x k < i → i < k → x < g.point i := by
  induction k with
  | zero => exact ⟨.inr rfl, h0, fun i _ hi => absurd hi (Nat.not_lt_zero i)⟩
  | succ k ih =>
    obtain ⟨hlt, hle, hrest⟩ := ih
    have hstep : g.search x (k + 1) = if g.point k ≤ x then k else g.search x k := by
      rw [search, List.range_succ, List.foldl_append]
      rfl
    by_cases hk : g.point k ≤ x
    · rw [hstep, if_pos hk]
      exact ⟨.inl (by omega), hk, fun i hi hik => absurd hi (by omega)⟩
    · rw [hstep, if_neg hk]
      refine ⟨hlt.imp_left (by omega), hle, fun i hi hik => ?_⟩
      obtain rfl | hik := eq_or_lt_of_le (Nat.lt_succ_iff.mp hik)
      · exact not_le.mp hk
      · exact hrest i hi hik

theorem cell_lt (h : g.point 0 ≤ x) : g.cell x < g.cells := by
  have hpos := g.cells_pos
  have hspec := (search_spec h g.cells).1
  change g.cell x < _ ∨ g.cell x = 0 at hspec
  omega

theorem point_cell_le (h : g.point 0 ≤ x) : g.point (g.cell x) ≤ x :=
  (search_spec h g.cells).2.1

theorem lt_point_of_cell_lt (h : g.point 0 ≤ x) (hi : g.cell x < i) (hcells : i < g.cells) :
    x < g.point i :=
  (search_spec h g.cells).2.2 i hi hcells

theorem le_point_cell_succ (h : g.Covers x) : x ≤ g.point (g.cell x + 1) := by
  have hlt := cell_lt h.1
  by_cases hlast : g.cell x + 1 < g.cells
  · exact (lt_point_of_cell_lt h.1 (Nat.lt_succ_self _) hlast).le
  · have hend : g.cell x + 1 = g.cells := by omega
    rw [hend]
    exact h.2

theorem cell_mono (h : g.Covers x) (hxy : x ≤ y) : g.cell x ≤ g.cell y := by
  by_contra hlt
  have hy : g.point 0 ≤ y := h.1.trans hxy
  have hbelow := lt_point_of_cell_lt hy (not_le.mp hlt) (cell_lt h.1)
  have hle := point_cell_le h.1
  exact absurd hbelow (not_lt.mpr (hle.trans hxy))

theorem covers_point (hk : k ≤ g.cells) : g.Covers (g.point k) :=
  ⟨point_mono (Nat.zero_le k) hk, point_mono hk le_rfl⟩

theorem cell_point (hk : k < g.cells) : g.cell (g.point k) = k := by
  have hcovers := covers_point hk.le
  have hlow : g.cell (g.point k) ≤ k := by
    by_contra hlt
    have hle := point_cell_le hcovers.1
    have hstep := g.increasing k hk
    have hmono := point_mono (i := k + 1) (not_le.mp hlt) (cell_lt hcovers.1).le
    exact absurd (hstep.trans_le hmono) (not_lt.mpr hle)
  have hhigh : k ≤ g.cell (g.point k) := by
    by_contra hlt
    exact lt_irrefl _ (lt_point_of_cell_lt hcovers.1 (not_le.mp hlt) hk)
  exact le_antisymm hlow hhigh

variable [Field K]

section
variable (g)

/-- The place of `x` in its cell. -/
def weight (x : K) : K :=
  (x - g.point (g.cell x)) / (g.point (g.cell x + 1) - g.point (g.cell x))

/-- Interpolation between the ends of the cell. -/
def onCell (v : ℕ → K) (x : K) : K := lerp (v (g.cell x)) (v (g.cell x + 1)) (g.weight x)

def interpolate (v : ℕ → K) (x : K) : K := g.onCell v (g.clamp x)

end

theorem interpolate_of_le (h : x ≤ g.point 0) :
    g.interpolate v x = g.interpolate v (g.point 0) := by
  rw [interpolate, interpolate, clamp_of_le h, clamp_of_le le_rfl]

theorem interpolate_of_ge (h : g.point g.cells ≤ x) :
    g.interpolate v x = g.interpolate v (g.point g.cells) := by
  rw [interpolate, interpolate, clamp_of_ge h, clamp_of_ge le_rfl]

variable {w : ℕ → K} [IsStrictOrderedRing K]

/-- Interpolation keeps the order of the ends. -/
theorem lerp_le_lerp {a b a' b' t : K} (ha : a ≤ a') (hb : b ≤ b') (h0 : 0 ≤ t) (h1 : t ≤ 1) :
    lerp a b t ≤ lerp a' b' t := by
  rw [lerp_eq, lerp_eq]
  exact add_le_add (mul_le_mul_of_nonneg_left ha (by linarith)) (mul_le_mul_of_nonneg_left hb h0)

theorem le_lerp {a b t lo : K} (ha : lo ≤ a) (hb : lo ≤ b) (h0 : 0 ≤ t) (h1 : t ≤ 1) :
    lo ≤ lerp a b t := by
  have hle := lerp_le_lerp ha hb h0 h1
  rwa [lerp_self] at hle

theorem lerp_le {a b t hi : K} (ha : a ≤ hi) (hb : b ≤ hi) (h0 : 0 ≤ t) (h1 : t ≤ 1) :
    lerp a b t ≤ hi := by
  have hle := lerp_le_lerp ha hb h0 h1
  rwa [lerp_self] at hle

theorem lerp_mono {a b t t' : K} (hab : a ≤ b) (h : t ≤ t') : lerp a b t ≤ lerp a b t' :=
  add_le_add_right (mul_le_mul_of_nonneg_left h (sub_nonneg.mpr hab)) a

/-- No division by zero. -/
theorem width_pos (h : g.point 0 ≤ x) : 0 < g.point (g.cell x + 1) - g.point (g.cell x) :=
  sub_pos.mpr (g.increasing _ (cell_lt h))

theorem weight_mem (h : g.Covers x) : 0 ≤ g.weight x ∧ g.weight x ≤ 1 := by
  have hwidth := width_pos h.1
  have hlow := point_cell_le h.1
  have hhigh := le_point_cell_succ h
  constructor
  · exact div_nonneg (by linarith) hwidth.le
  · rw [weight, div_le_one hwidth]
    linarith

/-- The value lies between those at the ends of the cell. -/
theorem le_interpolate {lo : K} (hlow : lo ≤ v (g.cell (g.clamp x)))
    (hhigh : lo ≤ v (g.cell (g.clamp x) + 1)) : lo ≤ g.interpolate v x :=
  have hweight := weight_mem (covers_clamp (g := g) x)
  le_lerp hlow hhigh hweight.1 hweight.2

theorem interpolate_le {hi : K} (hlow : v (g.cell (g.clamp x)) ≤ hi)
    (hhigh : v (g.cell (g.clamp x) + 1) ≤ hi) : g.interpolate v x ≤ hi :=
  have hweight := weight_mem (covers_clamp (g := g) x)
  lerp_le hlow hhigh hweight.1 hweight.2

/-- Larger values at the points give larger values between them. -/
theorem interpolate_le_interpolate (h : ∀ i ≤ g.cells, v i ≤ w i) :
    g.interpolate v x ≤ g.interpolate w x := by
  have hcovers := covers_clamp (g := g) x
  have hcell := cell_lt hcovers.1
  have hweight := weight_mem hcovers
  exact lerp_le_lerp (h _ hcell.le) (h _ hcell) hweight.1 hweight.2

theorem onCell_mono (hv : ∀ i < g.cells, v i ≤ v (i + 1)) (hx : g.Covers x) (hy : g.Covers y)
    (h : x ≤ y) : g.onCell v x ≤ g.onCell v y := by
  have hxcell := cell_lt hx.1
  have hycell := cell_lt hy.1
  obtain hsame | hless := eq_or_lt_of_le (cell_mono hx h)
  · have hweight : g.weight x ≤ g.weight y := by
      unfold weight
      rw [hsame]
      exact div_le_div_of_nonneg_right (by linarith) (width_pos hy.1).le
    unfold onCell
    rw [hsame]
    exact lerp_mono (hv _ hycell) hweight
  · have hwx := weight_mem hx
    have hwy := weight_mem hy
    have hbelow := lerp_le (hv _ hxcell) le_rfl hwx.1 hwx.2
    have habove := le_lerp le_rfl (hv _ hycell) hwy.1 hwy.2
    exact (hbelow.trans (value_mono hv hless hycell.le)).trans habove

/-- Interpolation of increasing values is increasing. -/
theorem interpolate_mono (hv : ∀ i < g.cells, v i ≤ v (i + 1)) (h : x ≤ y) :
    g.interpolate v x ≤ g.interpolate v y :=
  onCell_mono hv (covers_clamp x) (covers_clamp y) (clamp_mono h)

/-- At the points the values are those given. -/
theorem interpolate_point (hk : k ≤ g.cells) : g.interpolate v (g.point k) = v k := by
  have hcovers := covers_point hk
  rw [interpolate, clamp_of_covers hcovers]
  by_cases hlast : k < g.cells
  · rw [onCell, weight, cell_point hlast, sub_self, zero_div, lerp, mul_zero, add_zero]
  · have hend : k = g.cells := by omega
    have hcell : g.cell (g.point k) + 1 = k := by
      have hlt := cell_lt hcovers.1
      have hpos := g.cells_pos
      have hle := cell_mono (y := g.point k) (covers_point (Nat.sub_le g.cells 1))
        (point_mono (by omega) hk)
      rw [cell_point (by omega)] at hle
      omega
    have hwidth := width_pos hcovers.1
    rw [hcell] at hwidth
    rw [onCell, weight, hcell, div_self hwidth.ne', lerp]
    ring

end InterpolationGrid
