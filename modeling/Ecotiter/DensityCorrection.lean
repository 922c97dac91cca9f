import Mathlib.Algebra.Order.Field.Rat
import Mathlib.Tactic.Positivity
import Ecotiter.Calibration
import Ecotiter.GridInterpolation

/-!
# The density correction

`getZFactor` interpolates between the entries of a table, which increase with the temperature and
with the pressure: first along the pressures, in the two rows around the temperature, then between
the rows.
-/

namespace Ecotiter
open InterpolationGrid

def temperatureGrid : InterpolationGrid ℚ where
  point i := zTemps.getD i 0
  cells := zTemps.length - 1
  cells_pos := by decide
  increasing := by decide +kernel

def pressureGrid : InterpolationGrid ℚ where
  point i := zPressures.getD i 0
  cells := zPressures.length - 1
  cells_pos := by decide
  increasing := by decide +kernel

theorem getZFactor_eq (temperature pressure : ℚ) :
    getZFactor temperature pressure = temperatureGrid.interpolate
      (fun i => pressureGrid.interpolate (zTable i) pressure) temperature := by
  unfold getZFactor
  rfl

theorem zTable_le {i j k l : ℕ}
    (h : (zTableUnits.getD i []).getD j 0 ≤ (zTableUnits.getD k []).getD l 0) :
    zTable i j ≤ zTable k l := by
  have hcast : (((zTableUnits.getD i []).getD j 0 : ℕ) : ℚ) ≤
      ((zTableUnits.getD k []).getD l 0 : ℕ) := Nat.cast_le.mpr h
  unfold zTable
  linarith

theorem zTable_rows : ∀ i < temperatureGrid.cells, ∀ j ≤ pressureGrid.cells,
    zTable i j ≤ zTable (i + 1) j := by
  have hunits : ∀ i < temperatureGrid.cells, ∀ j ≤ pressureGrid.cells,
      (zTableUnits.getD i []).getD j 0 ≤ (zTableUnits.getD (i + 1) []).getD j 0 := by decide +kernel
  intro i hi j hj
  exact zTable_le (hunits i hi j hj)

theorem zTable_columns : ∀ i ≤ temperatureGrid.cells, ∀ j < pressureGrid.cells,
    zTable i j ≤ zTable i (j + 1) := by
  have hunits : ∀ i ≤ temperatureGrid.cells, ∀ j < pressureGrid.cells,
      (zTableUnits.getD i []).getD j 0 ≤ (zTableUnits.getD i []).getD (j + 1) 0 := by decide +kernel
  intro i hi j hj
  exact zTable_le (hunits i hi j hj)

theorem one_le_zTable (t p : ℕ) : 1 ≤ zTable t p := by
  have hnonneg : (0 : ℚ) ≤ ((zTableUnits.getD t []).getD p 0 : ℕ) := Nat.cast_nonneg _
  unfold zTable
  linarith

theorem getZFactor_pos (temperature pressure : ℚ) : 0 < getZFactor temperature pressure := by
  have hrow : ∀ i, 1 ≤ pressureGrid.interpolate (zTable i) pressure := fun i =>
    le_interpolate (one_le_zTable i _) (one_le_zTable i _)
  rw [getZFactor_eq]
  exact zero_lt_one.trans_le (le_interpolate (hrow _) (hrow _))

/-- The row of the table below a temperature. -/
def zRow (temperature : ℚ) : ℕ := gridIndex zTemps (clampTo zTemps temperature)

/-- The column of the table below a pressure. -/
def zColumn (pressure : ℚ) : ℕ := gridIndex zPressures (clampTo zPressures pressure)

/-- The entries around the clamped value are in range and can be divided by. -/
structure CellFound (grid : List ℚ) (x : ℚ) (i : ℕ) : Prop where
  inRange : i + 1 < grid.length
  encloses : grid.getD i 0 ≤ clampTo grid x ∧ clampTo grid x ≤ grid.getD (i + 1) 0
  divisor : grid.getD (i + 1) 0 - grid.getD i 0 ≠ 0

/-- What an interpolation in the table satisfies. -/
structure InterpolatesTable (z : ℚ → ℚ → ℚ) : Prop where
  points : ∀ i < zTemps.length, ∀ j < zPressures.length,
    z (zTemps.getD i 0) (zPressures.getD j 0) = zTable i j
  atLeast : ∀ t p, min (min (zTable (zRow t) (zColumn p)) (zTable (zRow t) (zColumn p + 1)))
    (min (zTable (zRow t + 1) (zColumn p)) (zTable (zRow t + 1) (zColumn p + 1))) ≤ z t p
  atMost : ∀ t p, z t p ≤
    max (max (zTable (zRow t) (zColumn p)) (zTable (zRow t) (zColumn p + 1)))
      (max (zTable (zRow t + 1) (zColumn p)) (zTable (zRow t + 1) (zColumn p + 1)))
  cold : ∀ t p, t ≤ zTemps.getD 0 0 → z t p = z (zTemps.getD 0 0) p
  warm : ∀ t p, zTemps.getD (zTemps.length - 1) 0 ≤ t →
    z t p = z (zTemps.getD (zTemps.length - 1) 0) p
  thin : ∀ t p, p ≤ zPressures.getD 0 0 → z t p = z t (zPressures.getD 0 0)
  dense : ∀ t p, zPressures.getD (zPressures.length - 1) 0 ≤ p →
    z t p = z t (zPressures.getD (zPressures.length - 1) 0)
  temperature : ∀ t t' p, t ≤ t' → z t p ≤ z t' p
  pressure : ∀ t p p', p ≤ p' → z t p ≤ z t p'

theorem zRow_eq (t : ℚ) : zRow t = temperatureGrid.cell (temperatureGrid.clamp t) := rfl

theorem zColumn_eq (p : ℚ) : zColumn p = pressureGrid.cell (pressureGrid.clamp p) := rfl

theorem interpolatesTable_getZFactor : InterpolatesTable getZFactor where
  points i hi j hj := by
    have hrow : i ≤ temperatureGrid.cells := Nat.le_sub_one_of_lt hi
    have hcolumn : j ≤ pressureGrid.cells := Nat.le_sub_one_of_lt hj
    change getZFactor (temperatureGrid.point i) (pressureGrid.point j) = _
    rw [getZFactor_eq, interpolate_point hrow, interpolate_point hcolumn]
  atLeast t p := by
    rw [getZFactor_eq, zRow_eq, zColumn_eq]
    refine le_interpolate ?_ ?_
    · exact (min_le_left _ _).trans (le_interpolate (min_le_left _ _) (min_le_right _ _))
    · exact (min_le_right _ _).trans (le_interpolate (min_le_left _ _) (min_le_right _ _))
  atMost t p := by
    rw [getZFactor_eq, zRow_eq, zColumn_eq]
    refine interpolate_le ?_ ?_
    · exact (interpolate_le (le_max_left _ _) (le_max_right _ _)).trans (le_max_left _ _)
    · exact (interpolate_le (le_max_left _ _) (le_max_right _ _)).trans (le_max_right _ _)
  cold t p h := by
    rw [getZFactor_eq, getZFactor_eq]
    exact interpolate_of_le h
  warm t p h := by
    rw [getZFactor_eq, getZFactor_eq]
    exact interpolate_of_ge h
  thin t p h := by
    have hrow : ∀ i, pressureGrid.interpolate (zTable i) p =
        pressureGrid.interpolate (zTable i) (zPressures.getD 0 0) := fun i => interpolate_of_le h
    rw [getZFactor_eq, getZFactor_eq]
    simp only [hrow]
  dense t p h := by
    have hrow : ∀ i, pressureGrid.interpolate (zTable i) p =
        pressureGrid.interpolate (zTable i) (zPressures.getD (zPressures.length - 1) 0) :=
      fun i => interpolate_of_ge h
    rw [getZFactor_eq, getZFactor_eq]
    simp only [hrow]
  temperature t t' p h := by
    rw [getZFactor_eq, getZFactor_eq]
    refine interpolate_mono (fun i hi => ?_) h
    exact interpolate_le_interpolate (zTable_rows i hi)
  pressure t p p' h := by
    rw [getZFactor_eq, getZFactor_eq]
    refine interpolate_le_interpolate fun i hi => ?_
    exact interpolate_mono (zTable_columns i hi) h

theorem cellFound_temperature (t : ℚ) : CellFound zTemps t (zRow t) := by
  have hcovers := covers_clamp (g := temperatureGrid) t
  have hcell := cell_lt hcovers.1
  exact ⟨Nat.add_lt_of_lt_sub hcell, ⟨point_cell_le hcovers.1, le_point_cell_succ hcovers⟩,
    (width_pos hcovers.1).ne'⟩

theorem cellFound_pressure (p : ℚ) : CellFound zPressures p (zColumn p) := by
  have hcovers := covers_clamp (g := pressureGrid) p
  have hcell := cell_lt hcovers.1
  exact ⟨Nat.add_lt_of_lt_sub hcell, ⟨point_cell_le hcovers.1, le_point_cell_succ hcovers⟩,
    (width_pos hcovers.1).ne'⟩

/-- The table has an entry for every pair of grid values; `getZFactor` finds the cell around every
temperature and pressure, divides by its widths only, and interpolates. -/
theorem getZFactor_interpolates :
    (zTableUnits.length = zTemps.length ∧ ∀ row ∈ zTableUnits, row.length = zPressures.length) ∧
      (∀ t, CellFound zTemps t (zRow t)) ∧ (∀ p, CellFound zPressures p (zColumn p)) ∧
      InterpolatesTable getZFactor :=
  ⟨by decide +kernel, cellFound_temperature, cellFound_pressure, interpolatesTable_getZFactor⟩

end Ecotiter
