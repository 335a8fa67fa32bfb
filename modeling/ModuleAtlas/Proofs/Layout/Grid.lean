import Mathlib
import ModuleAtlas.Layout.Zones
import ModuleAtlas.Proofs.Layout.Reals

/-!
# Cells of a grid

Where the cells of a grid over a zone are, with exact arithmetic: in columns and rows that are at
least the demanded pitch apart (`gridCells_eq_map`), so that no two cells are closer
(`le_distance_of_ne`). The first row is full before another one begins, so all columns are in use
(`gridSide_le`). There are no more columns than it takes to have no more rows (`isLeast_gridSide`),
so the cells are in the zone if it has room for a square of that many (`gridCells_fill_square`).
-/

namespace ModuleAtlas

namespace Position

variable {p q : Position ℝ}

theorem distance_real (p q : Position ℝ) :
    p.distance q = Real.sqrt ((p.x - q.x) ^ 2 + (p.y - q.y) ^ 2) := by
  rw [pow_two, pow_two]
  rfl

theorem abs_sub_x_le_distance (p q : Position ℝ) : |p.x - q.x| ≤ p.distance q := by
  rw [distance_real]
  exact Real.abs_le_sqrt (le_add_of_nonneg_right (sq_nonneg _))

theorem abs_sub_y_le_distance (p q : Position ℝ) : |p.y - q.y| ≤ p.distance q := by
  rw [distance_real]
  exact Real.abs_le_sqrt (le_add_of_nonneg_left (sq_nonneg _))

theorem distance_comm (p q : Position ℝ) : p.distance q = q.distance p := by
  rw [distance_real, distance_real, sub_sq_comm p.x, sub_sq_comm p.y]

/-- In one row, only the columns count. -/
theorem distance_of_y_eq (h : p.y = q.y) : p.distance q = |p.x - q.x| := by
  rw [distance_real, h, sub_self, zero_pow two_ne_zero, add_zero, Real.sqrt_sq_eq_abs]

end Position

namespace Zone

variable {z : Zone ℝ} {count i j : Nat} {minPitch : ℝ}

theorem gridSide_real (count : Nat) : gridSide ℝ count = max ⌈Real.sqrt count⌉₊ 1 := rfl

theorem gridSide_pos (count : Nat) : 0 < gridSide ℝ count := by
  rw [gridSide_real]
  exact lt_max_of_lt_right Nat.one_pos

theorem gridSide_le (h : 0 < count) : gridSide ℝ count ≤ count := by
  rw [gridSide_real, max_le_iff, Nat.ceil_le, Real.sqrt_le_left (Nat.cast_nonneg count)]
  refine ⟨?_, h⟩
  exact_mod_cast Nat.le_self_pow two_ne_zero count

/-- The distance of the columns of a grid. -/
noncomputable def columnPitch (z : Zone ℝ) (count : Nat) (minPitch : ℝ) : ℝ :=
  max (z.width / gridSide ℝ count) minPitch

/-- The distance of the rows of a grid. -/
noncomputable def rowPitch (z : Zone ℝ) (count : Nat) (minPitch : ℝ) : ℝ :=
  max (z.height / gridSide ℝ count) minPitch

/-- Where a column is, by its number. -/
noncomputable def columnAt (z : Zone ℝ) (count : Nat) (minPitch : ℝ) (column : Nat) : ℝ :=
  z.x + z.columnPitch count minPitch * (column + 0.5)

/-- Where a row is, by its number. -/
noncomputable def rowAt (z : Zone ℝ) (count : Nat) (minPitch : ℝ) (row : Nat) : ℝ :=
  z.y + z.rowPitch count minPitch * (row + 0.5)

/-- The cell in the column and the row that a number stands for. -/
noncomputable def cellAt (z : Zone ℝ) (count : Nat) (minPitch : ℝ) (i : Nat) : Position ℝ :=
  ⟨z.columnAt count minPitch (i % gridSide ℝ count), z.rowAt count minPitch (i / gridSide ℝ count)⟩

theorem gridCells_eq_map (z : Zone ℝ) (count : Nat) (minPitch : ℝ) :
    z.gridCells count minPitch = (List.range count).map (z.cellAt count minPitch) := rfl

theorem columnAt_eq (z : Zone ℝ) (count : Nat) (minPitch : ℝ) (column : Nat) :
    z.columnAt count minPitch column =
      z.x + z.columnPitch count minPitch * (column + 1 / 2) := by
  have hhalf : (0.5 : ℝ) = 1 / 2 := by norm_num
  rw [columnAt, ← hhalf]

theorem le_columnPitch (z : Zone ℝ) (count : Nat) (minPitch : ℝ) :
    minPitch ≤ z.columnPitch count minPitch := le_max_right _ _

theorem le_rowPitch (z : Zone ℝ) (count : Nat) (minPitch : ℝ) :
    minPitch ≤ z.rowPitch count minPitch := le_max_right _ _

/-- A grid is as wide as its zone, or as wide as it needs to be. -/
theorem columnPitch_mul_gridSide (z : Zone ℝ) (count : Nat) (minPitch : ℝ) :
    z.columnPitch count minPitch * gridSide ℝ count = max z.width (minPitch * gridSide ℝ count) := by
  have hside : (0 : ℝ) < gridSide ℝ count := Nat.cast_pos.2 (gridSide_pos count)
  rw [columnPitch, max_mul_of_nonneg _ _ hside.le, div_mul_cancel₀ _ hside.ne']

theorem columnAt_succ (z : Zone ℝ) (count : Nat) (minPitch : ℝ) (i : Nat) :
    z.columnAt count minPitch (i + 1) =
      z.columnAt count minPitch i + z.columnPitch count minPitch := by
  rw [columnAt, columnAt, Nat.cast_succ]
  ring

theorem columnAt_mono (hpitch : 0 ≤ minPitch) (hij : i ≤ j) :
    z.columnAt count minPitch i ≤ z.columnAt count minPitch j := by
  have hpitch : 0 ≤ z.columnPitch count minPitch := hpitch.trans (le_columnPitch ..)
  rw [columnAt, columnAt]
  gcongr

theorem cellAt_of_lt (h : i < gridSide ℝ count) :
    z.cellAt count minPitch i = ⟨z.columnAt count minPitch i, z.rowAt count minPitch 0⟩ := by
  rw [cellAt, Nat.mod_eq_of_lt h, Nat.div_eq_of_lt h]

/-- Different multiples of a pitch are no closer than the pitch. -/
theorem le_abs_sub_of_ne {corner pitch offset m : ℝ} (hpitch : 0 ≤ pitch) (hm : m ≤ pitch)
    (hij : i ≠ j) : m ≤ |corner + pitch * (i + offset) - (corner + pitch * (j + offset))| := by
  have hone : (1 : ℝ) ≤ |(i : ℝ) - j| := by
    exact_mod_cast Int.one_le_abs (sub_ne_zero.2 (Nat.cast_injective.ne hij))
  calc m ≤ pitch * 1 := by rwa [mul_one]
    _ ≤ pitch * |(i : ℝ) - j| := by gcongr
    _ = |pitch * ((i : ℝ) - j)| := by rw [abs_mul, abs_of_nonneg hpitch]
    _ = |corner + pitch * (i + offset) - (corner + pitch * (j + offset))| := by
      congr 1
      ring

/-- Two cells differ in their column or in their row. -/
theorem le_distance_of_ne (hpitch : 0 ≤ minPitch) (hij : i ≠ j) :
    minPitch ≤ (z.cellAt count minPitch i).distance (z.cellAt count minPitch j) := by
  by_cases hcolumn : i % gridSide ℝ count = j % gridSide ℝ count
  · have hrow : i / gridSide ℝ count ≠ j / gridSide ℝ count := fun hrow => hij <| by
      rw [← Nat.div_add_mod i (gridSide ℝ count), hrow, hcolumn, Nat.div_add_mod]
    refine le_trans ?_ (Position.abs_sub_y_le_distance _ _)
    exact le_abs_sub_of_ne (hpitch.trans (le_rowPitch ..)) (le_rowPitch ..) hrow
  · refine le_trans ?_ (Position.abs_sub_x_le_distance _ _)
    exact le_abs_sub_of_ne (hpitch.trans (le_columnPitch ..)) (le_columnPitch ..) hcolumn

/-! ### How many columns there are -/

/-- The grid has as many columns as the least square with room for all cells. -/
theorem isLeast_gridSide (count : Nat) :
    IsLeast {side : ℕ | 1 ≤ side ∧ count ≤ side * side} (gridSide ℝ count) := by
  have hiff (side : ℕ) : √(count : ℝ) ≤ side ↔ count ≤ side * side := by
    rw [Real.sqrt_le_left (Nat.cast_nonneg side), pow_two]
    exact_mod_cast Iff.rfl
  refine ⟨⟨gridSide_pos count, (hiff _).1 ?_⟩, fun side ⟨hpos, hle⟩ => ?_⟩
  · rw [gridSide_real, Nat.cast_max]
    exact (Nat.le_ceil _).trans (le_max_left _ _)
  · rw [gridSide_real]
    exact max_le (Nat.ceil_le.2 ((hiff _).2 hle)) hpos

theorem mod_gridSide_lt (i count : Nat) : i % gridSide ℝ count < gridSide ℝ count :=
  Nat.mod_lt i (gridSide_pos count)

theorem div_gridSide_lt (h : i < count) : i / gridSide ℝ count < gridSide ℝ count :=
  Nat.div_lt_of_lt_mul (h.trans_le (isLeast_gridSide count).1.2)

theorem rowPitch_mul_gridSide (z : Zone ℝ) (count : Nat) (minPitch : ℝ) :
    z.rowPitch count minPitch * gridSide ℝ count = max z.height (minPitch * gridSide ℝ count) := by
  have hside : (0 : ℝ) < gridSide ℝ count := Nat.cast_pos.2 (gridSide_pos count)
  rw [rowPitch, max_mul_of_nonneg _ _ hside.le, div_mul_cancel₀ _ hside.ne']

/-! ### Where the cells are -/

section Places

variable {corner pitch extent : ℝ} {side n : ℕ} (hpitch : 0 ≤ pitch)
include hpitch

/-- No column is to the left of the corner of a zone, and no row is above it. -/
theorem le_place (n : ℕ) : corner ≤ corner + pitch * (n + 0.5) :=
  le_add_of_nonneg_right (by positivity)

/-- A column or a row is within the extent of a zone if as many pitches are as there may be. -/
theorem place_le (hn : n < side) (hextent : pitch * side ≤ extent) :
    corner + pitch * (n + 0.5) ≤ corner + extent := by
  have hhalf : (n : ℝ) + 0.5 ≤ side := by
    have hn : (n : ℝ) + 1 ≤ side := by exact_mod_cast hn
    linarith
  gcongr
  calc pitch * ((n : ℝ) + 0.5) ≤ pitch * side := by gcongr
    _ ≤ extent := hextent

end Places

theorem mem_gridCells {p : Position ℝ} :
    p ∈ z.gridCells count minPitch ↔ ∃ i < count, z.cellAt count minPitch i = p := by
  rw [gridCells_eq_map, List.mem_map]
  simp

theorem pairwise_gridCells (hpitch : 0 ≤ minPitch) :
    (z.gridCells count minPitch).Pairwise fun p q => minPitch ≤ p.distance q := by
  rw [gridCells_eq_map, List.pairwise_map]
  exact List.pairwise_lt_range.imp fun hij => le_distance_of_ne hpitch hij.ne

theorem contains_iff {p : Position ℝ} : z.contains p = true ↔
    z.x ≤ p.x ∧ p.x ≤ z.x + z.width ∧ z.y ≤ p.y ∧ p.y ≤ z.y + z.height := by
  show (decide (z.x ≤ p.x) && decide (p.x ≤ z.x + z.width) && decide (z.y ≤ p.y) &&
    decide (p.y ≤ z.y + z.height)) = true ↔ _
  simp only [Bool.and_eq_true, decide_eq_true_eq, and_assoc]

/-- The cells of a grid fill the least square with room for them row by row, in columns and rows whose
pitch is a fair share of the zone or the demanded one, whichever is greater. So every two cells are at
least the demanded pitch apart, and none lies to the left of the zone or above it. All lie in the zone
if it is at least as wide and as high as the square with the demanded pitch. -/
theorem gridCells_fill_square (z : Zone ℝ) (count : Nat) (hpitch : 0 ≤ minPitch) :
    ∃ side : ℕ, IsLeast {s : ℕ | 1 ≤ s ∧ count ≤ s * s} side ∧
      (z.gridCells count minPitch).length = count ∧
      (∀ i < count, (z.gridCells count minPitch)[i]? = some
        ⟨z.x + max (z.width / side) minPitch * ((i % side : ℕ) + 1 / 2),
          z.y + max (z.height / side) minPitch * ((i / side : ℕ) + 1 / 2)⟩) ∧
      ((z.gridCells count minPitch).Pairwise fun p q => minPitch ≤ p.distance q) ∧
      (∀ p ∈ z.gridCells count minPitch, z.x ≤ p.x ∧ z.y ≤ p.y) ∧
      (side * minPitch ≤ z.width → side * minPitch ≤ z.height →
        ∀ p ∈ z.gridCells count minPitch, z.contains p = true) := by
  have hcolumn : 0 ≤ z.columnPitch count minPitch := hpitch.trans (le_columnPitch ..)
  have hrow : 0 ≤ z.rowPitch count minPitch := hpitch.trans (le_rowPitch ..)
  refine ⟨gridSide ℝ count, isLeast_gridSide count, by simp [gridCells_eq_map], fun i hi => ?_,
    pairwise_gridCells hpitch, fun p hp => ?_, fun hwidth hheight p hp => ?_⟩
  · have hhalf : (0.5 : ℝ) = 1 / 2 := by norm_num
    rw [gridCells_eq_map, List.getElem?_map, List.getElem?_range hi, ← hhalf]
    rfl
  · obtain ⟨i, -, rfl⟩ := mem_gridCells.1 hp
    exact ⟨le_place hcolumn _, le_place hrow _⟩
  · obtain ⟨i, hi, rfl⟩ := mem_gridCells.1 hp
    rw [mul_comm] at hwidth hheight
    have hcolumns := (z.columnPitch_mul_gridSide count minPitch).trans_le (max_le le_rfl hwidth)
    have hrows := (z.rowPitch_mul_gridSide count minPitch).trans_le (max_le le_rfl hheight)
    exact contains_iff.2 ⟨le_place hcolumn _, place_le hcolumn (mod_gridSide_lt i count) hcolumns,
      le_place hrow _, place_le hrow (div_gridSide_lt hi) hrows⟩

/-- Of five cells the fourth is the first one of the second row, and all are in the zone. -/
theorem gridCells_fill_square_five : (0 : ℝ) ≤ 10 ∧
    (Zone.gridCells ⟨0, 0, 300, 300⟩ 5 (10 : ℝ)).length = 5 ∧
    (Zone.gridCells ⟨0, 0, 300, 300⟩ 5 (10 : ℝ))[3]? = some ⟨50, 150⟩ ∧
    ∀ p ∈ Zone.gridCells ⟨0, 0, 300, 300⟩ 5 (10 : ℝ), Zone.contains ⟨0, 0, 300, 300⟩ p = true := by
  have hpitch : (0 : ℝ) ≤ 10 := by norm_num
  obtain ⟨side, hside, hlength, hcells, -, -, hwithin⟩ :=
    gridCells_fill_square ⟨0, 0, 300, 300⟩ 5 hpitch
  obtain rfl : side = 3 := by
    have hle : side ≤ 3 := hside.2 (by decide)
    have hsquare : 5 ≤ side * side := hside.1.2
    interval_cases side <;> simp_all
  refine ⟨hpitch, hlength, ?_, hwithin (by norm_num) (by norm_num)⟩
  rw [hcells 3 (by decide)]
  norm_num

end Zone

end ModuleAtlas
