import Mathlib
import ModuleAtlas.Graph.Roles
import ModuleAtlas.Proofs.Layout.FixedPlaces
import ModuleAtlas.Proofs.Layout.Grid
import ModuleAtlas.Proofs.Layout.Room

/-!
# Separation in the outer zones

Utilities and files that stand alone go to the cells of two grids (`placedAt_cell`), whatever becomes
of the core. In one grid no two cells are too close (`apart_of_role_eq`), but the grid of the
utilities may run over the canvas until it comes to that of the other zone. `Clear` says that it does
not; then all is well (`apart_of_clear`), and otherwise some column comes too close
(`exists_column_close`).
-/

namespace ModuleAtlas

/-- The nodes with these numbers have places that are at least `m` apart. -/
def Graph.Apart (g : Graph ℝ) (m : ℝ) (u v : Nat) : Prop :=
  ∃ p q, g.PlacedAt u p ∧ g.PlacedAt v q ∧ m ≤ p.distance q

theorem Graph.PlacedAt.apart_iff {g : Graph ℝ} {m : ℝ} {u v : Nat} {p q : Position ℝ}
    (hu : g.PlacedAt u p) (hv : g.PlacedAt v q) : g.Apart m u v ↔ m ≤ p.distance q := by
  refine ⟨?_, fun h => ⟨p, q, hu, hv, h⟩⟩
  rintro ⟨p', q', hu', hv', hle⟩
  rwa [hu.unique hu', hv.unique hv']

theorem Graph.Apart.symm {g : Graph ℝ} {m : ℝ} {u v : Nat} (h : g.Apart m u v) : g.Apart m v u := by
  obtain ⟨p, q, hp, hq, hle⟩ := h
  exact ⟨q, p, hq, hp, Position.distance_comm p q ▸ hle⟩

namespace Zoned

variable {γ : Type} {g g' : Graph ℝ} {settings : LayoutSettings ℝ} {draw : γ → ℝ × γ} {s : γ}
  {role : Role} {u v : Nat}

/-- How many nodes a role has. -/
def count (g : Graph ℝ) (role : Role) : Nat := (members g role).length

/-- How many columns the grid for a role has. -/
noncomputable def side (g : Graph ℝ) (role : Role) : Nat := Zone.gridSide ℝ (count g role)

/-- Where a column of the grid for a role is. -/
noncomputable def column (g : Graph ℝ) (settings : LayoutSettings ℝ) (role : Role) (c : Nat) : ℝ :=
  (Zone.ofRole settings role).columnAt (count g role) settings.minSeparation c

/-- The distance of the columns for a role. -/
noncomputable def columnPitch (g : Graph ℝ) (settings : LayoutSettings ℝ) (role : Role) : ℝ :=
  (Zone.ofRole settings role).columnPitch (count g role) settings.minSeparation

/-- The distance of the rows for a role. -/
noncomputable def rowPitch (g : Graph ℝ) (settings : LayoutSettings ℝ) (role : Role) : ℝ :=
  (Zone.ofRole settings role).rowPitch (count g role) settings.minSeparation

/-- The cell for a node of a role, by its number among these. -/
noncomputable def cell (g : Graph ℝ) (settings : LayoutSettings ℝ) (role : Role) (k : Nat) :
    Position ℝ :=
  (Zone.ofRole settings role).cellAt (count g role) settings.minSeparation k

/-- Nodes of the outer zones are in the cells of their numbers. -/
theorem placedAt_cell (h : (layout? draw g settings s).1 = some g') (hrole : role ≠ .core) {k : Nat}
    (hv : (members g role)[k]? = some v) : g'.PlacedAt v (cell g settings role k) := by
  have hk : k < (members g role).length := (List.getElem?_eq_some_iff.1 hv).1
  have hgridded : (v, cell g settings role k) ∈ gridded g settings role := by
    refine List.mem_of_getElem? (List.getElem?_zip_eq_some.2 ⟨hv, ?_⟩)
    rw [Zone.gridCells_eq_map, List.getElem?_map, List.getElem?_range hk]
    rfl
  refine placedAt_of_mem_fixed h ?_
  rw [fixed, List.mem_append]
  cases role with
  | core => contradiction
  | utility => exact .inl hgridded
  | standalone => exact .inr hgridded

theorem exists_getElem?_members (h : g.HasRole role v) : ∃ k : Nat, (members g role)[k]? = some v :=
  List.mem_iff_getElem?.1 (mem_members.2 h)

/-- In one zone the grid sees to it. -/
theorem apart_of_role_eq (h : (layout? draw g settings s).1 = some g') (hrole : role ≠ .core)
    (hm : 0 ≤ settings.minSeparation) (hu : g.HasRole role u) (hv : g.HasRole role v)
    (hne : u ≠ v) : g'.Apart settings.minSeparation u v := by
  obtain ⟨k, hk⟩ := exists_getElem?_members hu
  obtain ⟨l, hl⟩ := exists_getElem?_members hv
  have hkl : k ≠ l := fun hkl => hne (Option.some.inj (hk.symm.trans (hkl ▸ hl)))
  rw [(placedAt_cell h hrole hk).apart_iff (placedAt_cell h hrole hl)]
  exact Zone.le_distance_of_ne hm hkl

/-- The last column of the utilities comes before the first one of the files that stand alone, and is
not too close to it. -/
def Clear (g : Graph ℝ) (settings : LayoutSettings ℝ) : Prop :=
  column g settings .utility (side g .utility - 1) + settings.minSeparation ≤
    column g settings .standalone 0

theorem apart_of_clear (h : (layout? draw g settings s).1 = some g')
    (hm : 0 ≤ settings.minSeparation) (hclear : Clear g settings) (hu : g.HasRole .utility u)
    (hv : g.HasRole .standalone v) : g'.Apart settings.minSeparation u v := by
  obtain ⟨k, hk⟩ := exists_getElem?_members hu
  obtain ⟨l, hl⟩ := exists_getElem?_members hv
  rw [(placedAt_cell h (by decide) hk).apart_iff (placedAt_cell h (by decide) hl)]
  have hlast : (cell g settings .utility k).x ≤ column g settings .utility (side g .utility - 1) :=
    Zone.columnAt_mono hm (Nat.le_pred_of_lt (Nat.mod_lt k (Zone.gridSide_pos _)))
  have hfirst : column g settings .standalone 0 ≤ (cell g settings .standalone l).x :=
    Zone.columnAt_mono hm (Nat.zero_le _)
  rw [Clear] at hclear
  calc settings.minSeparation
      ≤ (cell g settings .standalone l).x - (cell g settings .utility k).x := by linarith
    _ ≤ |(cell g settings .standalone l).x - (cell g settings .utility k).x| := le_abs_self _
    _ ≤ (cell g settings .standalone l).distance (cell g settings .utility k) :=
      Position.abs_sub_x_le_distance _ _
    _ = (cell g settings .utility k).distance (cell g settings .standalone l) :=
      Position.distance_comm _ _

/-! ### How wide they are -/

theorem utility_x (settings : LayoutSettings ℝ) : (Zone.ofRole settings .utility).x = 0 :=
  Nat.cast_zero

theorem outer_width (settings : LayoutSettings ℝ) (h : role ≠ .core) :
    (Zone.ofRole settings role).width = settings.canvasWidth / 5 := by
  have hside : settings.canvasWidth * (0.2 : ℝ) = settings.canvasWidth / 5 := by ring
  cases role with
  | core => contradiction
  | utility | standalone => exact hside

theorem standalone_x (settings : LayoutSettings ℝ) :
    (Zone.ofRole settings .standalone).x = settings.canvasWidth * 4 / 5 := by
  show settings.canvasWidth - settings.canvasWidth * (0.2 : ℝ) = _
  ring

theorem side_pos (g : Graph ℝ) (role : Role) : 0 < side g role := Zone.gridSide_pos _

theorem le_columnPitch (g : Graph ℝ) (settings : LayoutSettings ℝ) (role : Role) :
    settings.minSeparation ≤ columnPitch g settings role := Zone.le_columnPitch ..

theorem column_eq (g : Graph ℝ) (settings : LayoutSettings ℝ) (role : Role) (c : Nat) :
    column g settings role c =
      (Zone.ofRole settings role).x + columnPitch g settings role * (c + 1 / 2) :=
  Zone.columnAt_eq ..

theorem columnPitch_mul_side (g : Graph ℝ) (settings : LayoutSettings ℝ) (role : Role) :
    columnPitch g settings role * side g role =
      max (Zone.ofRole settings role).width (settings.minSeparation * side g role) :=
  Zone.columnPitch_mul_gridSide ..

theorem last_utility_column (g : Graph ℝ) (settings : LayoutSettings ℝ) :
    column g settings .utility (side g .utility - 1) =
      max (settings.canvasWidth / 5) (settings.minSeparation * side g .utility) -
        columnPitch g settings .utility / 2 := by
  have hutility : Role.utility ≠ .core := by decide
  rw [← outer_width settings hutility, ← columnPitch_mul_side, column_eq, utility_x,
    Nat.cast_pred (side_pos _ _)]
  ring

theorem le_first_standalone_column (g : Graph ℝ) (settings : LayoutSettings ℝ) :
    settings.canvasWidth * 4 / 5 + settings.minSeparation / 2 ≤ column g settings .standalone 0 := by
  rw [column_eq, standalone_x, Nat.cast_zero]
  linarith [le_columnPitch g settings .standalone]

/-- They are clear of each other if the utilities need no more than four fifths of the canvas. -/
theorem clear_of_mul_le (hw : 0 ≤ settings.canvasWidth)
    (h : settings.minSeparation * side g .utility ≤ settings.canvasWidth * 4 / 5) :
    Clear g settings := by
  have hwidth : max (settings.canvasWidth / 5) (settings.minSeparation * side g .utility) ≤
      settings.canvasWidth * 4 / 5 := max_le (by linarith) h
  rw [Clear, last_utility_column]
  linarith [le_first_standalone_column g settings, le_columnPitch g settings .utility]

/-- A grid that runs over the first column of the other one is as narrow as it can be. -/
theorem columnPitch_eq_of_lt (hw : 0 ≤ settings.canvasWidth) (hm : 0 < settings.minSeparation)
    (h : column g settings .standalone 0 < column g settings .utility (side g .utility - 1)) :
    columnPitch g settings .utility = settings.minSeparation := by
  have hside : (0 : ℝ) < side g .utility := Nat.cast_pos.2 (side_pos g .utility)
  have hwidth := columnPitch_mul_side g settings .utility
  rw [last_utility_column] at h
  rw [outer_width settings (by decide)] at hwidth
  rcases le_total (settings.minSeparation * side g .utility) (settings.canvasWidth / 5) with
    hfits | hover
  · rw [max_eq_left hfits] at h
    linarith [le_first_standalone_column g settings, le_columnPitch g settings .utility]
  · rw [max_eq_right hover] at hwidth
    exact mul_right_cancel₀ hside.ne' hwidth

/-- If they are not, then some column of the utilities is too close to the other grid: the last one,
or the one from which on they run over it. -/
theorem exists_column_close (hw : 0 ≤ settings.canvasWidth) (hm : 0 < settings.minSeparation)
    (h : ¬Clear g settings) : ∃ c < side g .utility,
      |column g settings .utility c - column g settings .standalone 0| < settings.minSeparation := by
  rw [Clear, not_le] at h
  rcases le_or_gt (column g settings .utility (side g .utility - 1))
    (column g settings .standalone 0) with hover | hover
  · refine ⟨side g .utility - 1, Nat.pred_lt (side_pos g .utility).ne', ?_⟩
    rw [abs_sub_comm, abs_of_nonneg (sub_nonneg.2 hover)]
    linarith
  · have hpitch := columnPitch_eq_of_lt hw hm hover
    have hstart : ¬column g settings .standalone 0 < column g settings .utility 0 := by
      rw [column_eq g settings .utility, hpitch, utility_x, Nat.cast_zero]
      linarith [le_first_standalone_column g settings]
    -- The columns start before the other grid and end behind its first column.
    obtain ⟨c, hle, hlt⟩ := Nat.exists_not_and_succ_of_not_zero_of_exists
      (p := fun c => column g settings .standalone 0 < column g settings .utility c) hstart
      ⟨side g .utility - 1, hover⟩
    have hstep : column g settings .utility (c + 1) =
        column g settings .utility c + columnPitch g settings .utility := Zone.columnAt_succ ..
    rw [not_lt] at hle
    refine ⟨c, lt_of_not_ge fun hc => ?_, ?_⟩
    · have hmono : column g settings .utility (side g .utility - 1) ≤ column g settings .utility c :=
        Zone.columnAt_mono hm.le ((Nat.sub_le _ _).trans hc)
      linarith
    · rw [abs_sub_comm, abs_of_nonneg (sub_nonneg.2 hle)]
      linarith

/-- The first rows of both grids are at the same height if their rows have the same. -/
theorem exists_not_apart (h : (layout? draw g settings s).1 = some g')
    (hw : 0 ≤ settings.canvasWidth) (hm : 0 < settings.minSeparation)
    (hutility : 0 < count g .utility) (hstandalone : 0 < count g .standalone)
    (hrows : rowPitch g settings .utility = rowPitch g settings .standalone)
    (hclear : ¬Clear g settings) : ∃ u v, g.HasRole .utility u ∧ g.HasRole .standalone v ∧
      ¬g'.Apart settings.minSeparation u v := by
  obtain ⟨c, hc, hclose⟩ := exists_column_close hw hm hclear
  obtain ⟨u, hu⟩ : ∃ u, (members g .utility)[c]? = some u :=
    ⟨_, List.getElem?_eq_getElem (hc.trans_le (Zone.gridSide_le hutility))⟩
  obtain ⟨v, hv⟩ : ∃ v, (members g .standalone)[0]? = some v :=
    ⟨_, List.getElem?_eq_getElem hstandalone⟩
  have hcell : cell g settings .utility c = ⟨column g settings .utility c, _⟩ := Zone.cellAt_of_lt hc
  have hcell' : cell g settings .standalone 0 = ⟨column g settings .standalone 0, _⟩ :=
    Zone.cellAt_of_lt (Zone.gridSide_pos _)
  have hrow : (cell g settings .utility c).y = (cell g settings .standalone 0).y := by
    rw [rowPitch, rowPitch] at hrows
    rw [hcell, hcell', Zone.rowAt, Zone.rowAt, hrows]
    rfl
  refine ⟨u, v, mem_members.1 (List.mem_of_getElem? hu), mem_members.1 (List.mem_of_getElem? hv), ?_⟩
  rw [(placedAt_cell h (by decide) hu).apart_iff (placedAt_cell h (by decide) hv), not_le,
    Position.distance_of_y_eq hrow, hcell, hcell']
  exact hclose

/-- Any two nodes outside the core are that far apart in the other graph. -/
def OuterApart (g g' : Graph ℝ) (m : ℝ) : Prop :=
  ∀ role role', role ≠ .core → role' ≠ .core → ∀ u v, u ≠ v → g.HasRole role u →
    g.HasRole role' v → g'.Apart m u v

theorem outerApart_of_clear (h : (layout? draw g settings s).1 = some g')
    (hm : 0 ≤ settings.minSeparation) (hclear : Clear g settings) :
    OuterApart g g' settings.minSeparation := by
  intro role role' hrole hrole' u v hne hu hv
  match role, role' with
  | .utility, .utility | .standalone, .standalone => exact apart_of_role_eq h hrole hm hu hv hne
  | .utility, .standalone => exact apart_of_clear h hm hclear hu hv
  | .standalone, .utility => exact (apart_of_clear h hm hclear hv hu).symm

/-- Every graph is placed, with nodes that have one role outside the core as far apart as they should
be. So are all nodes outside the core if the two grids are clear of each other, as they are unless
the utilities need more than four fifths of the canvas. If both grids have rows of one height, that
is the only way. -/
theorem outer_apart (g : Graph ℝ) (settings : LayoutSettings ℝ) (hw : 0 < settings.canvasWidth)
    (hm : 0 < settings.minSeparation) (draw : γ → ℝ × γ) (s : γ) :
    ∃ g', (layout? draw g settings s).1 = some g' ∧
      (∀ role, role ≠ .core → ∀ u v, u ≠ v → g.HasRole role u → g.HasRole role v →
        g'.Apart settings.minSeparation u v) ∧
      (Clear g settings → OuterApart g g' settings.minSeparation) ∧
      (settings.minSeparation * side g .utility ≤ settings.canvasWidth * 4 / 5 →
        Clear g settings) ∧
      (0 < count g .utility → 0 < count g .standalone →
        rowPitch g settings .utility = rowPitch g settings .standalone →
          (OuterApart g g' settings.minSeparation ↔ Clear g settings)) := by
  obtain ⟨g', h⟩ := exists_layout? (hasRoom_real settings) draw g s
  refine ⟨g', h, fun role hrole u v hne hu hv => apart_of_role_eq h hrole hm.le hu hv hne,
    outerApart_of_clear h hm.le, clear_of_mul_le hw.le, fun hutility hstandalone hrows => ?_⟩
  refine ⟨fun hapart => ?_, outerApart_of_clear h hm.le⟩
  by_contra hclear
  obtain ⟨u, v, hu, hv, hclose⟩ := exists_not_apart h hw.le hm hutility hstandalone hrows hclear
  have hne : u ≠ v := by
    rintro rfl
    exact absurd (role_eq_of_mem (mem_members.2 hu) (mem_members.2 hv)) (by decide)
  exact hclose (hapart .utility .standalone (by decide) (by decide) u v hne hu hv)

/-- A file with the names of those that it imports. -/
def fileNamed (name : String) (imports : List String) : SourceFile :=
  ⟨.ofString name, name, imports.map .ofString⟩

/-- Two utilities and a file that stands alone. -/
def outerTrio : Graph ℝ :=
  RoleRules.standard.classify
    (.ofFiles ⟨0, 0⟩ [fileNamed "util.ts" ["helper.ts"], fileNamed "helper.ts" [], fileNamed "a.ts" []])

theorem members_outerTrio :
    members outerTrio .utility = [0, 1] ∧ members outerTrio .standalone = [2] := by
  decide +kernel

/-- On the standard canvas there is space enough for all three. -/
theorem outer_apart_trio : ∃ g', (layout? (fun s : Unit => (0, s)) outerTrio .standard ()).1 =
    some g' ∧ (0 : ℝ) < LayoutSettings.standard.canvasWidth ∧
      (0 : ℝ) < LayoutSettings.standard.minSeparation ∧ g'.Apart 80 0 1 ∧ g'.Apart 80 1 2 := by
  have hw : (0 : ℝ) < LayoutSettings.standard.canvasWidth := by norm_num [LayoutSettings.standard]
  have hm : (0 : ℝ) < LayoutSettings.standard.minSeparation := by norm_num [LayoutSettings.standard]
  have hseparation : (LayoutSettings.standard.minSeparation : ℝ) = 80 := by
    norm_num [LayoutSettings.standard]
  have hcanvas : (LayoutSettings.standard.canvasWidth : ℝ) = 2000 := by
    norm_num [LayoutSettings.standard]
  obtain ⟨hutility, hstandalone⟩ := members_outerTrio
  have hzero : outerTrio.HasRole .utility 0 := mem_members.1 (by simp [hutility])
  have hone : outerTrio.HasRole .utility 1 := mem_members.1 (by simp [hutility])
  have htwo : outerTrio.HasRole .standalone 2 := mem_members.1 (by simp [hstandalone])
  obtain ⟨g', h, hsame, hclear, hmul, -⟩ :=
    outer_apart outerTrio .standard hw hm (fun s : Unit => (0, s)) ()
  have hcount : count outerTrio .utility = 2 := by rw [count, hutility]; rfl
  have hside : side outerTrio .utility ≤ 2 := by
    rw [side, hcount]
    exact Zone.gridSide_le two_pos
  have hclear := hclear <| hmul <| by
    rw [hseparation, hcanvas]
    have hside : (side outerTrio .utility : ℝ) ≤ 2 := by exact_mod_cast hside
    linarith
  refine ⟨g', h, hw, hm, ?_, ?_⟩
  · rw [← hseparation]
    exact hsame .utility (by decide) 0 1 (by decide) hzero hone
  · rw [← hseparation]
    exact hclear .utility .standalone (by decide) (by decide) 1 2 (by decide) hone htwo

/-- One utility and a file that stands alone. -/
def outerPair : Graph ℝ :=
  RoleRules.standard.classify (.ofFiles ⟨0, 0⟩ [fileNamed "util.ts" ["util.ts"], fileNamed "a.ts" []])

theorem members_outerPair :
    members outerPair .utility = [0] ∧ members outerPair .standalone = [1] := by
  decide +kernel

/-- A canvas that is not wider than the separation. -/
noncomputable def narrowCanvas : LayoutSettings ℝ :=
  { (LayoutSettings.standard : LayoutSettings ℝ) with canvasWidth := 80 }

theorem gridSide_one : Zone.gridSide ℝ 1 = 1 :=
  le_antisymm (Zone.gridSide_le one_pos) (Zone.gridSide_pos 1)

theorem canvasWidth_narrow : narrowCanvas.canvasWidth = 80 := rfl

theorem minSeparation_narrow : narrowCanvas.minSeparation = 80 := by
  norm_num [narrowCanvas, LayoutSettings.standard]

theorem count_outerPair {role : Role} (h : role ≠ .core) : count outerPair role = 1 := by
  obtain ⟨hutility, hstandalone⟩ := members_outerPair
  cases role with
  | core => contradiction
  | utility => rw [count, hutility]; rfl
  | standalone => rw [count, hstandalone]; rfl

/-- The columns are at 40 and at 104. -/
theorem not_clear_narrow : ¬Clear outerPair narrowCanvas := by
  have hside {role : Role} (h : role ≠ .core) : side outerPair role = 1 := by
    rw [side, count_outerPair h, gridSide_one]
  have hpitch {role : Role} (h : role ≠ .core) : columnPitch outerPair narrowCanvas role = 80 := by
    have hmul := columnPitch_mul_side outerPair narrowCanvas role
    rw [outer_width narrowCanvas h, hside h, canvasWidth_narrow, minSeparation_narrow] at hmul
    norm_num at hmul
    exact hmul
  rw [Clear, column_eq, column_eq, hside (by decide), hpitch (by decide), hpitch (by decide),
    utility_x, standalone_x, canvasWidth_narrow, minSeparation_narrow]
  norm_num

/-- On a narrow canvas the two are too close. -/
theorem outer_close_narrow : (0 : ℝ) < narrowCanvas.canvasWidth ∧
    (0 : ℝ) < narrowCanvas.canvasHeight ∧ (0 : ℝ) < narrowCanvas.minSeparation ∧
    outerPair.HasRole .utility 0 ∧ outerPair.HasRole .standalone 1 ∧
    ∃ g', (layout? (fun s : Unit => (0, s)) outerPair narrowCanvas ()).1 = some g' ∧
      ¬g'.Apart narrowCanvas.minSeparation 0 1 := by
  have hw : (0 : ℝ) < narrowCanvas.canvasWidth := by norm_num [canvasWidth_narrow]
  have hm : (0 : ℝ) < narrowCanvas.minSeparation := by norm_num [minSeparation_narrow]
  have hcount {role : Role} (h : role ≠ .core) : 0 < count outerPair role := by
    rw [count_outerPair h]
    exact one_pos
  have hrows : rowPitch outerPair narrowCanvas .utility =
      rowPitch outerPair narrowCanvas .standalone := by
    rw [rowPitch, rowPitch, count_outerPair (by decide), count_outerPair (by decide)]
    rfl
  obtain ⟨g', h⟩ := exists_layout? (hasRoom_real narrowCanvas) (fun s : Unit => (0, s)) outerPair ()
  obtain ⟨u, v, hu, hv, hclose⟩ := exists_not_apart h hw.le hm (hcount (by decide))
    (hcount (by decide)) hrows not_clear_narrow
  obtain rfl : u = 0 := by simpa [members_outerPair] using mem_members.2 hu
  obtain rfl : v = 1 := by simpa [members_outerPair] using mem_members.2 hv
  exact ⟨hw, by norm_num [narrowCanvas, LayoutSettings.standard], hm, hu, hv, g', h, hclose⟩

end Zoned

end ModuleAtlas
