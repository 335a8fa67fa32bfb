import Mathlib
import ModuleAtlas.Proofs.Layout.OuterZones
import ModuleAtlas.Proofs.Layout.Relaxed

/-!
# Separation in the core

A sweep that moves nothing leaves the core pushed apart (`Spacing.settled_of_settle`), by more than
nodes should be. What is more than that is lost when the core is put on a grid, for a point comes no
further than half the diagonal of a cell (`Spacing.distance_snap_le`), and there are two points at
the most that move (`Spacing.le_distance_of_farApart`). With exact arithmetic each node of the core is
then far enough from all other nodes (`Zoned.core_apart`).
-/

namespace ModuleAtlas

/-! ### Distances -/

namespace Position

variable {p q : Position ℝ}

theorem distance_eq_dist (p q : Position ℝ) : p.distance q = dist (⟨p.x, p.y⟩ : ℂ) ⟨q.x, q.y⟩ := by
  rw [distance_real, Complex.dist_eq_re_im]

theorem distance_self (p : Position ℝ) : p.distance p = 0 := by
  rw [distance_eq_dist, dist_self]

theorem distance_triangle (p q r : Position ℝ) : p.distance r ≤ p.distance q + q.distance r := by
  rw [distance_eq_dist, distance_eq_dist, distance_eq_dist]
  exact dist_triangle _ _ _

/-- Points of one square are no further apart than its corners. -/
theorem distance_le_of_abs_le {e : ℝ} (hx : |p.x - q.x| ≤ e) (hy : |p.y - q.y| ≤ e) :
    p.distance q ≤ e * √2 := by
  have he : 0 ≤ e := (abs_nonneg _).trans hx
  rw [distance_real, Real.sqrt_le_iff, mul_pow, Real.sq_sqrt zero_le_two]
  refine ⟨by positivity, ?_⟩
  have hx := sq_le_sq' (abs_le.1 hx).1 (abs_le.1 hx).2
  have hy := sq_le_sq' (abs_le.1 hy).1 (abs_le.1 hy).2
  linarith

end Position

/-! ### What the grid takes away -/

namespace Scalar

theorem abs_round_sub_le (a : ℝ) : |Scalar.round a - a| ≤ 1 / 2 := by
  show |(if 0 ≤ a then ((⌊a + 1 / 2⌋ : ℤ) : ℝ) else (⌈a - 1 / 2⌉ : ℤ)) - a| ≤ 1 / 2
  rw [abs_le]
  split
  · constructor
    · linarith [Int.lt_floor_add_one (a + 1 / 2)]
    · linarith [Int.floor_le (a + 1 / 2)]
  · constructor
    · linarith [Int.le_ceil (a - 1 / 2)]
    · linarith [Int.ceil_lt_add_one (a - 1 / 2)]

theorem abs_round_div_mul_sub_le {grid : ℝ} (hgrid : 0 < grid) (a : ℝ) :
    |Scalar.round (a / grid) * grid - a| ≤ grid / 2 := by
  calc |Scalar.round (a / grid) * grid - a|
      = |Scalar.round (a / grid) - a / grid| * grid := by
        rw [← abs_of_pos hgrid, ← abs_mul, abs_of_pos hgrid, sub_mul, div_mul_cancel₀ a hgrid.ne']
    _ ≤ 1 / 2 * grid := by gcongr; exact abs_round_sub_le _
    _ = grid / 2 := by ring

end Scalar

namespace Spacing

variable {m slack : ℝ} {p q p' q' : Position ℝ}

/-- A point that stays where it is loses nothing. -/
theorem distance_self_le (grid : ℝ) (p : Position ℝ) : 2 * p.distance p ≤ max grid 0 * √2 := by
  rw [Position.distance_self, mul_zero]
  positivity

/-- A point of the grid is no further than half the diagonal of a cell. -/
theorem distance_snap_le (grid : ℝ) (p : Position ℝ) :
    2 * (snap grid p).distance p ≤ max grid 0 * √2 := by
  rw [snap]
  split
  · exact distance_self_le grid p
  · next hgrid =>
    have hgrid : 0 < grid := by
      rw [← not_le, ← Nat.cast_zero]
      exact fun hle => hgrid (decide_eq_true hle)
    have hdistance := Position.distance_le_of_abs_le
      (p := ⟨Scalar.round (p.x / grid) * grid, Scalar.round (p.y / grid) * grid⟩)
      (Scalar.abs_round_div_mul_sub_le hgrid p.x) (Scalar.abs_round_div_mul_sub_le hgrid p.y)
    rw [max_eq_left hgrid.le]
    linarith

theorem farApart_iff {spacing : ℝ} :
    FarApart spacing p q ↔ spacing - 1e-9 ≤ p.distance q := decide_eq_true_iff

theorem FarApart.symm {spacing : ℝ} (h : FarApart spacing p q) : FarApart spacing q p := by
  rw [farApart_iff] at h ⊢
  rwa [Position.distance_comm]

/-- Two points that move by half the slack at the most lose no more than the slack. -/
theorem le_distance_of_farApart (hp : 2 * p'.distance p ≤ slack) (hq : 2 * q'.distance q ≤ slack)
    (h : FarApart (m + slack) p q) : m - 1e-9 ≤ p'.distance q' := by
  rw [farApart_iff] at h
  have hdistance : p.distance q ≤ p'.distance p + p'.distance q' + q'.distance q := by
    calc p.distance q ≤ p.distance p' + p'.distance q := Position.distance_triangle _ _ _
      _ ≤ p.distance p' + (p'.distance q' + q'.distance q) := by
        gcongr
        exact Position.distance_triangle _ _ _
      _ = p'.distance p + p'.distance q' + q'.distance q := by
        rw [Position.distance_comm p p', add_assoc]
  linarith

end Spacing

namespace Zoned

variable {γ : Type} {g g' : Graph ℝ} {settings : LayoutSettings ℝ} {draw : γ → ℝ × γ} {s : γ}
  {bodies : Array (Body ℝ)} {u v : Nat}

theorem spacing_real (settings : LayoutSettings ℝ) :
    spacing settings = settings.minSeparation + max settings.gridSize 0 * √2 := by
  show settings.minSeparation + max settings.gridSize ((0 : Nat) : ℝ) * √(2.0 : ℝ) = _
  norm_num

/-- The core of the graph has been pushed apart when the sweeps end. -/
def Settles (draw : γ → ℝ × γ) (g : Graph ℝ) (settings : LayoutSettings ℝ) (s : γ) : Prop :=
  ∃ bodies, relaxed? draw g settings s = some bodies ∧
    (pushedApart g settings bodies).moved = false

theorem settled_of_moved (h : (pushedApart g settings bodies).moved = false) :
    Spacing.Settled ((fixed g settings).map Prod.snd) (spacing settings)
      (pushedApart g settings bodies).points :=
  Spacing.settled_of_settle h

theorem farApart_core (hrelaxed : relaxed? draw g settings s = some bodies)
    (hmoved : (pushedApart g settings bodies).moved = false) {k l : Nat} (hkl : k ≠ l)
    (hk : k < (members g .core).length) (hl : l < (members g .core).length) :
    Spacing.FarApart (spacing settings) ((pushedApart g settings bodies).points.getD k .origin)
      ((pushedApart g settings bodies).points.getD l .origin) := by
  rw [← size_pushedApart hrelaxed] at hk hl
  rcases Nat.lt_or_gt_of_ne hkl with hlt | hgt
  · exact (settled_of_moved hmoved).pair hlt hl
  · exact ((settled_of_moved hmoved).pair hgt hk).symm

theorem exists_mem_fixed (settings : LayoutSettings ℝ) (hv : v < g.nodes.length)
    (h : ¬g.HasRole .core v) :
    ∃ p, (v, p) ∈ fixed g settings := by
  have hmem : v ∈ (fixed g settings).map Prod.fst := by
    refine mem_map_fst_fixed.2 ⟨g.nodes[v].role, fun hrole => h ?_, mem_members.2 ?_⟩
    · exact ⟨g.nodes[v], List.getElem?_eq_getElem hv, hrole⟩
    · exact ⟨g.nodes[v], List.getElem?_eq_getElem hv, rfl⟩
  obtain ⟨⟨_, p⟩, hp, rfl⟩ := List.mem_map.1 hmem
  exact ⟨p, hp⟩

/-- Every graph is placed, and if a sweep over its core has moved nothing, then each node of the core
is as far as it should be from every other node, in whatever zone that is. -/
theorem core_apart (g : Graph ℝ) (settings : LayoutSettings ℝ) (draw : γ → ℝ × γ) (s : γ)
    (hsettles : Settles draw g settings s) :
    ∃ g', (layout? draw g settings s).1 = some g' ∧
      ∀ u v, u ≠ v → g.HasRole .core u → v < g.nodes.length →
        g'.Apart (settings.minSeparation - 1e-9) u v := by
  obtain ⟨bodies, hrelaxed, hmoved⟩ := hsettles
  obtain ⟨g', h⟩ := exists_layout? (hasRoom_real settings) draw g s
  refine ⟨g', h, fun u v hne hu hv => ?_⟩
  obtain ⟨k, hk⟩ := exists_getElem?_members hu
  have hkcore : k < (members g .core).length := (List.getElem?_eq_some_iff.1 hk).1
  by_cases hcore : g.HasRole .core v
  · obtain ⟨l, hl⟩ := exists_getElem?_members hcore
    have hkl : k ≠ l := fun hkl => hne (Option.some.inj (hk.symm.trans (hkl ▸ hl)))
    have hfar := farApart_core hrelaxed hmoved hkl hkcore (List.getElem?_eq_some_iff.1 hl).1
    rw [spacing_real] at hfar
    rw [(placedAt_core h hrelaxed hk).apart_iff (placedAt_core h hrelaxed hl)]
    exact Spacing.le_distance_of_farApart (Spacing.distance_snap_le _ _)
      (Spacing.distance_snap_le _ _) hfar
  · obtain ⟨o, ho⟩ := exists_mem_fixed settings hv hcore
    rw [← size_pushedApart hrelaxed] at hkcore
    have hfar := (settled_of_moved hmoved k hkcore).obstacles o (List.mem_map_of_mem ho)
    rw [spacing_real] at hfar
    rw [(placedAt_core h hrelaxed hk).apart_iff (placedAt_of_mem_fixed h ho)]
    exact Spacing.le_distance_of_farApart (Spacing.distance_snap_le _ _)
      (Spacing.distance_self_le _ _) hfar

theorem farApart_of_le_abs {spacing : ℝ} {p q : Position ℝ} (h : spacing ≤ |p.x - q.x|) :
    Spacing.FarApart spacing p q := by
  rw [Spacing.farApart_iff]
  have hx := Position.abs_sub_x_le_distance p q
  linarith

/-- Two files of the core, and one that stands alone. -/
def coreTrio : Graph ℝ :=
  RoleRules.standard.classify
    (.ofFiles ⟨0, 0⟩ [fileNamed "a.ts" ["b.ts"], fileNamed "b.ts" [], fileNamed "c.ts" []])

theorem members_coreTrio : members coreTrio .core = [0, 1] ∧ members coreTrio .utility = [] ∧
    members coreTrio .standalone = [2] := by
  decide +kernel

/-- The core stays where it starts. -/
noncomputable def atRest : LayoutSettings ℝ :=
  { (LayoutSettings.standard : LayoutSettings ℝ) with iterations := 0 }

/-- The first point at the upper left, all others in the middle. -/
noncomputable def cornerFirst (s : Nat) : ℝ × Nat := (if s < 2 then 0 else 0.5, s + 1)

theorem relaxed?_coreTrio : relaxed? cornerFirst coreTrio atRest 0 =
    some #[.rest 520 120, .rest 1000 600] := by
  have hzone : Zone.ofRole atRest .core = ⟨400, 0, 1200, 1200⟩ := by
    norm_num [Zone.ofRole, atRest, LayoutSettings.standard, Scalar.ofNat_real]
  have hscatter : (scatter cornerFirst (Zone.ofRole atRest .core) 2 0).1 =
      [.rest 520 120, .rest 1000 600] := by
    norm_num [hzone, scatter, cornerFirst, Zone.center, Body.rest]
  rw [relaxed?, members_coreTrio.1]
  exact congrArg (some <| List.toArray ·) hscatter

theorem atRest_eq : atRest.minSeparation = 80 ∧ atRest.gridSize = 20 ∧
    atRest.canvasWidth = 2000 := by
  norm_num [atRest, LayoutSettings.standard]

theorem spacing_atRest_le : spacing atRest ≤ 110 := by
  have hsqrt : √(2 : ℝ) ≤ 3 / 2 := Real.sqrt_le_iff.2 (by norm_num)
  rw [spacing_real, atRest_eq.1, atRest_eq.2.1, max_eq_left (by norm_num)]
  linarith

theorem x_of_mem_fixed_coreTrio {o : Position ℝ} (ho : o ∈ (fixed coreTrio atRest).map Prod.snd) :
    o.x = 1800 := by
  have hcount : count coreTrio .standalone = 1 := by rw [count, members_coreTrio.2.2]; rfl
  have hside : side coreTrio .standalone = 1 := by rw [side, hcount, gridSide_one]
  have hpitch : columnPitch coreTrio atRest .standalone = 400 := by
    have hmul := columnPitch_mul_side coreTrio atRest .standalone
    rw [hside, outer_width atRest (by decide), atRest_eq.1, atRest_eq.2.2] at hmul
    norm_num at hmul
    exact hmul
  have hfixed : (fixed coreTrio atRest).map Prod.snd = [cell coreTrio atRest .standalone 0] := by
    rw [fixed, gridded, gridded, members_coreTrio.2.1, members_coreTrio.2.2, cell, hcount]
    rfl
  rw [hfixed, List.mem_singleton] at ho
  have hcell : cell coreTrio atRest .standalone 0 = ⟨column coreTrio atRest .standalone 0, _⟩ :=
    Zone.cellAt_of_lt (Zone.gridSide_pos _)
  rw [ho, hcell, column_eq, standalone_x, hpitch, atRest_eq.2.2]
  norm_num

theorem settled_coreTrio : Spacing.Settled ((fixed coreTrio atRest).map Prod.snd) (spacing atRest)
    #[⟨520, 120⟩, ⟨1000, 600⟩] := by
  intro i hi
  have hi : i < 2 := hi
  have hspacing := spacing_atRest_le
  constructor
  · intro j hj
    obtain rfl : i = 0 := by simp at hj; omega
    obtain rfl : j = 1 := by simpa using hj
    exact farApart_of_le_abs (by norm_num; linarith)
  · intro o ho
    refine farApart_of_le_abs ?_
    rw [x_of_mem_fixed_coreTrio ho]
    interval_cases i <;> norm_num <;> linarith

theorem settles_coreTrio : Settles cornerFirst coreTrio atRest 0 := by
  refine ⟨_, relaxed?_coreTrio, ?_⟩
  have hpoints : #[Body.rest 520 120, Body.rest 1000 600].map (·.position) =
      (#[⟨520, 120⟩, ⟨1000, 600⟩] : Array (Position ℝ)) := by
    simp [Body.rest, Body.position]
  have hsweeps : sweeps = 9999 + 1 := rfl
  rw [pushedApart, separated, hpoints, hsweeps, Spacing.settle_of_settled settled_coreTrio]

/-- All three are apart, as far as the grid lets them. -/
theorem core_apart_trio : Settles cornerFirst coreTrio atRest 0 ∧
    ∃ g', (layout? cornerFirst coreTrio atRest 0).1 = some g' ∧
      g'.Apart (80 - 1e-9) 0 1 ∧ g'.Apart (80 - 1e-9) 1 2 := by
  have hseparation : atRest.minSeparation = 80 := by norm_num [atRest, LayoutSettings.standard]
  obtain ⟨g', h, hapart⟩ := core_apart coreTrio atRest cornerFirst 0 settles_coreTrio
  rw [hseparation] at hapart
  have hzero : coreTrio.HasRole .core 0 := mem_members.1 (by simp [members_coreTrio])
  have hone : coreTrio.HasRole .core 1 := mem_members.1 (by simp [members_coreTrio])
  exact ⟨settles_coreTrio, g', h, hapart 0 1 (by decide) hzero (by decide +kernel),
    hapart 1 2 (by decide) hone (by decide +kernel)⟩

end Zoned

end ModuleAtlas
