import Mathlib
import ModuleAtlas.Proofs.Layout.LeastPlacement

/-!
# How large a layered graph is

A layered graph is no wider than all of its nodes side by side in one row, and no higher than all of
them one below the other (`layered_extent`), although nodes are pushed to the right in each row, and
their places are what the nodes above are drawn after.

The width is by induction on the rows, from the lowest one up (`within_of_below`). Put side by side
behind the width of all nodes below, in the order of their wishes, the nodes of a row would respect
their wishes (`respects_behind`), so the least places that do so are not further to the right. It is to
be seen that a wish leads no further than that (`wish_le`):

* a node with lower successors wants to be within the width of the nodes below;
* a node without any wants to be in its slot. Either a node with lower successors comes behind it in the
  order of wishes, so that its own wish is within that width too, or all nodes of lower slots come
  before it (`slotOf_le`).
-/

namespace ModuleAtlas.Layered

variable {g : Graph ℝ} {settings : LayoutSettings ℝ} {rank u v w : Nat}
  {order before after : List Nat} {b : ℝ}

/-- How many nodes have at least that rank. -/
def countFrom (g : Graph ℝ) (rank : Nat) : Nat :=
  (List.range g.nodes.length).countP fun v => rank ≤ rankOf g.successors v

/-- The node stands within the width of all nodes that are not above it, side by side. -/
def Within (g : Graph ℝ) (settings : LayoutSettings ℝ) (v : Nat) : Prop :=
  0 ≤ xOf (layout g settings) v ∧ xOf (layout g settings) v + pitch settings ≤
    countFrom g (rankOf g.successors v) * pitch settings

/-! ### Counting nodes -/

theorem countFrom_le (g : Graph ℝ) (rank : Nat) : countFrom g rank ≤ g.nodes.length := by
  refine List.countP_le_length.trans_eq ?_
  rw [List.length_range]

theorem countFrom_anti {rank' : Nat} (h : rank ≤ rank') : countFrom g rank' ≤ countFrom g rank := by
  refine List.countP_mono_left fun v _ hv => ?_
  simp only [decide_eq_true_eq] at hv ⊢
  omega

theorem countFrom_eq (g : Graph ℝ) (rank : Nat) : countFrom g rank =
    ((List.range g.nodes.length).filter fun v => rankOf g.successors v = rank).length +
      countFrom g (rank + 1) := by
  rw [countFrom, countFrom, ← List.countP_eq_length_filter]
  induction List.range g.nodes.length with
  | nil => rfl
  | cons v vs ih =>
    simp only [List.countP_cons, ih, decide_eq_true_eq]
    split_ifs <;> omega

namespace RowOrder

theorem nodup (h : RowOrder g settings rank order) : order.Nodup := by
  refine h.sorted.imp fun {u v} huv => ?_
  rintro rfl
  simp at huv

theorem length_add (h : RowOrder g settings rank order) :
    order.length + countFrom g (rank + 1) = countFrom g rank := by
  have hperm : order.Perm
      ((List.range g.nodes.length).filter fun v => rankOf g.successors v = rank) := by
    refine (List.perm_ext_iff_of_nodup h.nodup (List.nodup_range.filter _)).2 fun v => ?_
    rw [h.mem_iff]
    simp
  rw [countFrom_eq g rank, hperm.length_eq]

end RowOrder

/-! ### Wishes -/

theorem mem_lower : w ∈ lower g v ↔
    g.Links v w ∧ rankOf g.successors v < rankOf g.successors w := by
  rw [lower, List.mem_filter, decide_eq_true_iff, ← Graph.arc_successors]
  rfl

theorem lt_length_of_mem_lower (h : w ∈ lower g v) : w < g.nodes.length :=
  (mem_lower.1 h).1.lt_length.2

theorem wish_of_lower_eq_nil (h : lower g v = []) :
    wish g settings v = slotOf g v * pitch settings := if_pos h

/-- A mean is not greater than what none of the numbers is greater than. -/
theorem wish_le_of_lower_ne_nil (hne : lower g v ≠ [])
    (h : ∀ w ∈ lower g v, xOf (layout g settings) w ≤ b) : wish g settings v ≤ b := by
  have hlength : (0 : ℝ) < (lower g v).length := by
    exact_mod_cast List.length_pos_of_ne_nil hne
  have hsum := List.sum_le_card_nsmul ((lower g v).map (xOf (layout g settings))) b
    (List.forall_mem_map.2 h)
  rw [List.length_map, nsmul_eq_mul] at hsum
  rw [wish, if_neg hne, div_le_iff₀ hlength]
  linarith

section Row

variable (hpitch : 0 ≤ pitch settings)
include hpitch

theorem wish_nonneg (h : ∀ w ∈ lower g v, 0 ≤ xOf (layout g settings) w) :
    0 ≤ wish g settings v := by
  rw [wish]
  split
  · positivity
  · exact div_nonneg (List.sum_nonneg (List.forall_mem_map.2 h)) (Nat.cast_nonneg _)

/-- Of two nodes without lower successors, the lower one wants to be further to the left. -/
theorem wish_le_of_lt (huv : u < v) (hrank : rankOf g.successors u = rankOf g.successors v)
    (hu : lower g u = []) (hv : lower g v = []) : wish g settings u ≤ wish g settings v := by
  have hslot : slotOf g u ≤ slotOf g v := by
    rw [slotOf, slotOf, hrank]
    exact (List.range_sublist.2 huv.le).countP_le
  rw [wish_of_lower_eq_nil hu, wish_of_lower_eq_nil hv]
  gcongr

/-- If neither a node nor any behind it has lower successors, all nodes of lower slots come before
it. -/
theorem slotOf_le (horder : RowOrder g settings rank (before ++ v :: after))
    (hnone : ∀ u ∈ v :: after, lower g u = []) : slotOf g v ≤ before.length := by
  obtain ⟨hv, hrank⟩ := (horder.mem_iff v).1 (by simp)
  have hsubset : ((List.range v).filter fun u => rankOf g.successors u = rankOf g.successors v) ⊆
      before := by
    intro u hu
    obtain ⟨huv, hurank⟩ : u < v ∧ rankOf g.successors u = rankOf g.successors v := by
      simpa using hu
    have hmem := (horder.mem_iff u).2 ⟨huv.trans hv, hurank.trans hrank⟩
    rcases List.mem_append.1 hmem with hbefore | hmem
    · exact hbefore
    · rcases List.mem_cons.1 hmem with rfl | hafter
      · exact absurd huv (lt_irrefl u)
      · have hle := wish_le_of_lt hpitch huv hurank (hnone u hmem) (hnone v List.mem_cons_self)
        have hlt := (List.pairwise_cons.1 (List.pairwise_append.1 horder.sorted).2.1).1 u hafter
        rcases hlt with hlt | ⟨-, hlt⟩
        · exact absurd hle (not_le_of_gt hlt)
        · omega
  rw [slotOf, List.countP_eq_length_filter]
  exact (List.subperm_of_subset (List.nodup_range.filter _) hsubset).length_le

variable (hbelow : ∀ w < g.nodes.length, rank < rankOf g.successors w → Within g settings w)
include hbelow

omit hpitch in
theorem nonneg_of_mem_lower (hrank : rankOf g.successors v = rank) (hw : w ∈ lower g v) :
    0 ≤ xOf (layout g settings) w :=
  (hbelow w (lt_length_of_mem_lower hw) (hrank ▸ (mem_lower.1 hw).2)).1

theorem xOf_le_of_mem_lower (hrank : rankOf g.successors v = rank) (hw : w ∈ lower g v) :
    xOf (layout g settings) w ≤ countFrom g (rank + 1) * pitch settings := by
  have hlt : rank < rankOf g.successors w := hrank ▸ (mem_lower.1 hw).2
  have hwithin := (hbelow w (lt_length_of_mem_lower hw) hlt).2
  have hcount : (countFrom g (rankOf g.successors w) : ℝ) ≤ countFrom g (rank + 1) := by
    exact_mod_cast countFrom_anti hlt
  have hmul := mul_le_mul_of_nonneg_right hcount hpitch
  linarith

theorem wish_le (horder : RowOrder g settings rank (before ++ v :: after)) : wish g settings v ≤
    (countFrom g (rank + 1) + before.length) * pitch settings := by
  have hbefore : (0 : ℝ) ≤ before.length * pitch settings := by positivity
  by_cases hparent : ∃ u ∈ v :: after, lower g u ≠ []
  · obtain ⟨u, hu, hne⟩ := hparent
    have hrank := ((horder.mem_iff u).1 (List.mem_append_right before hu)).2
    have hle : wish g settings v ≤ wish g settings u := by
      rcases List.mem_cons.1 hu with rfl | hu
      · exact le_refl _
      · have hlt := (List.pairwise_cons.1 (List.pairwise_append.1 horder.sorted).2.1).1 u hu
        rcases hlt with hlt | ⟨heq, -⟩
        · exact hlt.le
        · exact heq.le
    have hmean := wish_le_of_lower_ne_nil hne fun w hw =>
      xOf_le_of_mem_lower hpitch hbelow hrank hw
    linarith
  · have hnone : ∀ u ∈ v :: after, lower g u = [] := by simpa using hparent
    have hslot : (slotOf g v : ℝ) ≤ before.length := by
      exact_mod_cast slotOf_le hpitch horder hnone
    have hmul := mul_le_mul_of_nonneg_right hslot hpitch
    have hcount : (0 : ℝ) ≤ countFrom g (rank + 1) * pitch settings := by positivity
    rw [wish_of_lower_eq_nil (hnone v List.mem_cons_self)]
    linarith

/-! ### Rows within the width -/

/-- Side by side behind the width of the nodes below, the nodes would respect their wishes. -/
theorem respects_behind (horder : RowOrder g settings rank order) :
    Respects (pitch settings) (wish g settings)
      (fun v => (countFrom g (rank + 1) + order.idxOf v) * pitch settings) order where
  want_le v hv := by
    obtain ⟨before, after, rfl⟩ := List.append_of_mem hv
    have hnot : v ∉ before := fun hmem =>
      (List.nodup_append.1 horder.nodup).2.2 v hmem v List.mem_cons_self rfl
    rw [List.idxOf_append_of_notMem hnot, List.idxOf_cons_self, Nat.add_zero]
    exact wish_le hpitch hbelow horder
  apart := by
    refine List.isChain_iff_getElem.2 fun i hi => ?_
    rw [horder.nodup.idxOf_getElem, horder.nodup.idxOf_getElem]
    push_cast
    linarith

theorem within_of_below (hv : v < g.nodes.length) (hrank : rankOf g.successors v = rank) :
    Within g settings v := by
  obtain ⟨order, horder, hstacked⟩ := exists_stacked g settings rank
  have hmem := (horder.mem_iff v).2 ⟨hv, hrank⟩
  constructor
  · have hnonneg := wish_nonneg hpitch fun w hw => nonneg_of_mem_lower hbelow hrank hw
    exact hnonneg.trans (hstacked.want_le v hmem)
  · have hle := hstacked.isLeastPlacement.least _ (respects_behind hpitch hbelow horder) v hmem
    have hidx : ((order.idxOf v : ℕ) : ℝ) + 1 ≤ order.length := by
      exact_mod_cast List.idxOf_lt_length_iff.2 hmem
    have hcount : (countFrom g rank : ℝ) = order.length + countFrom g (rank + 1) := by
      exact_mod_cast horder.length_add.symm
    have hmul := mul_le_mul_of_nonneg_right hidx hpitch
    rw [hrank, hcount]
    linarith

end Row

/-- By induction on how far the row is above the deepest one. -/
theorem within (hpitch : 0 ≤ pitch settings) (hv : v < g.nodes.length) : Within g settings v := by
  induction h : deepest g.successors - rankOf g.successors v using Nat.strongRecOn
    generalizing v with
  | ind k ih =>
    refine within_of_below hpitch (fun w hw hlt => ?_) hv rfl
    have hle : rankOf g.successors w ≤ deepest g.successors :=
      rankOf_le_deepest (by rwa [Graph.size_successors])
    exact ih _ (by omega) hw rfl

theorem rankOf_succ_le (hv : v < g.nodes.length) : rankOf g.successors v + 1 ≤ g.nodes.length := by
  rw [← Graph.size_successors] at hv ⊢
  exact (rankOf_le_deepest hv).trans_lt (deepest_lt (Nat.zero_lt_of_lt hv))

/-- In a layered graph all nodes are in a rectangle whose width is that of all of them side by side in
one row, and whose height is that of all of them in rows of their own. -/
theorem layered_extent (g : Graph ℝ) (settings : LayoutSettings ℝ)
    (hpitch : 0 ≤ settings.nodeWidth + settings.nodeSeparation)
    (hheight : 0 ≤ settings.nodeHeight + settings.rankSeparation) :
    (layout g settings).nodes.length = g.nodes.length ∧ ∀ n ∈ (layout g settings).nodes,
      (0 ≤ n.position.x ∧
        n.position.x ≤ (g.nodes.length - 1) * (settings.nodeWidth + settings.nodeSeparation)) ∧
      0 ≤ n.position.y ∧
        n.position.y ≤ (g.nodes.length - 1) * (settings.nodeHeight + settings.rankSeparation) := by
  have hlength : (layout g settings).nodes.length = g.nodes.length := by
    simp [layout, Graph.placeAt, Graph.annotate]
  refine ⟨hlength, fun n hn => ?_⟩
  obtain ⟨v, hn⟩ := List.mem_iff_getElem?.1 hn
  have hv : v < g.nodes.length := hlength ▸ (List.getElem?_eq_some_iff.1 hn).1
  constructor
  · have hx : xOf (layout g settings) v = n.position.x := by rw [xOf, hn]; rfl
    have hcount : (countFrom g (rankOf g.successors v) : ℝ) ≤ g.nodes.length := by
      exact_mod_cast countFrom_le g _
    have hwithin : Within g settings v := within hpitch hv
    obtain ⟨hnonneg, hle⟩ := hwithin
    have hmul := mul_le_mul_of_nonneg_right hcount hpitch
    rw [hx, pitch] at hle
    exact ⟨hx ▸ hnonneg, by linarith⟩
  · have hy : n.position.y =
        rankOf g.successors v * (settings.nodeHeight + settings.rankSeparation) := by
      rw [Graph.PlacedAt.unique ⟨n, hn, rfl⟩ (placedAt_layout hv)]
      rfl
    have hrank : (rankOf g.successors v : ℝ) ≤ g.nodes.length - 1 := by
      rw [le_sub_iff_add_le]
      exact_mod_cast rankOf_succ_le hv
    rw [hy]
    exact ⟨by positivity, mul_le_mul_of_nonneg_right hrank hheight⟩

/-- The four nodes of the tangle are on an area of 720 by 372. -/
theorem layered_extent_tangle :
    (0 : ℝ) ≤ LayoutSettings.standard.nodeWidth + LayoutSettings.standard.nodeSeparation ∧
    (0 : ℝ) ≤ LayoutSettings.standard.nodeHeight + LayoutSettings.standard.rankSeparation ∧
    (layout tangle .standard).nodes.length = 4 ∧ ∀ n ∈ (layout tangle .standard).nodes,
      (0 ≤ n.position.x ∧ n.position.x ≤ 720) ∧ 0 ≤ n.position.y ∧ n.position.y ≤ 372 := by
  have hpitch : (LayoutSettings.standard.nodeWidth + LayoutSettings.standard.nodeSeparation : ℝ) =
      240 := by norm_num [LayoutSettings.standard]
  have hheight : (LayoutSettings.standard.nodeHeight + LayoutSettings.standard.rankSeparation : ℝ) =
      124 := by norm_num [LayoutSettings.standard]
  have hfour : tangle.nodes.length = 4 := by
    rw [← Graph.size_successors, successors_tangle]
    rfl
  obtain ⟨hlength, hextent⟩ := layered_extent tangle .standard (by rw [hpitch]; norm_num)
    (by rw [hheight]; norm_num)
  rw [hpitch, hheight, hfour] at hextent
  norm_num at hextent
  exact ⟨by rw [hpitch]; norm_num, by rw [hheight]; norm_num, hlength.trans hfour, hextent⟩

end ModuleAtlas.Layered
