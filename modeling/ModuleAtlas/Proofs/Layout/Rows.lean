import Mathlib
import ModuleAtlas.Layout.Layered
import ModuleAtlas.Proofs.Layout.Kept
import ModuleAtlas.Proofs.Layout.Reals

/-!
# Which edges point down

The row of a node is its rank (`exists_node_layout`), and with rows of positive height a node stands
above another one if it has the lower rank (`standsAbove_iff`). On a circuit not all edges can point
down; `edge_down_iff` says which of the others do.
-/

namespace ModuleAtlas.Layered

open Relation

theorem exists_node_layout {α : Type} [Scalar α] {g : Graph α} (settings : LayoutSettings α)
    {v : Nat} (hv : v < g.nodes.length) : ∃ n, (layout g settings).nodes[v]? = some n ∧
      n.position.y = Scalar.ofNat (rankOf g.successors v) * rowHeight settings := by
  have hr : v < (inferRanks g.successors).size := by
    rwa [size_inferRanks, Graph.size_successors]
  simp [layout, Graph.placeAt, Graph.annotate, hv, positions, hr, rankOf]

variable {g : Graph ℝ} {u v : Nat}

/-- The first node stands above the second one. -/
def StandsAbove (g : Graph ℝ) (settings : LayoutSettings ℝ) (u v : Nat) : Prop :=
  ∃ a b, (layout g settings).nodes[u]? = some a ∧ (layout g settings).nodes[v]? = some b ∧
    a.position.y < b.position.y

theorem standsAbove_iff {settings : LayoutSettings ℝ} (hu : u < g.nodes.length)
    (hv : v < g.nodes.length) (hpos : 0 < settings.nodeHeight + settings.rankSeparation) :
    StandsAbove g settings u v ↔ rankOf g.successors u < rankOf g.successors v := by
  obtain ⟨a, ha, hya⟩ := exists_node_layout settings hu
  obtain ⟨b, hb, hyb⟩ := exists_node_layout settings hv
  have hlt : a.position.y < b.position.y ↔ rankOf g.successors u < rankOf g.successors v := by
    rw [hya, hyb, Scalar.ofNat_real, Scalar.ofNat_real]
    exact (mul_lt_mul_iff_left₀ hpos).trans Nat.cast_lt
  rw [← hlt, StandsAbove]
  constructor
  · rintro ⟨a', b', ha', hb', hy⟩
    rw [ha, Option.some.injEq] at ha'
    rw [hb, Option.some.injEq] at hb'
    rwa [ha', hb']
  · exact fun hy => ⟨a, b, ha, hb, hy⟩

/-- An edge on no circuit leads to a higher rank if and only if there is a walk of kept edges to its
target that is longer than all such walks to its source. So it does unless the source is held by
nodes that are all higher than the target. It points down if and only if it leads to a higher
rank. -/
theorem edge_down_iff (g : Graph ℝ) (settings : LayoutSettings ℝ) {u v : Nat} (huv : g.Links u v)
    (hback : ¬ ReflTransGen g.Links v u) :
    (rankOf g.successors u < rankOf g.successors v ↔
      ∃ k, KeptWalk g.successors k v ∧ ¬ KeptWalk g.successors k u) ∧
    (¬ Held g.successors (v + 1) u → rankOf g.successors u < rankOf g.successors v) ∧
    (0 < settings.nodeHeight + settings.rankSeparation →
      (StandsAbove g settings u v ↔ rankOf g.successors u < rankOf g.successors v)) := by
  obtain ⟨hu, hv⟩ := huv.lt_length
  rw [← Graph.arc_successors] at huv hback
  have hne : u ≠ v := fun he => hback (he ▸ .refl)
  have hu' : u < g.successors.size := by rwa [Graph.size_successors]
  have hv' : v < g.successors.size := by rwa [Graph.size_successors]
  refine ⟨rankOf_lt_iff hu' hv', fun hheld => ?_, standsAbove_iff hu hv⟩
  exact rankOf_lt_of_kept hv' ⟨huv, hne, fun h => hheld (h.succ hback)⟩

/-- Edges b ⇄ c, and from c to a before and d behind them. -/
def tangle : Graph ℝ :=
  .ofFiles ⟨0, 0⟩ [⟨⟨[97]⟩, "a", []⟩, ⟨⟨[98]⟩, "b", [⟨[99]⟩]⟩,
    ⟨⟨[99]⟩, "c", [⟨[97]⟩, ⟨[98]⟩, ⟨[100]⟩]⟩, ⟨⟨[100]⟩, "d", []⟩]

theorem successors_tangle : tangle.successors = #[[], [2], [0, 1, 3], []] := by cbv

theorem links_tangle {u v : Nat} : tangle.Links u v ↔
    (u, v) ∈ [(1, 2), (2, 0), (2, 1), (2, 3)] := by
  rw [← Graph.arc_successors, successors_tangle]
  match u with
  | 0 | 1 | 2 | 3 => simp [Arc]
  | u + 4 => simp [Arc]

theorem not_reaches_tangle {u v : Nat} (hu : u = 0 ∨ u = 3) (hne : u ≠ v) :
    ¬ ReflTransGen tangle.Links u v := by
  intro h
  rcases ReflTransGen.cases_head h with he | ⟨w, hw, -⟩
  · exact hne he
  · rw [links_tangle] at hw
    grind

/-- The edge from c to d, which no higher circuit leads to, points down. -/
theorem edge_down_iff_tangle : rankOf tangle.successors 2 < rankOf tangle.successors 3 ∧
    StandsAbove tangle .standard 2 3 := by
  have hlink : tangle.Links 2 3 := by simp [links_tangle]
  obtain ⟨-, hdown, habove⟩ :=
    edge_down_iff tangle .standard hlink (not_reaches_tangle (.inr rfl) (by decide))
  have hlt := hdown fun h => absurd h.le (by decide)
  exact ⟨hlt, (habove (by norm_num [LayoutSettings.standard])).2 hlt⟩

theorem held_tangle : Held tangle.successors 0 2 := by
  have hlink : ∀ i : Fin 2, Above tangle.successors 0 (![1, 2] i) (![1, 2] (i + 1)) := by
    rw [successors_tangle]
    simp only [Above, Arc]
    decide
  exact ⟨⟨1, ![1, 2], hlink⟩, 2, ⟨1, rfl⟩, .refl⟩

/-- The edge from c to a points up: a is placed before the circuit behind which it is. -/
theorem edge_up_tangle : tangle.Links 2 0 ∧ 2 ≠ 0 ∧ ¬ ReflTransGen tangle.Links 0 2 ∧
    ¬ rankOf tangle.successors 2 < rankOf tangle.successors 0 ∧
    (0 : ℝ) < LayoutSettings.standard.nodeHeight + LayoutSettings.standard.rankSeparation ∧
    StandsAbove tangle .standard 0 2 := by
  have hsize : tangle.successors.size = 4 := by rw [successors_tangle]; rfl
  have hkept : Kept tangle.successors 1 2 := by
    refine ⟨?_, by decide, fun h => absurd h.le (by decide)⟩
    rw [successors_tangle]
    decide
  have hnone : ¬ KeptWalk tangle.successors 1 0 := by
    rintro (_ | ⟨-, harc, -, hheld⟩)
    rw [Graph.arc_successors, links_tangle] at harc
    grind [held_tangle]
  have hlt : rankOf tangle.successors 0 < rankOf tangle.successors 2 :=
    (rankOf_lt_iff (by omega) (by omega)).2 ⟨1, .snoc (.nil 1) hkept, hnone⟩
  have hpos : (0 : ℝ) <
      LayoutSettings.standard.nodeHeight + LayoutSettings.standard.rankSeparation := by
    norm_num [LayoutSettings.standard]
  have hlen : tangle.nodes.length = 4 := by rw [← Graph.size_successors, hsize]
  exact ⟨by simp [links_tangle], by decide, not_reaches_tangle (.inl rfl) (by decide),
    Nat.not_lt_of_gt hlt, hpos, (standsAbove_iff (by omega) (by omega) hpos).2 hlt⟩

end ModuleAtlas.Layered
