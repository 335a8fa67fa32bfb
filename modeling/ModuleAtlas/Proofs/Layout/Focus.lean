import Mathlib
import ModuleAtlas.Proofs.Graph.Notes
import ModuleAtlas.Proofs.Layout.FixedPlaces
import ModuleAtlas.Proofs.Layout.Reals

/-!
# Moving a graph as a whole

To bring a node to the centre all nodes are moved by one vector (`centerOn?_eq`), which leaves
everything but their places as it was. With exact arithmetic the node comes to lie in the centre, no
two nodes come closer to each other or drift apart, and of two moves only the second one counts
(`centeredOn`), since the vector makes up for all earlier ones (`centerOn?_moved`).
-/

namespace ModuleAtlas.Graph

variable {α : Type} {g h : Graph α} {id : Path} {n : Node α} {v : Nat} {p : Position α}

section Moved

variable [Add α]

/-- The graph with all its nodes moved by one vector. -/
def moved (dx dy : α) (g : Graph α) : Graph α :=
  { g with
    nodes := g.nodes.map (·.moved dx dy)
    index_lt := by simpa using g.index_lt }

theorem moved_eq_annotate (dx dy : α) (g : Graph α) :
    g.moved dx dy = g.annotate fun _ => Node.moved dx dy := by
  have hnodes : g.nodes.map (·.moved dx dy) = g.nodes.mapIdx fun _ => Node.moved dx dy := by
    refine List.ext_getElem? fun i => ?_
    simp
  exact Graph.ext hnodes rfl rfl

@[simp] theorem stats_moved (dx dy : α) (g : Graph α) : (g.moved dx dy).stats = g.stats := by
  simp only [stats, moved, List.length_map, List.countP_map]
  rfl

theorem node?_moved (dx dy : α) (g : Graph α) (id : Path) :
    (g.moved dx dy).node? id = (g.node? id).map (·.moved dx dy) := by
  have hnodes : (g.moved dx dy).nodes = g.nodes.map (·.moved dx dy) := rfl
  exact node?_map hnodes rfl id

theorem placedAt_moved (dx dy : α) (hp : g.PlacedAt v p) :
    (g.moved dx dy).PlacedAt v ⟨p.x + dx, p.y + dy⟩ := by
  obtain ⟨n, hn, rfl⟩ := hp
  exact ⟨n.moved dx dy, by rw [moved, List.getElem?_map, hn, Option.map_some], rfl⟩

end Moved

theorem centerOn?_eq [Scalar α] (g : Graph α) (id : Path) (settings : LayoutSettings α) :
    g.centerOn? id settings = (g.node? id).map fun n => g.moved
      (settings.canvasWidth / 2.0 - n.position.x) (settings.canvasHeight / 2.0 - n.position.y) := by
  simp only [moved_eq_annotate]
  rfl

/-! ### Exact arithmetic -/

/-- Moving a graph twice is moving it once by the sum of both vectors. -/
theorem moved_moved (dx dy dx' dy' : ℝ) (g : Graph ℝ) :
    (g.moved dx dy).moved dx' dy' = g.moved (dx + dx') (dy + dy') := by
  refine Graph.ext (List.map_map.trans (List.map_congr_left fun n _ => ?_)) rfl rfl
  simp only [Function.comp_apply, Node.moved, Node.withPosition, add_assoc]

theorem centerOn?_real (g : Graph ℝ) (id : Path) (settings : LayoutSettings ℝ) :
    g.centerOn? id settings = (g.node? id).map fun n => g.moved
      (settings.canvasWidth / 2 - n.position.x) (settings.canvasHeight / 2 - n.position.y) := by
  have htwo : (2.0 : ℝ) = 2 := by norm_num
  rw [centerOn?_eq, ← htwo]

/-- It makes no difference to what is brought to the centre where the graph has been before. -/
theorem centerOn?_moved (dx dy : ℝ) (g : Graph ℝ) (id : Path) (settings : LayoutSettings ℝ) :
    (g.moved dx dy).centerOn? id settings = g.centerOn? id settings := by
  have hvector (a x d : ℝ) : d + (a - (x + d)) = a - x := by ring
  rw [centerOn?_real, centerOn?_real, node?_moved, Option.map_map]
  refine congrArg (Option.map · (g.node? id)) (funext fun n => ?_)
  simp only [Function.comp_apply, moved_moved, Node.moved, Node.withPosition, hvector]

/-- The second graph is the first one with that node brought to the centre. -/
structure CenteredOn (settings : LayoutSettings ℝ) (id : Path) (g h : Graph ℝ) : Prop where
  /-- All places are changed by one vector, and nothing else is changed. -/
  moved : ∃ dx dy, h = g.moved dx dy
  center : (h.node? id).map (·.position) =
    some ⟨settings.canvasWidth / 2, settings.canvasHeight / 2⟩
  differences : ∀ u v p q, g.PlacedAt u p → g.PlacedAt v q → ∃ p' q', h.PlacedAt u p' ∧
    h.PlacedAt v q' ∧ p'.x - q'.x = p.x - q.x ∧ p'.y - q'.y = p.y - q.y
  /-- Another node comes to the centre from here as it does without the first move. -/
  again : ∀ id', h.centerOn? id' settings = g.centerOn? id' settings

theorem centeredOn {settings : LayoutSettings ℝ} {g h : Graph ℝ}
    (hcenter : g.centerOn? id settings = some h) : CenteredOn settings id g h := by
  rw [centerOn?_real] at hcenter
  obtain ⟨n, hn, rfl⟩ := Option.map_eq_some_iff.1 hcenter
  refine ⟨⟨_, _, rfl⟩, ?_, fun u v p q hp hq => ?_, fun id' => centerOn?_moved _ _ g id' settings⟩
  · simp only [node?_moved, hn, Option.map_some, Node.moved, Node.withPosition, add_sub_cancel]
  · exact ⟨_, _, placedAt_moved _ _ hp, placedAt_moved _ _ hq, add_sub_add_right_eq_sub _ _ _,
      add_sub_add_right_eq_sub _ _ _⟩

end ModuleAtlas.Graph
