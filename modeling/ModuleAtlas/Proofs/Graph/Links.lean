import ModuleAtlas.Graph.Basic

/-!
# Edges by number

The algorithms on graphs work on the numbers of the nodes. `Graph.Links` says which numbers an edge
of the graph joins, `Arc` which numbers an adjacency list joins; for the list of a graph they are
the same (`arc_successors`).
-/

namespace ModuleAtlas

/-- `v` is listed as a successor of `u`. -/
def Arc (adjacency : Array (List Nat)) (u v : Nat) : Prop := v ∈ adjacency.getD u []

instance (adjacency : Array (List Nat)) (u v : Nat) : Decidable (Arc adjacency u v) :=
  inferInstanceAs (Decidable (v ∈ adjacency.getD u []))

theorem Arc.lt_size {adjacency : Array (List Nat)} {u v : Nat} (h : Arc adjacency u v) :
    u < adjacency.size := by
  refine Nat.lt_of_not_le fun hu => ?_
  simp [Arc, Array.getD_eq_getD_getElem?, Array.getElem?_eq_none hu] at h

namespace Graph

variable {α : Type}

/-- An edge goes from the node with number `u` to the node with number `v`. -/
def Links (g : Graph α) (u v : Nat) : Prop :=
  ∃ e ∈ g.edges, (∃ n, g.nodes[u]? = some n ∧ (e.source == n.id) = true) ∧
    g.indexOf? e.target = some v

theorem size_successors (g : Graph α) : g.successors.size = g.nodes.length := by
  simp [successors]

theorem getD_successors (g : Graph α) (u : Nat) : g.successors.getD u [] =
    match g.nodes[u]? with
    | some n => (g.dependencies n.id).filterMap g.indexOf?
    | none => [] := by
  simp only [successors, Array.getD_eq_getD_getElem?, List.getElem?_toArray, List.getElem?_map]
  cases g.nodes[u]? <;> rfl

theorem arc_successors (g : Graph α) : Arc g.successors = g.Links := by
  funext u v
  simp only [Arc, Links, getD_successors, eq_iff_iff]
  cases hu : g.nodes[u]? with
  | none => simp
  | some n => simp [dependencies, and_assoc]

theorem indexOf?_lt {g : Graph α} {id : Path} {v : Nat} (h : g.indexOf? id = some v) :
    v < g.nodes.length := by
  obtain ⟨entry, hfind, rfl⟩ := Option.map_eq_some_iff.1 h
  exact g.index_lt entry (List.mem_of_find?_eq_some hfind)

theorem Links.lt_length {g : Graph α} {u v : Nat} (h : g.Links u v) :
    u < g.nodes.length ∧ v < g.nodes.length := by
  obtain ⟨e, -, ⟨n, hn, -⟩, hv⟩ := h
  exact ⟨(List.getElem?_eq_some_iff.1 hn).1, indexOf?_lt hv⟩

end Graph

end ModuleAtlas
