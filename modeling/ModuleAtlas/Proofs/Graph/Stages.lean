import Mathlib.Logic.Relation
import ModuleAtlas.Graph.Cycles
import ModuleAtlas.Graph.Roles
import ModuleAtlas.Layout.Arrange
import ModuleAtlas.Layout.Focus
import ModuleAtlas.Proofs.Graph.Assembly

/-!
# Stages

After a graph has been assembled, its cycles are marked, its nodes get roles and places, and it is
moved to its focus, in any order and any number of times. All that a stage changes is what is noted
at the nodes: the `outline` of the graph, which leaves the notes out, stays the same
(`Stage.outline_eq`, by induction `outline_of_stages`).

What makes a graph coherent can be seen from its outline (`coherent_outline`), so it is so after any
stages (`coherent_of_stages`), and holds what it was assembled from (`assembled_of_stages`).
-/

namespace ModuleAtlas

variable {α : Type}

/-- The node without its mark, its role and its place. -/
def Node.outline (n : Node α) : Node Unit :=
  { n with isCircular := false, role := .core, position := ⟨(), ()⟩ }

namespace Graph

variable {g h : Graph α}

/-- The graph without what the stages note at its nodes. -/
def outline (g : Graph α) : Graph Unit where
  nodes := g.nodes.map Node.outline
  index := g.index
  edges := g.edges
  index_lt := by simpa using g.index_lt

/-- What one stage makes of a graph. -/
inductive Stage [Scalar α] (g : Graph α) : Graph α → Prop
  | markCycles : Stage g g.markCycles
  | classify (r : RoleRules) : Stage g (r.classify g)
  | layered (settings : LayoutSettings α) : Stage g (Layered.layout g settings)
  | zoned {h : Graph α} {γ : Type} (draw : γ → α × γ) (settings : LayoutSettings α) (s : γ)
    (hh : (Zoned.layout? draw g settings s).1 = some h) : Stage g h
  | centerOn {h : Graph α} (id : Path) (settings : LayoutSettings α)
    (hh : g.centerOn? id settings = some h) : Stage g h

theorem outline_annotate {f : Nat → Node α → Node α} (hf : ∀ i n, (f i n).outline = n.outline) :
    (g.annotate f).outline = g.outline := by
  have hnodes : (g.nodes.mapIdx f).map Node.outline = g.nodes.map Node.outline := by
    refine List.ext_getElem? fun i => ?_
    simp [Function.comp_def, hf]
  exact Graph.ext hnodes rfl rfl

theorem Stage.outline_eq [Scalar α] (hs : Stage g h) : h.outline = g.outline := by
  cases hs with
  | markCycles => exact outline_annotate fun _ _ => rfl
  | classify => exact outline_annotate fun _ _ => rfl
  | layered => exact outline_annotate fun _ _ => rfl
  | zoned draw settings s hh =>
    obtain ⟨_, -, rfl⟩ := Option.map_eq_some_iff.1 hh
    exact outline_annotate fun _ _ => rfl
  | centerOn id settings hh =>
    obtain ⟨_, -, rfl⟩ := Option.map_eq_some_iff.1 hh
    exact outline_annotate fun _ _ => rfl

theorem outline_of_stages [Scalar α] (hs : Relation.ReflTransGen Stage g h) :
    h.outline = g.outline := by
  induction hs with
  | refl => rfl
  | tail _ hstage ih => exact hstage.outline_eq.trans ih

theorem containsEdge_of_stages [Scalar α] (hs : Relation.ReflTransGen Stage g h) (u v : Path) :
    h.containsEdge u v = g.containsEdge u v := by
  have hedges : h.edges = g.edges := congrArg (·.edges) (outline_of_stages hs)
  rw [containsEdge, containsEdge, hedges]

/-- To arrange a graph is a stage, by either strategy. -/
theorem stage_arrange? [Scalar α] {γ : Type} {settings : LayoutSettings α} {r : RandomSource α γ}
    (hh : g.arrange? settings r = some h) : Stage g h := by
  rw [arrange?] at hh
  split at hh
  · exact Option.some.inj hh ▸ .layered settings
  · exact .zoned r.draw settings _ hh

theorem map_id_outline (g : Graph α) : g.outline.nodes.map (·.id) = g.nodes.map (·.id) := by
  rw [outline, List.map_map]
  rfl

theorem coherent_outline : g.outline.Coherent ↔ g.Coherent := by
  have hids : DistinctIds g.outline.nodes ↔ DistinctIds g.nodes := List.pairwise_map
  have hfile {p : Path} : HasFile g.outline.nodes p ↔ HasFile g.nodes p :=
    hasFile_congr (map_id_outline g)
  have hindexed : g.outline.Indexed ↔ g.Indexed := by
    rw [Indexed, Indexed, map_id_outline]
    rfl
  constructor
  · rintro ⟨h1, h2, h3, h4, h5, h6⟩
    exact ⟨hindexed.1 h1, hids.1 h2, h3, fun e he => by simpa only [hfile] using h4 e he,
      fun n hn => h5 n.outline (List.mem_map_of_mem hn),
      fun n hn => h6 n.outline (List.mem_map_of_mem hn)⟩
  · rintro ⟨h1, h2, h3, h4, h5, h6⟩
    exact ⟨hindexed.2 h1, hids.2 h2, h3, fun e he => by simpa only [hfile] using h4 e he,
      List.forall_mem_map.2 h5, List.forall_mem_map.2 h6⟩

theorem coherent_of_stages [Scalar α] {nodes : List (Node α)} {edges : List Edge}
    (hs : Relation.ReflTransGen Stage (assemble nodes edges) g) : g.Coherent := by
  rw [← coherent_outline, outline_of_stages hs, coherent_outline]
  exact coherent_assemble nodes edges

/-- The graph holds what was given to assemble it, each file and each edge once, and all that can be
asked about it agrees. -/
structure Assembles (nodes : List (Node α)) (edges : List Edge) (g : Graph α) : Prop where
  /-- The files are the given ones, where each occurs first. -/
  ids : g.nodes.map (·.id) = (nodes.map (·.id)).eraseDups
  distinct : g.nodes.Pairwise fun m n => (m.id == n.id) = false
  index : ∀ p v, g.indexOf? p = some v ↔ ∃ n, g.nodes[v]? = some n ∧ (n.id == p) = true
  edge_iff : ∀ e, g.edges.contains e = true ↔
    edges.contains e = true ∧ (∃ n ∈ nodes, (n.id == e.source) = true) ∧
      ∃ n ∈ nodes, (n.id == e.target) = true
  edges_distinct : g.edges.Pairwise fun e f => (e == f) = false
  counts : ∀ n ∈ g.nodes, n.dependencyCount = g.edges.countP (·.source == n.id) ∧
    n.dependentCount = g.edges.countP (·.target == n.id)
  sums : (g.nodes.map (·.dependencyCount)).sum = g.edges.length ∧
    (g.nodes.map (·.dependentCount)).sum = g.edges.length
  stats : g.stats = ⟨g.nodes.length, g.edges.length, (g.nodes.filter (·.isCircular)).length⟩
  reassembled : assemble g.nodes g.edges = g

/-- After any stages an assembled graph still holds what was given: the files in the order in which
they first occur, found by their numbers, and the edges between them, counted at their nodes; and to
assemble it again changes nothing. -/
theorem assembled_of_stages [Scalar α] (nodes : List (Node α)) (edges : List Edge)
    (hs : Relation.ReflTransGen Stage (assemble nodes edges) g) : Assembles nodes edges g := by
  have hout := outline_of_stages hs
  have hedges : g.edges = (assemble nodes edges).edges := congrArg (·.edges) hout
  have hids : g.nodes.map (·.id) = (assemble nodes edges).nodes.map (·.id) := by
    rw [← map_id_outline, hout, map_id_outline]
  have hg := coherent_of_stages hs
  exact
    { ids := by rw [hids, map_id_assemble, map_id_distinct]
      distinct := hg.ids
      index := fun _ _ => hg.indexOf?_eq_some_iff
      edge_iff := fun _ => by
        rw [hedges]
        exact contains_assemble
      edges_distinct := hg.ascending.imp fun {e f} hlt => by
        rw [← Bool.not_eq_true, ← Edge.compare_eq_iff, hlt]
        decide
      counts := fun n hn => ⟨hg.dependencyCount n hn, hg.dependentCount n hn⟩
      sums := ⟨hg.sum_dependencyCount, hg.sum_dependentCount⟩
      stats := by rw [stats, List.countP_eq_length_filter]
      reassembled := hg.assemble_eq }

/-- Nodes for a, b and a once more, with the path written otherwise. -/
def respelledNodes : List (Node Float) :=
  [⟨⟨[97]⟩, "a", []⟩, ⟨⟨[98]⟩, "b", []⟩, ⟨⟨[97, 47, 46]⟩, "again a", []⟩].map (.ofFile .origin)

/-- Edges a → b twice, in two spellings, b → b, and a → x, which has no node. -/
def respelledEdges : List Edge :=
  [⟨⟨[97]⟩, ⟨[98]⟩⟩, ⟨⟨[97, 47]⟩, ⟨[98, 47, 46]⟩⟩, ⟨⟨[98]⟩, ⟨[98]⟩⟩, ⟨⟨[97]⟩, ⟨[120]⟩⟩]

/-- Of the nodes the first two stay, and of the edges two. -/
theorem assembled_of_stages_respelled : ∃ g : Graph Float,
    Relation.ReflTransGen Stage (assemble respelledNodes respelledEdges) g ∧
    g.nodes.map (·.id) = [⟨[97]⟩, ⟨[98]⟩] ∧
    g.containsEdge ⟨[97]⟩ ⟨[98]⟩ = true ∧ g.containsEdge ⟨[97]⟩ ⟨[120]⟩ = false ∧
    assemble g.nodes g.edges = g := by
  have hs : Relation.ReflTransGen Stage (assemble respelledNodes respelledEdges) _ :=
    ((Relation.ReflTransGen.single .markCycles).tail (.classify .standard)).tail (.layered .standard)
  have h := assembled_of_stages respelledNodes respelledEdges hs
  have hids : respelledNodes.map (·.id) = [⟨[97]⟩, ⟨[98]⟩, ⟨[97, 47, 46]⟩] := rfl
  have hnone : ([⟨[97]⟩, ⟨[98]⟩, ⟨[97, 47, 46]⟩] : List Path).any (· == ⟨[120]⟩) = false := by cbv
  refine ⟨_, hs, ?_, (h.edge_iff _).2 ⟨by cbv, ?_, ?_⟩, ?_, h.reassembled⟩
  · rw [h.ids, hids]
    cbv
  · exact ⟨_, List.mem_cons_self, BEq.rfl⟩
  · exact ⟨_, List.mem_cons_of_mem _ List.mem_cons_self, BEq.rfl⟩
  · rw [← Bool.not_eq_true, containsEdge, h.edge_iff]
    rintro ⟨-, -, n, hn, hid⟩
    rw [← hids, List.any_eq_false] at hnone
    exact hnone n.id (List.mem_map_of_mem hn) hid

end Graph

end ModuleAtlas
