import Mathlib
import ModuleAtlas.Proofs.Graph.FirstVisited

/-!
# Which nodes are marked as circular

What the marks of a graph say about its circuits, for any order of nodes and edges:

* `marks_first_and_pred`: of every circuit, the node that the search visits first and the one before
  it are marked, so that every circuit has a mark;
* `marks_lie_on_circuits`: a marked node lies on a simple circuit of marked nodes;
* `marks_exact`: where two circuits share at most one node, all nodes on circuits are marked.
-/

namespace ModuleAtlas.Graph

open Relation

variable {α : Type}

/-- The node with this number is there and marked as circular. -/
def Flagged (g : Graph α) (v : Nat) : Prop := ∃ n, g.nodes[v]? = some n ∧ n.isCircular = true

/-- Two simple circuits with different edges share at most one node. -/
def CircuitsMeetOnce (g : Graph α) : Prop :=
  ∀ c d : Circuit g.Links, c.IsSimple → d.IsSimple → c.arcs ≠ d.arcs →
    (c.nodes ∩ d.nodes).Subsingleton

theorem flagged_markCycles {g : Graph α} {v : Nat} :
    g.markCycles.Flagged v ↔ (Search.exploreAll g.successors).isMarked v = true := by
  have hsize : (Search.exploreAll g.successors).circular.size = g.nodes.length := by
    rw [(Search.shaped_of_reached (Search.reached_exploreAll _)).circular_size, size_successors]
  simp only [Flagged, markCycles, annotate, List.getElem?_mapIdx, Option.map_eq_some_iff,
    circularFlags, Search.isMarked]
  constructor
  · rintro ⟨_, ⟨n, -, rfl⟩, hc⟩
    exact hc
  · intro hm
    have hv : v < g.nodes.length := by
      by_contra hv
      simp [hsize, hv] at hm
    exact ⟨_, ⟨_, List.getElem?_eq_getElem hv, rfl⟩, hm⟩

/-- No mark is counted if and only if there is none. -/
theorem stats_circular_eq_zero {g : Graph α} : g.stats.circular = 0 ↔ ∀ v, ¬ g.Flagged v := by
  rw [stats, List.countP_eq_zero]
  constructor
  · rintro h v ⟨n, hn, hc⟩
    exact h n (List.mem_of_getElem? hn) hc
  · intro h n hn hc
    obtain ⟨v, hv⟩ := List.mem_iff_getElem?.1 hn
    exact h v ⟨n, hv, hc⟩

/-- In a set whose nodes lead to each other, a step to the node that is visited first lies on a
simple circuit of marked nodes. -/
theorem exists_marked_circuit {g : Graph α} {S : Set Nat} {u r : Nat}
    (h : Search.VisitsFirst g.successors S r)
    (hreach : ReflTransGen (fun a b => g.Links a b ∧ b ∈ S) r u) (hlink : g.Links u r) :
    ∃ d : Circuit g.Links, d.IsSimple ∧ (u, r) ∈ d.arcs ∧ ∀ v ∈ d, g.markCycles.Flagged v := by
  have hclosed := Search.closed_of_visitsFirst h (u := u)
  unfold Search.Closed at hclosed
  rw [arc_successors] at hclosed
  simpa only [flagged_markCycles] using hclosed hreach hlink

theorem existsUnique_first {g : Graph α} (c : Circuit g.Links) :
    ∃ i, ∀ w, Search.VisitsFirst g.successors c.nodes w ↔ w = c.node (i + 1) := by
  have hlt : ∀ u ∈ c.nodes, u < g.successors.size := by
    rintro _ ⟨i, rfl⟩
    rw [size_successors]
    exact (c.link i).lt_length.1
  obtain ⟨v, ⟨i, rfl⟩, hi⟩ := Search.existsUnique_visitsFirst ⟨_, c.node_mem 0⟩ hlt
  exact ⟨i - 1, by simpa using hi⟩

theorem flagged_of_first {g : Graph α} {S : Set Nat} {u r : Nat}
    (h : Search.VisitsFirst g.successors S r)
    (hreach : ReflTransGen (fun a b => g.Links a b ∧ b ∈ S) r u) (hlink : g.Links u r) :
    g.markCycles.Flagged r ∧ g.markCycles.Flagged u := by
  obtain ⟨d, -, harc, hall⟩ := exists_marked_circuit h hreach hlink
  obtain ⟨hu, hr⟩ := Circuit.mem_of_arc harc
  exact ⟨hall _ hr, hall _ hu⟩

/-- Every circuit has a marked node. -/
theorem exists_flagged {g : Graph α} (c : Circuit g.Links) : ∃ v ∈ c, g.markCycles.Flagged v := by
  obtain ⟨i, hi⟩ := existsUnique_first c
  exact ⟨_, c.node_mem _, (flagged_of_first ((hi _).2 rfl) (c.reaches (i + 1) i) (c.link i)).1⟩

/-- Nodes that have edges to each other are marked: one of them is visited first. -/
theorem flagged_of_mutual {g : Graph α} {u v : Nat} (huv : g.Links u v) (hvu : g.Links v u) :
    g.markCycles.Flagged u ∧ g.markCycles.Flagged v := by
  have hlt : ∀ w ∈ ({u, v} : Set Nat), w < g.successors.size := by
    rw [size_successors]
    rintro w (rfl | rfl)
    · exact huv.lt_length.1
    · exact hvu.lt_length.1
  obtain ⟨r, hr, hfirst⟩ := Search.existsUnique_visitsFirst ⟨u, .inl rfl⟩ hlt
  have hr' := (hfirst r).2 rfl
  rcases hr with rfl | rfl
  · exact flagged_of_first hr' (.single ⟨huv, .inr rfl⟩) hvu
  · exact (flagged_of_first hr' (.single ⟨hvu, .inl rfl⟩) huv).symm

/-- Of every circuit, the node that the search visits first and the node before it are marked. So
files that import themselves or each other are marked, the files without a mark have no circuit
among them, and no mark at all means that there is no circuit. -/
theorem marks_first_and_pred (g : Graph α) :
    (∀ c : Circuit g.Links, ∃ v ∈ c, (∀ w, Search.VisitsFirst g.successors c.nodes w ↔ w = v) ∧
      ∀ i, c.node (i + 1) = v →
        g.markCycles.Flagged (c.node (i + 1)) ∧ g.markCycles.Flagged (c.node i)) ∧
    (∀ u, g.Links u u → g.markCycles.Flagged u) ∧
    (∀ u v, g.Links u v → g.Links v u → g.markCycles.Flagged u ∧ g.markCycles.Flagged v) ∧
    IsEmpty (Circuit fun u v =>
      g.Links u v ∧ ¬ g.markCycles.Flagged u ∧ ¬ g.markCycles.Flagged v) ∧
    (g.markCycles.stats.circular = 0 → IsEmpty (Circuit g.Links)) := by
  refine ⟨fun c => ?_, fun u hu => (flagged_of_mutual hu hu).1, fun u v => flagged_of_mutual,
    ⟨fun c => ?_⟩, fun h => ⟨fun c => ?_⟩⟩
  · obtain ⟨i, hi⟩ := existsUnique_first c
    refine ⟨c.node (i + 1), c.node_mem _, hi, fun j hj => ?_⟩
    exact flagged_of_first ((hi _).2 hj) (c.reaches (j + 1) j) (c.link j)
  · obtain ⟨v, hv, hflag⟩ := exists_flagged (c.imp fun h => h.1)
    obtain ⟨i, rfl⟩ := hv
    exact (c.link i).2.1 hflag
  · obtain ⟨v, -, hflag⟩ := exists_flagged c
    exact stats_circular_eq_zero.1 h v hflag

/-- The edges a → b → c → a and a → d → b: the way round by d shares the edges b → c → a. -/
def detour : Graph Unit :=
  .ofFiles ⟨(), ()⟩ [⟨⟨[97]⟩, "a", [⟨[98]⟩, ⟨[100]⟩]⟩, ⟨⟨[98]⟩, "b", [⟨[99]⟩]⟩,
    ⟨⟨[99]⟩, "c", [⟨[97]⟩]⟩, ⟨⟨[100]⟩, "d", [⟨[98]⟩]⟩]

theorem successors_detour : detour.successors = #[[1, 3], [2], [0], [1]] := by cbv

/-- On the circuit by d the search visits a first; a and the node before it, c, are marked. -/
theorem marks_first_and_pred_detour : ∃ c : Circuit detour.Links,
    List.ofFn c.node = [0, 3, 1, 2] ∧ Search.VisitsFirst detour.successors c.nodes 0 ∧
      detour.markCycles.Flagged 0 ∧ detour.markCycles.Flagged 2 := by
  have hlink : ∀ i : Fin 4, detour.Links (![0, 3, 1, 2] i) (![0, 3, 1, 2] (i + 1)) := by
    rw [← arc_successors, successors_detour]
    simp only [Arc]
    decide
  let c : Circuit detour.Links := ⟨3, ![0, 3, 1, 2], hlink⟩
  have hfirst : Search.VisitsFirst detour.successors c.nodes 0 := by
    refine ⟨⟨0, rfl⟩, Search.fresh 4, Search.enter detour.successors 0 (Search.fresh 4), ?_,
      .start rfl rfl (by simp), ?_, by decide⟩
    · rw [successors_detour]
      exact .refl
    · have hnone : ∀ i : Fin 4, (Search.fresh 4).isVisited (![0, 3, 1, 2] i) = false := by decide
      rintro _ ⟨i, rfl⟩
      exact hnone i
  obtain ⟨v, -, hv, hboth⟩ := (marks_first_and_pred detour).1 c
  have hback : c.node (Fin.last 3 + 1) = 0 := by rw [Fin.last_add_one]; rfl
  have hmarks := hboth (Fin.last 3) (hback.trans ((hv 0).1 hfirst))
  rw [hback] at hmarks
  exact ⟨c, rfl, hfirst, hmarks⟩

theorem exists_circuit_of_flagged {g : Graph α} {v : Nat} (h : g.markCycles.Flagged v) :
    ∃ c : Circuit g.Links, c.IsSimple ∧ v ∈ c ∧ ∀ u ∈ c, g.markCycles.Flagged u := by
  obtain ⟨w, hc⟩ := Search.sound_of_reached (Search.reached_exploreAll g.successors) v
    (flagged_markCycles.1 h)
  unfold Search.Closed at hc
  rw [arc_successors] at hc
  obtain ⟨c, hs, harc, hall⟩ := hc
  exact ⟨c, hs, (Circuit.mem_of_arc harc).1, fun u hu => flagged_markCycles.2 (hall u hu)⟩

/-- A marked node lies on a simple circuit of marked nodes. So a node that no walk leads back to is
not marked, and a graph without circuits has no mark. -/
theorem marks_lie_on_circuits (g : Graph α) :
    (∀ v, g.markCycles.Flagged v →
      ∃ c : Circuit g.Links, c.IsSimple ∧ v ∈ c ∧ ∀ u ∈ c, g.markCycles.Flagged u) ∧
    (∀ v, ¬ TransGen g.Links v v → ¬ g.markCycles.Flagged v) ∧
    (IsEmpty (Circuit g.Links) → g.markCycles.stats.circular = 0) := by
  refine ⟨fun v => exists_circuit_of_flagged, fun v hv hflag => ?_, fun hnone => ?_⟩
  · obtain ⟨c, -, hc, -⟩ := exists_circuit_of_flagged hflag
    exact hv (Circuit.transGen_self hc)
  · refine stats_circular_eq_zero.2 fun v hflag => ?_
    obtain ⟨c, -⟩ := exists_circuit_of_flagged hflag
    exact hnone.false c

/-- Edges a ⇄ b ⇄ c, and d → a from outside. -/
def eight : Graph Unit :=
  .ofFiles ⟨(), ()⟩ [⟨⟨[97]⟩, "a", [⟨[98]⟩]⟩, ⟨⟨[98]⟩, "b", [⟨[97]⟩, ⟨[99]⟩]⟩,
    ⟨⟨[99]⟩, "c", [⟨[98]⟩]⟩, ⟨⟨[100]⟩, "d", [⟨[97]⟩]⟩]

theorem successors_eight : eight.successors = #[[1], [0, 2], [1], [0]] := by cbv

theorem links_eight {u v : Nat} : eight.Links u v ↔
    (u, v) ∈ [(0, 1), (1, 0), (1, 2), (2, 1), (3, 0)] := by
  rw [← arc_successors, successors_eight]
  match u with
  | 0 | 1 | 2 | 3 => simp [Arc]
  | u + 4 => simp [Arc]

/-- The node c lies on a circuit of marked nodes; d leads to a circuit, but lies on none. -/
theorem marks_lie_on_circuits_eight :
    (∃ c : Circuit eight.Links, c.IsSimple ∧ 2 ∈ c ∧ ∀ u ∈ c, eight.markCycles.Flagged u) ∧
      ¬ eight.markCycles.Flagged 3 := by
  constructor
  · refine (marks_lie_on_circuits eight).1 2 (flagged_of_mutual (v := 1) ?_ ?_).1 <;>
      simp [links_eight]
  · refine (marks_lie_on_circuits eight).2.1 3 fun h => ?_
    obtain ⟨u, -, hu⟩ := TransGen.tail'_iff.1 h
    simp [links_eight] at hu

/-- Where two circuits share at most one node, the marked nodes are those that lie on a circuit. -/
theorem marks_exact (g : Graph α) (h : g.CircuitsMeetOnce) (v : Nat) :
    g.markCycles.Flagged v ↔ ∃ c : Circuit g.Links, v ∈ c := by
  constructor
  · intro hflag
    obtain ⟨c, -, hv, -⟩ := exists_circuit_of_flagged hflag
    exact ⟨c, hv⟩
  · intro hv
    obtain ⟨c, hc, hv⟩ := exists_simple (exists_circuit_iff.1 hv)
    obtain ⟨i, hi⟩ := existsUnique_first c
    obtain ⟨d, hd, harc, hall⟩ :=
      exists_marked_circuit ((hi _).2 rfl) (c.reaches (i + 1) i) (c.link i)
    obtain ⟨hpred, hfirst⟩ := Circuit.mem_of_arc harc
    -- the circuit that was marked is `c` itself, or else they share two nodes
    by_cases harcs : c.arcs = d.arcs
    · obtain ⟨w, hw⟩ := Circuit.exists_arc hv
      exact hall v (Circuit.mem_of_arc (harcs ▸ hw)).1
    · have hloop : c.node (i + 1) = c.node i :=
        h c d hc hd harcs ⟨c.node_mem _, hfirst⟩ ⟨c.node_mem _, hpred⟩
      have hlast : c.last + 1 = 1 := Fin.one_eq_zero_iff.1 (add_eq_left.1 (hc hloop))
      obtain ⟨j, rfl⟩ := hv
      have hj : j = i := Fin.ext (by omega)
      exact hall _ (hj ▸ hpred)

/-- A simple circuit goes either to and fro between a and b or between b and c. -/
theorem arcs_eight {c : Circuit eight.Links} (hc : c.IsSimple) :
    c.arcs = {(0, 1), (1, 0)} ∨ c.arcs = {(1, 2), (2, 1)} := by
  have hlinks {u v : Nat} (h : (u, v) ∈ c.arcs) := links_eight.1 (Circuit.rel_of_arc h)
  have h3 {v : Nat} (h : (3, v) ∈ c.arcs) : False := by
    obtain ⟨u, hu⟩ := Circuit.exists_arc_into (Circuit.mem_of_arc h).1
    simpa using hlinks hu
  have h21 (h : (1, 2) ∈ c.arcs) : (2, 1) ∈ c.arcs := by
    obtain ⟨v, hv⟩ := Circuit.exists_arc (Circuit.mem_of_arc h).2
    obtain rfl : v = 1 := by simpa using hlinks hv
    exact hv
  have h12 (h : (2, 1) ∈ c.arcs) : (1, 2) ∈ c.arcs := by
    obtain ⟨u, hu⟩ := Circuit.exists_arc_into (Circuit.mem_of_arc h).1
    obtain rfl : u = 1 := by simpa using hlinks hu
    exact hu
  by_cases h10 : (1, 0) ∈ c.arcs
  · left
    have h01 : (0, 1) ∈ c.arcs := by
      obtain ⟨v, hv⟩ := Circuit.exists_arc (Circuit.mem_of_arc h10).2
      obtain rfl : v = 1 := by simpa using hlinks hv
      exact hv
    have hnot : (1, 2) ∉ c.arcs := fun h => absurd (hc.arc_unique h10 h) (by decide)
    ext ⟨u, v⟩
    refine ⟨fun h => ?_, by rintro (h | h) <;> exact h ▸ ‹_›⟩
    have := hlinks h
    grind
  · right
    have hnot : (0, 1) ∉ c.arcs := fun h => by
      obtain ⟨u, hu⟩ := Circuit.exists_arc_into (Circuit.mem_of_arc h).1
      have := hlinks hu
      grind
    have hone : (1, 2) ∈ c.arcs := by
      obtain ⟨v, hv⟩ := Circuit.exists_arc (c.node_mem 0)
      generalize c.node 0 = u at hv
      have := hlinks hv
      grind
    have := h21 hone
    ext ⟨u, v⟩
    refine ⟨fun h => ?_, by rintro (h | h) <;> exact h ▸ ‹_›⟩
    have := hlinks h
    grind

theorem circuitsMeetOnce_eight : eight.CircuitsMeetOnce := by
  have hmem {a b u : Nat} {c : Circuit eight.Links} (hc : c.arcs = {(a, b), (b, a)}) (hu : u ∈ c) :
      u = a ∨ u = b := by
    obtain ⟨v, hv⟩ := Circuit.exists_arc hu
    rw [hc] at hv
    grind
  intro c d hc hd hne u hu v hv
  rcases arcs_eight hc with h | h <;> rcases arcs_eight hd with h' | h'
  · exact absurd (h.trans h'.symm) hne
  · have hu' := And.intro (hmem h hu.1) (hmem h' hu.2)
    have hv' := And.intro (hmem h hv.1) (hmem h' hv.2)
    omega
  · have hu' := And.intro (hmem h hu.1) (hmem h' hu.2)
    have hv' := And.intro (hmem h hv.1) (hmem h' hv.2)
    omega
  · exact absurd (h.trans h'.symm) hne

/-- All nodes of the two circuits are marked, though they share b. -/
theorem marks_exact_eight : eight.CircuitsMeetOnce ∧
    ∀ v, eight.markCycles.Flagged v ↔ ∃ c : Circuit eight.Links, v ∈ c :=
  ⟨circuitsMeetOnce_eight, marks_exact eight circuitsMeetOnce_eight⟩

end ModuleAtlas.Graph
