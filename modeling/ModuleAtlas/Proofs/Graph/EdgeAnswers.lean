import Mathlib
import ModuleAtlas.Proofs.Graph.Spelling

/-!
# Questions about edges

A graph can be asked about an edge in several ways: whether it is in the set of edges, what a file
imports, what a file is imported by, which numbers the successors of a node have, and how many edges
are at a node. Of a coherent graph all answers agree, so they do of each graph that has been assembled
(`edge_answers`).

* What a file imports is listed in ascending order, and so is what it is imported by, since one end of
  the edges is the same and the other one decides (`ascending_dependencies`, `ascending_dependents`).
* Numbers stand for files one to one (`Coherent.indexOf?_eq_some_iff`), so lists of files and lists of
  numbers say the same (`Coherent.map_some_successors`).
* The successors of all nodes can be found in one pass over the edges (`Coherent.successors_onePass`).
-/

namespace ModuleAtlas.Graph

variable {α : Type} {g : Graph α} {s t p q : Path} {n : Node α} {u v : Nat}

/-- Enters an edge into the lists of successors. -/
def link (g : Graph α) (lists : Array (List Nat)) (e : Edge) : Array (List Nat) :=
  match g.indexOf? e.source, g.indexOf? e.target with
  | some u, some v => lists.modify u (· ++ [v])
  | _, _ => lists

/-- All questions about edges are answered alike. -/
structure EdgeAnswers (g : Graph α) : Prop where
  dependencies_iff : ∀ s t, (g.dependencies s).contains t = true ↔ g.containsEdge s t = true
  dependents_iff : ∀ s t, (g.dependents t).contains s = true ↔ g.containsEdge s t = true
  successors_iff : ∀ s t, (∃ u v ws, g.indexOf? s = some u ∧ g.indexOf? t = some v ∧
    g.successors[u]? = some ws ∧ v ∈ ws) ↔ g.containsEdge s t = true
  dependencies_ascend : ∀ s, (g.dependencies s).Pairwise fun p q => compare p q = .lt
  dependents_ascend : ∀ t, (g.dependents t).Pairwise fun p q => compare p q = .lt
  /-- The successors are the dependencies, number by number. -/
  successors_eq : ∀ s u, g.indexOf? s = some u →
    ∃ ws, g.successors[u]? = some ws ∧ ws.map some = (g.dependencies s).map g.indexOf?
  successors_lt : ∀ ws ∈ g.successors, ∀ w ∈ ws, w < g.nodes.length
  successors_onePass : g.edges.foldl g.link (.replicate g.nodes.length []) = g.successors
  node?_iff : ∀ s n, g.node? s = some n ↔ ∃ u, g.indexOf? s = some u ∧ g.nodes[u]? = some n
  counts : ∀ s n, g.node? s = some n → (g.dependencies s).length = n.dependencyCount ∧
    (g.dependents s).length = n.dependentCount
  unknown : ∀ s, g.node? s = none → g.dependencies s = [] ∧ g.dependents s = []

/-! ### Lists of files -/

theorem dependencies_congr (h : (p == q) = true) : g.dependencies p = g.dependencies q := by
  simp only [dependencies, Path.beq_congr BEq.rfl h]

theorem contains_dependencies : (g.dependencies s).contains t = true ↔
    g.containsEdge s t = true := by
  rw [dependencies, containsEdge, List.contains_iff_exists_mem_beq,
    List.contains_iff_exists_mem_beq]
  simp only [List.mem_map, List.mem_filter, Edge.beq_iff]
  constructor
  · rintro ⟨_, ⟨e, ⟨he, hs⟩, rfl⟩, ht⟩
    exact ⟨e, he, BEq.symm hs, ht⟩
  · rintro ⟨e, he, hs, ht⟩
    exact ⟨_, ⟨e, ⟨he, BEq.symm hs⟩, rfl⟩, ht⟩

theorem contains_dependents : (g.dependents t).contains s = true ↔
    g.containsEdge s t = true := by
  rw [dependents, containsEdge, List.contains_iff_exists_mem_beq, List.contains_iff_exists_mem_beq]
  simp only [List.mem_map, List.mem_filter, Edge.beq_iff]
  constructor
  · rintro ⟨_, ⟨e, ⟨he, ht⟩, rfl⟩, hs⟩
    exact ⟨e, he, hs, BEq.symm ht⟩
  · rintro ⟨e, he, hs, ht⟩
    exact ⟨_, ⟨e, ⟨he, BEq.symm ht⟩, rfl⟩, hs⟩

/-- Of edges with one source, the less one has the less target. -/
theorem ascending_dependencies (h : Ascending g.edges) (s : Path) :
    (g.dependencies s).Pairwise fun p q => compare p q = .lt := by
  refine List.pairwise_map.2 (List.pairwise_filter.2 (h.imp fun {e f} hlt he hf => ?_))
  have hsource : compare e.source f.source = .eq :=
    Path.compare_eq_iff.2 (BEq.trans he (BEq.symm hf))
  change (compare e.source f.source).then (compare e.target f.target) = .lt at hlt
  rwa [hsource] at hlt

/-- Of edges with one target, the less one has the less source. -/
theorem ascending_dependents (h : Ascending g.edges) (t : Path) :
    (g.dependents t).Pairwise fun p q => compare p q = .lt := by
  refine List.pairwise_map.2 (List.pairwise_filter.2 (h.imp fun {e f} hlt he hf => ?_))
  have htarget : compare e.target f.target = .eq :=
    Path.compare_eq_iff.2 (BEq.trans he (BEq.symm hf))
  change (compare e.source f.source).then (compare e.target f.target) = .lt at hlt
  rwa [htarget, Ordering.then_eq] at hlt

/-! ### Lists of numbers -/

/-- Entering edges puts behind each list the targets of those that begin there. -/
theorem getElem?_foldl_link (edges : List Edge) (lists : Array (List Nat)) (u : Nat) :
    (edges.foldl g.link lists)[u]? = lists[u]?.map (· ++ edges.filterMap fun e =>
      if g.indexOf? e.source = some u then g.indexOf? e.target else none) := by
  induction edges generalizing lists with
  | nil => simp
  | cons e es ih =>
    rw [List.foldl_cons, ih, link]
    cases hsource : g.indexOf? e.source with
    | none => simp [hsource]
    | some w =>
      cases htarget : g.indexOf? e.target with
      | none => simp [htarget]
      | some v =>
        by_cases hu : w = u
        · subst hu
          simp [hsource, htarget, Array.getElem?_modify, Function.comp_def]
        · simp [hsource, hu, Array.getElem?_modify]

/-- If all members of a list are mapped, none is left out. -/
theorem map_some_filterMap {β γ : Type} {f : β → Option γ} {l : List β}
    (h : ∀ b ∈ l, (f b).isSome) : (l.filterMap f).map some = l.map f := by
  induction l with
  | nil => rfl
  | cons b bs ih =>
    obtain ⟨hb, hbs⟩ := List.forall_mem_cons.1 h
    obtain ⟨c, hc⟩ := Option.isSome_iff_exists.1 hb
    rw [List.filterMap_cons_some hc, List.map_cons, List.map_cons, ih hbs, hc]

theorem node?_eq_some_iff :
    g.node? s = some n ↔ ∃ u, g.indexOf? s = some u ∧ g.nodes[u]? = some n :=
  Option.bind_eq_some_iff

namespace Coherent

variable (h : Coherent g)
include h

theorem isSome_indexOf? (hp : HasFile g.nodes p) : (g.indexOf? p).isSome := by
  rwa [h.indexed.isSome_indexOf?, any_iff_hasFile]

theorem successors_of_indexOf? (hu : g.indexOf? s = some u) :
    g.successors[u]? = some ((g.dependencies s).filterMap g.indexOf?) := by
  obtain ⟨n, hn, hid⟩ := h.indexOf?_eq_some_iff.1 hu
  simp [successors, hn, dependencies_congr hid]

theorem map_some_successors (s : Path) :
    ((g.dependencies s).filterMap g.indexOf?).map some = (g.dependencies s).map g.indexOf? := by
  refine map_some_filterMap fun t ht => ?_
  obtain ⟨e, he, rfl⟩ := List.mem_map.1 ht
  exact h.isSome_indexOf? (h.joined e (List.mem_of_mem_filter he)).2

/-- A number stands for one file only. -/
theorem beq_of_indexOf?_eq (hp : g.indexOf? p = some v) (hq : g.indexOf? q = some v) :
    (p == q) = true := by
  obtain ⟨n, hn, hnp⟩ := h.indexOf?_eq_some_iff.1 hp
  obtain ⟨m, hm, hmq⟩ := h.indexOf?_eq_some_iff.1 hq
  obtain rfl := Option.some.inj (hn.symm.trans hm)
  exact BEq.trans (BEq.symm hnp) hmq

theorem mem_successors_iff : (∃ u v ws, g.indexOf? s = some u ∧ g.indexOf? t = some v ∧
    g.successors[u]? = some ws ∧ v ∈ ws) ↔ g.containsEdge s t = true := by
  rw [← contains_dependencies, List.contains_iff_exists_mem_beq]
  constructor
  · rintro ⟨u, v, ws, hu, hv, hws, hmem⟩
    rw [h.successors_of_indexOf? hu, Option.some.injEq] at hws
    subst hws
    obtain ⟨p, hp, hpv⟩ := List.mem_filterMap.1 hmem
    exact ⟨p, hp, h.beq_of_indexOf?_eq hv hpv⟩
  · rintro ⟨p, hp, htp⟩
    obtain ⟨e, he, rfl⟩ := List.mem_map.1 hp
    obtain ⟨he, hs⟩ := List.mem_filter.1 he
    obtain ⟨hsource, htarget⟩ := h.joined e he
    obtain ⟨u, hu⟩ := Option.isSome_iff_exists.1 (h.isSome_indexOf? (hsource.congr hs))
    obtain ⟨v, hv⟩ := Option.isSome_iff_exists.1 (h.isSome_indexOf? htarget)
    have hvt : g.indexOf? t = some v := by
      obtain ⟨n, hn, hid⟩ := h.indexOf?_eq_some_iff.1 hv
      exact h.indexOf?_eq_some_iff.2 ⟨n, hn, BEq.trans hid (BEq.symm htp)⟩
    exact ⟨u, v, _, hu, hvt, h.successors_of_indexOf? hu, List.mem_filterMap.2 ⟨_, hp, hv⟩⟩

theorem successors_onePass : g.edges.foldl g.link (.replicate g.nodes.length []) = g.successors := by
  refine Array.ext_getElem? fun u => ?_
  rw [getElem?_foldl_link]
  cases hn : g.nodes[u]? with
  | none =>
    have hu := List.getElem?_eq_none_iff.1 hn
    simp [successors, hu]
  | some n =>
    have hsource (e : Edge) : g.indexOf? e.source = some u ↔ (e.source == n.id) = true := by
      rw [h.indexOf?_eq_some_iff, hn, BEq.comm]
      simp
    obtain ⟨hu, rfl⟩ := List.getElem?_eq_some_iff.1 hn
    simp [successors, hu, dependencies, hsource, List.filterMap_map, List.filterMap_filter]

theorem counts (hn : g.node? s = some n) : (g.dependencies s).length = n.dependencyCount ∧
    (g.dependents s).length = n.dependentCount := by
  obtain ⟨hmem, hid⟩ := h.indexed.node?_spec hn
  rw [h.dependencyCount n hmem, h.dependentCount n hmem, dependencies, dependents, List.length_map,
    List.length_map, List.countP_eq_length_filter, List.countP_eq_length_filter]
  simp only [Path.beq_congr BEq.rfl hid, and_self]

theorem eq_nil_of_unknown (hs : g.node? s = none) :
    g.dependencies s = [] ∧ g.dependents s = [] := by
  have hnot : ¬ HasFile g.nodes s := by
    rw [← any_iff_hasFile]
    simpa [h.indexed.node?_eq] using hs
  simp only [dependencies, dependents, List.map_eq_nil_iff, List.filter_eq_nil_iff]
  exact ⟨fun e he hid => hnot ((h.joined e he).1.congr hid),
    fun e he hid => hnot ((h.joined e he).2.congr hid)⟩

end Coherent

/-- Whatever a graph has been assembled of, all ways of asking it about edges agree. -/
theorem edge_answers (nodes : List (Node α)) (edges : List Edge) :
    EdgeAnswers (assemble nodes edges) := by
  have h := coherent_assemble nodes edges
  exact
    { dependencies_iff := fun _ _ => contains_dependencies
      dependents_iff := fun _ _ => contains_dependents
      successors_iff := fun _ _ => h.mem_successors_iff
      dependencies_ascend := ascending_dependencies h.ascending
      dependents_ascend := ascending_dependents h.ascending
      successors_eq := fun s u hu => ⟨_, h.successors_of_indexOf? hu, h.map_some_successors s⟩
      successors_lt := fun ws hws w hw => by
        obtain ⟨n, -, rfl⟩ := List.mem_map.1 (List.mem_toArray.1 hws)
        obtain ⟨p, -, hp⟩ := List.mem_filterMap.1 hw
        exact indexOf?_lt hp
      successors_onePass := h.successors_onePass
      node?_iff := fun _ _ => node?_eq_some_iff
      counts := fun _ _ => h.counts
      unknown := fun _ => h.eq_nil_of_unknown }

end ModuleAtlas.Graph
