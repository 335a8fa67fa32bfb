import Mathlib.Algebra.BigOperators.Group.List.Basic
import Mathlib.Algebra.Ring.Nat
import Mathlib.Data.List.Pairwise
import ModuleAtlas.Proofs.Graph.Links
import ModuleAtlas.Proofs.Graph.Order

/-!
# Assembled graphs

What `assemble` makes of any nodes and edges is `Coherent`: no two nodes stand for one file, the index
has the place of each node, the edges ascend and join nodes, and each node has the edges at it counted.

* To enter nodes keeps the first one for each file (`nodes_foldl_enter`), with its place in the index
  (`Indexed.enter`); `distinct` says which nodes these are (`map_id_distinct`).
* `edgeSet` keeps one of equal edges (`contains_edgeSet`). What is in order already is left alone, by
  `edgeSet` and by `distinct`.
* The loop over the edges adds to the counters of a node the numbers of edges whose ends the index finds
  there (`getElem?_foldl_count`), which are the edges at the node if the index is right
  (`nodes_recount`).
* `coherent_assemble` says that assembled graphs are coherent, and `Coherent.assemble_eq` that
  assembling a coherent graph again changes nothing.
-/

namespace ModuleAtlas.Graph

variable {α : Type} {nodes : List (Node α)} {edges : List Edge} {g : Graph α} {p : Path} {v : Nat}

/-! ### The first node for each file -/

/-- No two of the nodes stand for one file. -/
def DistinctIds (nodes : List (Node α)) : Prop :=
  nodes.Pairwise fun m n => (m.id == n.id) = false

/-- The first of the nodes for each file. -/
def distinct (nodes : List (Node α)) : List (Node α) := nodes.eraseDupsBy fun n m => m.id == n.id

theorem distinct_cons (n : Node α) (ns : List (Node α)) :
    distinct (n :: ns) = n :: distinct (ns.filter fun m => !(n.id == m.id)) := by
  simp only [distinct, List.eraseDupsBy_cons, Bool.decide_eq_false]

/-- To keep the first node for each file is to keep the first one, and to go on with the nodes for
other files. -/
theorem distinct_induction {motive : List (Node α) → Prop} (nil : motive [])
    (cons : ∀ n ns, motive (ns.filter fun m => !(n.id == m.id)) → motive (n :: ns))
    (nodes : List (Node α)) : motive nodes := by
  induction h : nodes.length using Nat.strongRecOn generalizing nodes with
  | ind k ih =>
    cases nodes with
    | nil => exact nil
    | cons n ns =>
      refine cons n ns (ih _ ?_ _ rfl)
      have hle := List.length_filter_le (fun m => !(n.id == m.id)) ns
      rw [List.length_cons] at h
      omega

theorem distinct_sublist (nodes : List (Node α)) : (distinct nodes).Sublist nodes := by
  induction nodes using distinct_induction with
  | nil => exact List.Sublist.refl _
  | cons n ns ih =>
    rw [distinct_cons]
    exact (ih.trans List.filter_sublist).cons_cons n

theorem map_id_distinct (nodes : List (Node α)) :
    (distinct nodes).map (·.id) = (nodes.map (·.id)).eraseDups := by
  induction nodes using distinct_induction with
  | nil => rfl
  | cons n ns ih =>
    rw [distinct_cons, List.map_cons, ih, List.map_cons, List.eraseDups_cons, List.filter_map]
    simp only [Function.comp_def, BEq.comm (b := n.id)]

theorem distinctIds_distinct (nodes : List (Node α)) : DistinctIds (distinct nodes) := by
  induction nodes using distinct_induction with
  | nil => exact .nil
  | cons n ns ih =>
    rw [distinct_cons]
    refine List.pairwise_cons.2 ⟨fun m hm => ?_, ih⟩
    have hm := List.of_mem_filter ((distinct_sublist _).subset hm)
    simpa using hm

/-- There is a node for each file. -/
theorem exists_mem_distinct {n : Node α} (h : n ∈ nodes) :
    ∃ m ∈ distinct nodes, (m.id == n.id) = true := by
  induction nodes using distinct_induction with
  | nil => simp at h
  | cons m ns ih =>
    rw [distinct_cons]
    by_cases hm : (m.id == n.id) = true
    · exact ⟨m, List.mem_cons_self, hm⟩
    · have hn : n ∈ ns := (List.mem_cons.1 h).resolve_left (by rintro rfl; simp at hm)
      obtain ⟨k, hk, hkn⟩ := ih (List.mem_filter.2 ⟨hn, by simpa using hm⟩)
      exact ⟨k, List.mem_cons_of_mem m hk, hkn⟩

theorem distinct_eq_self (h : DistinctIds nodes) : distinct nodes = nodes := by
  induction nodes using distinct_induction with
  | nil => rfl
  | cons n ns ih =>
    obtain ⟨hn, hns⟩ := List.pairwise_cons.1 h
    have hall : (ns.filter fun m => !(n.id == m.id)) = ns :=
      List.filter_eq_self.2 fun m hm => by simp [hn m hm]
    rw [hall] at ih
    rw [distinct_cons, hall, ih hns]

/-! ### The index -/

theorem indexOf?_congr {h : Graph α} (hindex : h.index = g.index) : h.indexOf? p = g.indexOf? p := by
  rw [indexOf?, indexOf?, hindex]

theorem node?_map {h : Graph α} {f : Node α → Node α} (hnodes : h.nodes = g.nodes.map f)
    (hindex : h.index = g.index) (p : Path) : h.node? p = (g.node? p).map f := by
  rw [node?, node?, indexOf?_congr hindex, hnodes, Option.map_bind]
  refine congrArg (Option.bind (g.indexOf? p)) (funext fun i => ?_)
  rw [List.getElem?_map, Function.comp_apply]

/-- The index has the place of each node, in their order. -/
def Indexed (g : Graph α) : Prop := g.index = (g.nodes.map (·.id)).zipIdx

namespace Indexed

variable (h : g.Indexed)
include h

theorem indexOf?_eq : g.indexOf? p = g.nodes.findIdx? (·.id == p) := by
  have hfind : (g.nodes.map (·.id)).findIdx? (· == p) =
      (((g.nodes.map (·.id)).zipIdx).find? (·.1 == p)).map (·.2) :=
    List.findIdx?_eq_fst_find?_zipIdx
  rw [indexOf?, h, ← hfind, List.findIdx?_map]
  rfl

theorem isSome_indexOf? : (g.indexOf? p).isSome = g.nodes.any (·.id == p) := by
  rw [h.indexOf?_eq, List.findIdx?_isSome]

theorem node?_eq : g.node? p = g.nodes.find? (·.id == p) := by
  rw [node?, h.indexOf?_eq, List.find?_eq_bind_findIdx?_getElem?]

theorem node?_spec {n : Node α} (hn : g.node? p = some n) : n ∈ g.nodes ∧ (n.id == p) = true := by
  rw [h.node?_eq] at hn
  have hid := List.find?_some hn
  exact ⟨List.mem_of_find?_eq_some hn, hid⟩

/-- The place of a file is that of its node. -/
theorem indexOf?_eq_some_iff (hids : DistinctIds g.nodes) :
    g.indexOf? p = some v ↔ ∃ n, g.nodes[v]? = some n ∧ (n.id == p) = true := by
  rw [h.indexOf?_eq, List.findIdx?_eq_some_iff_getElem]
  constructor
  · rintro ⟨hv, hid, -⟩
    exact ⟨_, List.getElem?_eq_getElem hv, hid⟩
  · rintro ⟨n, hn, hid⟩
    obtain ⟨hv, rfl⟩ := List.getElem?_eq_some_iff.1 hn
    refine ⟨hv, hid, fun u huv hu => ?_⟩
    have hne := List.pairwise_iff_getElem.1 hids u v (Nat.lt_trans huv hv) hv huv
    rw [BEq.trans hu (BEq.symm hid)] at hne
    contradiction

theorem enter (n : Node α) : (g.enter n).Indexed := by
  rw [Graph.enter]
  split
  · exact h
  · rw [Indexed, List.map_append, List.zipIdx_append, ← h, List.length_map, Nat.zero_add]
    rfl

theorem annotate {f : Nat → Node α → Node α} (hf : ∀ i n, (f i n).id = n.id) :
    (g.annotate f).Indexed := by
  have hids : (g.nodes.mapIdx f).map (·.id) = g.nodes.map (·.id) := by
    refine List.ext_getElem? fun i => ?_
    simp [Function.comp_def, hf]
  exact h.trans (congrArg List.zipIdx hids.symm)

theorem foldl_enter (nodes : List (Node α)) : (nodes.foldl Graph.enter g).Indexed := by
  induction nodes generalizing g with
  | nil => exact h
  | cons n ns ih => exact ih (h.enter n)

/-- A node is entered unless one of those that are there stands for its file. -/
theorem nodes_foldl_enter (nodes : List (Node α)) : (nodes.foldl Graph.enter g).nodes =
    List.eraseDupsBy.loop (fun n m => m.id == n.id) nodes g.nodes.reverse := by
  induction nodes generalizing g with
  | nil => simp [List.eraseDupsBy.loop]
  | cons n ns ih =>
    rw [List.foldl_cons, ih (h.enter n), List.eraseDupsBy.loop, List.any_reverse, Graph.enter,
      h.isSome_indexOf?]
    cases g.nodes.any (·.id == n.id) <;> simp

end Indexed

theorem indexed_empty : (empty : Graph α).Indexed := rfl

theorem nodes_entered (nodes : List (Node α)) : (nodes.foldl enter empty).nodes = distinct nodes :=
  indexed_empty.nodes_foldl_enter nodes

/-! ### The set of edges -/

/-- The edges in ascending order, none of them twice. -/
def Ascending (edges : List Edge) : Prop := edges.Pairwise fun e f => compare e f = .lt

theorem mergeEqual_sublist (edges : List Edge) : (mergeEqual edges).Sublist edges := by
  fun_induction mergeEqual edges with
  | case1 e f rest he ih => exact ih.cons e
  | case2 e f rest he ih => exact ih.cons_cons e
  | case3 => exact List.Sublist.refl _

theorem exists_mem_mergeEqual {e : Edge} (h : e ∈ edges) :
    ∃ f ∈ mergeEqual edges, (f == e) = true := by
  fun_induction mergeEqual edges generalizing e with
  | case1 d f rest hdf ih =>
    rcases List.mem_cons.1 h with rfl | h
    · obtain ⟨k, hk, hkf⟩ := ih List.mem_cons_self
      exact ⟨k, hk, BEq.trans hkf (BEq.symm hdf)⟩
    · exact ih h
  | case2 d f rest hdf ih =>
    rcases List.mem_cons.1 h with rfl | h
    · exact ⟨e, List.mem_cons_self, BEq.rfl⟩
    · obtain ⟨k, hk, hke⟩ := ih h
      exact ⟨k, List.mem_cons_of_mem d hk, hke⟩
  | case3 => exact ⟨e, h, BEq.rfl⟩

theorem ascending_mergeEqual (h : edges.Pairwise fun e f => (compare e f).isLE = true) :
    Ascending (mergeEqual edges) := by
  fun_induction mergeEqual edges with
  | case1 e f rest he ih => exact ih h.tail
  | case2 e f rest he ih =>
    obtain ⟨hle, htail⟩ := List.pairwise_cons.1 h
    refine List.pairwise_cons.2 ⟨fun k hk => ?_, ih htail⟩
    have hlt : compare e f = .lt := by
      have hne : compare e f ≠ .eq := mt Edge.compare_eq_iff.1 he
      have hef := hle f List.mem_cons_self
      revert hne hef
      cases compare e f <;> simp
    -- what follows is `f`, or not less than `f`
    rcases List.mem_cons.1 ((mergeEqual_sublist _).subset hk) with rfl | hk
    · exact hlt
    · exact Std.TransCmp.lt_of_lt_of_isLE hlt ((List.pairwise_cons.1 htail).1 k hk)
  | case3 es hes =>
    match es, hes with
    | [], _ => exact .nil
    | [e], _ => exact List.pairwise_singleton _ e
    | e :: f :: rest, hes => exact absurd rfl (hes e f rest)

theorem mergeEqual_eq_self (h : Ascending edges) : mergeEqual edges = edges := by
  fun_induction mergeEqual edges with
  | case1 e f rest he ih =>
    have hlt := (List.pairwise_cons.1 h).1 f List.mem_cons_self
    rw [Edge.compare_eq_iff.2 he] at hlt
    contradiction
  | case2 e f rest he ih => rw [ih h.tail]
  | case3 => rfl

theorem mem_of_mem_edgeSet {e : Edge} (h : e ∈ edgeSet edges) : e ∈ edges :=
  List.mem_mergeSort.1 ((mergeEqual_sublist _).subset h)

theorem contains_edgeSet (edges : List Edge) (e : Edge) :
    (edgeSet edges).contains e = edges.contains e := by
  rw [Bool.eq_iff_iff, List.contains_iff_exists_mem_beq, List.contains_iff_exists_mem_beq]
  constructor
  · rintro ⟨f, hf, he⟩
    exact ⟨f, mem_of_mem_edgeSet hf, he⟩
  · rintro ⟨f, hf, he⟩
    obtain ⟨k, hk, hkf⟩ := exists_mem_mergeEqual (List.mem_mergeSort.2 hf)
    exact ⟨k, hk, BEq.trans he (BEq.symm hkf)⟩

theorem ascending_edgeSet (edges : List Edge) : Ascending (edgeSet edges) :=
  ascending_mergeEqual (pairwise_mergeSort_compare (fun e => e) edges)

theorem edgeSet_eq_self (h : Ascending edges) : edgeSet edges = edges := by
  rw [edgeSet, List.mergeSort_of_pairwise, mergeEqual_eq_self h]
  exact h.imp fun hlt => by simp [hlt]

/-! ### Counts -/

/-- The node with the edges at it counted. -/
def counted (edges : List Edge) (n : Node α) : Node α :=
  { n with
    dependencyCount := edges.countP (·.source == n.id)
    dependentCount := edges.countP (·.target == n.id) }

theorem index_change (g : Graph α) (p : Path) (f : Node α → Node α) :
    (g.change p f).index = g.index := by
  rw [change]
  split <;> rfl

theorem edges_change (g : Graph α) (p : Path) (f : Node α → Node α) :
    (g.change p f).edges = g.edges := by
  rw [change]
  split <;> rfl

theorem getElem?_change (g : Graph α) (p : Path) (f : Node α → Node α) (u : Nat) :
    (g.change p f).nodes[u]? = g.nodes[u]?.map fun n => if g.indexOf? p = some u then f n else n := by
  rw [change]
  split
  · next i hi => simp [hi, List.getElem?_modify]
  · next hi => simp [hi]

theorem index_count (g : Graph α) (e : Edge) : (g.count e).index = g.index := by
  rw [count, index_change, index_change]

theorem edges_count (g : Graph α) (e : Edge) : (g.count e).edges = g.edges := by
  rw [count, edges_change, edges_change]

theorem index_foldl_count (edges : List Edge) (g : Graph α) :
    (edges.foldl count g).index = g.index := by
  induction edges generalizing g with
  | nil => rfl
  | cons e es ih => rw [List.foldl_cons, ih, index_count]

theorem edges_foldl_count (edges : List Edge) (g : Graph α) :
    (edges.foldl count g).edges = g.edges := by
  induction edges generalizing g with
  | nil => rfl
  | cons e es ih => rw [List.foldl_cons, ih, edges_count]

theorem indexOf?_annotate (g : Graph α) (f : Nat → Node α → Node α) :
    (g.annotate f).indexOf? p = g.indexOf? p := rfl

/-- Each edge adds one to the counter of the node at which the index finds its end. -/
theorem getElem?_foldl_count (edges : List Edge) (g : Graph α) (u : Nat) :
    (edges.foldl count g).nodes[u]? = g.nodes[u]?.map fun n =>
      { n with
        dependencyCount := n.dependencyCount + edges.countP fun e => g.indexOf? e.source = some u
        dependentCount := n.dependentCount + edges.countP fun e => g.indexOf? e.target = some u } := by
  induction edges generalizing g with
  | nil => simp
  | cons e es ih =>
    rw [List.foldl_cons, ih]
    simp only [count, getElem?_change, indexOf?_congr (index_change _ _ _), Option.map_map,
      List.countP_cons, Function.comp_def]
    refine congrArg (Option.map · g.nodes[u]?) (funext fun n => ?_)
    by_cases hsource : g.indexOf? e.source = some u <;>
      by_cases htarget : g.indexOf? e.target = some u <;>
      simp [hsource, htarget, Nat.add_assoc, Nat.add_comm 1]

theorem index_recount (g : Graph α) : g.recount.index = g.index := index_foldl_count _ _

theorem edges_recount (g : Graph α) : g.recount.edges = g.edges := edges_foldl_count _ _

/-- Where the index is right, the counters have the numbers of the edges at the nodes. -/
theorem nodes_recount (h : g.Indexed) (hids : DistinctIds g.nodes) :
    g.recount.nodes = g.nodes.map (counted g.edges) := by
  refine List.ext_getElem? fun u => ?_
  rw [recount, getElem?_foldl_count, List.getElem?_map]
  simp only [indexOf?_annotate]
  cases hn : g.nodes[u]? with
  | none => simp [annotate, hn]
  | some n =>
    have hindex (p : Path) : g.indexOf? p = some u ↔ (p == n.id) = true := by
      rw [h.indexOf?_eq_some_iff hids, hn, BEq.comm]
      simp
    simp [annotate, hn, counted, hindex]

/-! ### Coherent graphs -/

/-- One of the nodes stands for the file. -/
def HasFile (nodes : List (Node α)) (p : Path) : Prop := ∃ n ∈ nodes, (n.id == p) = true

theorem any_iff_hasFile : nodes.any (·.id == p) = true ↔ HasFile nodes p := List.any_eq_true

theorem HasFile.congr {q : Path} (h : HasFile nodes p) (hpq : (p == q) = true) :
    HasFile nodes q := by
  obtain ⟨n, hn, hid⟩ := h
  exact ⟨n, hn, BEq.trans hid hpq⟩

/-- Which files have nodes depends on the paths of the nodes only. -/
theorem hasFile_congr {β : Type} {nodes' : List (Node β)}
    (h : nodes.map (·.id) = nodes'.map (·.id)) : HasFile nodes p ↔ HasFile nodes' p := by
  have hids {γ : Type} (ns : List (Node γ)) :
      HasFile ns p ↔ ∃ q ∈ ns.map (·.id), (q == p) = true := by
    simp [HasFile]
  rw [hids, hids, h]

theorem hasFile_distinct : HasFile (distinct nodes) p ↔ HasFile nodes p := by
  constructor
  · rintro ⟨n, hn, hid⟩
    exact ⟨n, (distinct_sublist nodes).subset hn, hid⟩
  · rintro ⟨n, hn, hid⟩
    obtain ⟨m, hm, hmn⟩ := exists_mem_distinct hn
    exact ⟨m, hm, BEq.trans hmn hid⟩

/-- What assembling sees to: one node for each file, with its place in the index, edges in order and
between nodes, and the right counts. -/
structure Coherent (g : Graph α) : Prop where
  indexed : g.Indexed
  ids : DistinctIds g.nodes
  ascending : Ascending g.edges
  joined : ∀ e ∈ g.edges, HasFile g.nodes e.source ∧ HasFile g.nodes e.target
  dependencyCount : ∀ n ∈ g.nodes, n.dependencyCount = g.edges.countP (·.source == n.id)
  dependentCount : ∀ n ∈ g.nodes, n.dependentCount = g.edges.countP (·.target == n.id)

theorem indexed_entered (nodes : List (Node α)) : (nodes.foldl enter empty).Indexed :=
  indexed_empty.foldl_enter nodes

theorem isSome_indexOf?_entered :
    ((nodes.foldl enter empty).indexOf? p).isSome = true ↔ HasFile nodes p := by
  rw [(indexed_entered nodes).isSome_indexOf?, nodes_entered, any_iff_hasFile, hasFile_distinct]

/-- The edges of an assembled graph are the given ones that join nodes, as a set. -/
theorem edges_assemble (nodes : List (Node α)) (edges : List Edge) : (assemble nodes edges).edges =
    edgeSet (edges.filter fun e => ((nodes.foldl enter empty).indexOf? e.source).isSome &&
      ((nodes.foldl enter empty).indexOf? e.target).isSome) := by
  rw [assemble, edges_recount]

theorem nodes_assemble (nodes : List (Node α)) (edges : List Edge) :
    (assemble nodes edges).nodes =
      (distinct nodes).map (counted (assemble nodes edges).edges) := by
  rw [edges_assemble, ← nodes_entered]
  refine nodes_recount (indexed_entered nodes) ?_
  rw [nodes_entered]
  exact distinctIds_distinct nodes

theorem map_id_assemble (nodes : List (Node α)) (edges : List Edge) :
    (assemble nodes edges).nodes.map (·.id) = (distinct nodes).map (·.id) := by
  rw [nodes_assemble, List.map_map]
  rfl

theorem indexed_assemble (nodes : List (Node α)) (edges : List Edge) :
    (assemble nodes edges).Indexed := by
  rw [Indexed, map_id_assemble, ← nodes_entered, ← indexed_entered, assemble, index_recount]

theorem hasFile_assemble : HasFile (assemble nodes edges).nodes p ↔ HasFile nodes p :=
  (hasFile_congr (map_id_assemble nodes edges)).trans hasFile_distinct

theorem mem_edges_assemble {e : Edge} (h : e ∈ (assemble nodes edges).edges) :
    e ∈ edges ∧ HasFile nodes e.source ∧ HasFile nodes e.target := by
  rw [edges_assemble] at h
  obtain ⟨he, hends⟩ := List.mem_filter.1 (mem_of_mem_edgeSet h)
  rw [Bool.and_eq_true, isSome_indexOf?_entered, isSome_indexOf?_entered] at hends
  exact ⟨he, hends⟩

/-- The edges are those of the given ones that join two nodes. -/
theorem contains_assemble {e : Edge} : (assemble nodes edges).edges.contains e = true ↔
    edges.contains e = true ∧ HasFile nodes e.source ∧ HasFile nodes e.target := by
  rw [edges_assemble, contains_edgeSet, List.contains_iff_exists_mem_beq,
    List.contains_iff_exists_mem_beq]
  simp only [List.mem_filter, Bool.and_eq_true, isSome_indexOf?_entered]
  constructor
  · rintro ⟨f, ⟨hf, hs, ht⟩, he⟩
    obtain ⟨hes, het⟩ := Edge.beq_iff.1 he
    exact ⟨⟨f, hf, he⟩, hs.congr (BEq.symm hes), ht.congr (BEq.symm het)⟩
  · rintro ⟨⟨f, hf, he⟩, hs, ht⟩
    obtain ⟨hes, het⟩ := Edge.beq_iff.1 he
    exact ⟨f, ⟨hf, hs.congr hes, ht.congr het⟩, he⟩

theorem coherent_assemble (nodes : List (Node α)) (edges : List Edge) :
    Coherent (assemble nodes edges) where
  indexed := indexed_assemble nodes edges
  ids := by
    rw [nodes_assemble]
    exact List.pairwise_map.2 (distinctIds_distinct nodes)
  ascending := by
    rw [edges_assemble]
    exact ascending_edgeSet _
  joined e he := by
    rw [hasFile_assemble, hasFile_assemble]
    exact (mem_edges_assemble he).2
  dependencyCount n hn := by
    rw [nodes_assemble] at hn
    obtain ⟨m, -, rfl⟩ := List.mem_map.1 hn
    rfl
  dependentCount n hn := by
    rw [nodes_assemble] at hn
    obtain ⟨m, -, rfl⟩ := List.mem_map.1 hn
    rfl

/-! ### Graphs of files -/

theorem contains_edgesOf {files : List SourceFile} {u v : Path} :
    (edgesOf files).contains ⟨u, v⟩ = true ↔
      ∃ f ∈ files, ∃ d ∈ f.dependencies, (f.path == u) = true ∧ (d == v) = true := by
  rw [List.contains_iff_exists_mem_beq]
  simp only [edgesOf, List.mem_flatMap, List.mem_map, Edge.beq_iff]
  constructor
  · rintro ⟨_, ⟨f, hf, d, hd, rfl⟩, hu, hv⟩
    exact ⟨f, hf, d, hd, BEq.symm hu, BEq.symm hv⟩
  · rintro ⟨f, hf, d, hd, hu, hv⟩
    exact ⟨_, ⟨f, hf, d, hd, rfl⟩, BEq.symm hu, BEq.symm hv⟩

theorem hasFile_ofFile {files : List SourceFile} {origin : Position α} :
    HasFile (files.map (Node.ofFile origin)) p ↔ ∃ f ∈ files, (f.path == p) = true := by
  simp [HasFile, Node.ofFile]

/-- There is an edge for each import whose target is a file of the graph. -/
theorem containsEdge_ofFiles {files : List SourceFile} {origin : Position α} {u v : Path} :
    (ofFiles origin files).containsEdge u v = true ↔
      ∃ f ∈ files, ∃ k ∈ files, (f.path == u) = true ∧ (k.path == v) = true ∧
        ∃ d ∈ f.dependencies, (d == k.path) = true := by
  rw [containsEdge, ofFiles, contains_assemble, contains_edgesOf, hasFile_ofFile, hasFile_ofFile]
  constructor
  · rintro ⟨⟨f, hf, d, hd, hu, hv⟩, -, k, hk, hkv⟩
    exact ⟨f, hf, k, hk, hu, hkv, d, hd, BEq.trans hv (BEq.symm hkv)⟩
  · rintro ⟨f, hf, k, hk, hu, hv, d, hd, hdk⟩
    exact ⟨⟨f, hf, d, hd, hu, BEq.trans hdk hv⟩, ⟨f, hf, hu⟩, ⟨k, hk, hv⟩⟩

/-! ### Numbers -/

theorem countP_id_eq_one (h : DistinctIds nodes) (hp : HasFile nodes p) :
    nodes.countP (·.id == p) = 1 := by
  induction nodes with
  | nil => simp [HasFile] at hp
  | cons n ns ih =>
    obtain ⟨hn, hns⟩ := List.pairwise_cons.1 h
    by_cases hid : (n.id == p) = true
    · have hnone : ns.countP (·.id == p) = 0 := by
        refine List.countP_eq_zero.2 fun m hm hmp => ?_
        have hnm : (n.id == m.id) = true := BEq.trans hid (BEq.symm hmp)
        simp [hn m hm] at hnm
      simp [hid, hnone]
    · have hp : HasFile ns p := by
        obtain ⟨m, hm, hmp⟩ := hp
        rcases List.mem_cons.1 hm with rfl | hm
        · exact absurd hmp hid
        · exact ⟨m, hm, hmp⟩
      simp [hid, ih hns hp]

theorem sum_indicator (f : Node α → Bool) (nodes : List (Node α)) :
    (nodes.map fun n => if f n then 1 else 0).sum = nodes.countP f := by
  induction nodes with
  | nil => rfl
  | cons n ns ih => rw [List.map_cons, List.sum_cons, ih, List.countP_cons, Nat.add_comm]

/-- If each edge is counted at one node, the counts add up to the number of edges. -/
theorem sum_countP (f : Node α → Edge → Bool)
    (h : ∀ e ∈ edges, nodes.countP (fun n => f n e) = 1) :
    (nodes.map fun n => edges.countP (f n)).sum = edges.length := by
  induction edges with
  | nil => simp
  | cons e es ih =>
    obtain ⟨he, hes⟩ := List.forall_mem_cons.1 h
    simp only [List.countP_cons, List.sum_map_add, sum_indicator, he, ih hes, List.length_cons]

namespace Coherent

variable (h : Coherent g)
include h

/-- The number of a file is the place of its node. -/
theorem indexOf?_eq_some_iff :
    g.indexOf? p = some v ↔ ∃ n, g.nodes[v]? = some n ∧ (n.id == p) = true :=
  h.indexed.indexOf?_eq_some_iff h.ids

theorem sum_dependencyCount : (g.nodes.map (·.dependencyCount)).sum = g.edges.length := by
  rw [List.map_congr_left h.dependencyCount]
  refine sum_countP (fun n e => e.source == n.id) fun e he => ?_
  simp only [BEq.comm (a := e.source)]
  exact countP_id_eq_one h.ids (h.joined e he).1

theorem sum_dependentCount : (g.nodes.map (·.dependentCount)).sum = g.edges.length := by
  rw [List.map_congr_left h.dependentCount]
  refine sum_countP (fun n e => e.target == n.id) fun e he => ?_
  simp only [BEq.comm (a := e.target)]
  exact countP_id_eq_one h.ids (h.joined e he).2

theorem counted_eq_self {n : Node α} (hn : n ∈ g.nodes) : counted g.edges n = n := by
  rw [counted, ← h.dependencyCount n hn, ← h.dependentCount n hn]

/-- A graph put together again from its own nodes and edges is the same graph. -/
theorem assemble_eq : assemble g.nodes g.edges = g := by
  have hedges : (assemble g.nodes g.edges).edges = g.edges := by
    rw [edges_assemble, List.filter_eq_self.2, edgeSet_eq_self h.ascending]
    intro e he
    rw [Bool.and_eq_true, isSome_indexOf?_entered, isSome_indexOf?_entered]
    exact h.joined e he
  have hnodes : (assemble g.nodes g.edges).nodes = g.nodes := by
    rw [nodes_assemble, hedges, distinct_eq_self h.ids,
      List.map_congr_left fun n hn => h.counted_eq_self hn, List.map_id']
  have hindex : (assemble g.nodes g.edges).index = g.index := by
    rw [indexed_assemble, hnodes, h.indexed]
  exact Graph.ext hnodes hindex hedges

end Coherent

end ModuleAtlas.Graph
