import ModuleAtlas.Proofs.Graph.Spelling

/-!
# How files are presented

The graph of a list of files does not depend on how the list presents them. If no file comes twice,
another order of the files changes the order of the nodes only, and neither the order of imports nor
how often they are listed changes anything. If a file comes more than once, all its imports count,
and all else is taken from where it comes first: the list can as well be `merged`.

* Which edges are asked for can be said file by file (`contains_edgesOf_eq`), so it is the same for
  lists with the same files and imports.
* A node is found by its path wherever it stands (`find?_perm`).
* `ofFiles_presented` has both cases.
-/

namespace ModuleAtlas

variable {α : Type}

/-- The second file has the path and the name of the first, and the same imports in whatever order and
number. -/
structure SourceFile.Agrees (f k : SourceFile) : Prop where
  path : (f.path == k.path) = true
  displayName : f.displayName = k.displayName
  imports : ∀ p, f.dependencies.contains p = k.dependencies.contains p

namespace Graph

variable {nodes nodes' : List (Node α)} {g h : Graph α} {p : Path} {n : Node α}
  {files files' : List SourceFile}

/-- No two of the files have the same path. -/
def DistinctPaths (files : List SourceFile) : Prop :=
  files.Pairwise fun f k => (f.path == k.path) = false

/-- The second list has the files of the first one in any order. -/
def Rearranged (files files' : List SourceFile) : Prop :=
  ∃ fs, List.Forall₂ SourceFile.Agrees files fs ∧ fs.Perm files'

/-- The list with each file where it comes first, and with all imports of the file there. -/
def merged : List SourceFile → List SourceFile
  | [] => []
  | f :: fs =>
    let again := fs.filter fun k => f.path == k.path
    { f with dependencies := f.dependencies ++ again.flatMap (·.dependencies) } ::
      merged (fs.filter fun k => !(f.path == k.path))
termination_by fs => fs.length
decreasing_by
  simp only [List.unattach_filter, List.unattach_attach, List.length_cons]
  exact Nat.lt_succ_of_le (List.length_filter_le _ fs)

/-- The second graph has the edges of the first one, and its nodes in any order. -/
structure Reordered (g h : Graph α) : Prop where
  edges : SameEdges g.edges h.edges
  nodes : ∃ ns, List.Forall₂ Node.Same g.nodes ns ∧ ns.Perm h.nodes
  node? : ∀ p q, (p == q) = true → Option.Rel Node.Same (g.node? p) (h.node? q)

/-! ### Another order -/

theorem contains_edgesOf_eq (files : List SourceFile) (e : Edge) : (edgesOf files).contains e =
    files.any fun f => f.path == e.source && f.dependencies.contains e.target := by
  rw [Bool.eq_iff_iff, contains_edgesOf, List.any_eq_true]
  simp only [Bool.and_eq_true, List.contains_iff_exists_mem_beq, BEq.comm (a := e.target)]
  refine exists_congr fun f => and_congr_right fun _ => ?_
  constructor
  · rintro ⟨d, hd, hu, hv⟩
    exact ⟨hu, d, hd, hv⟩
  · rintro ⟨hu, d, hd, hv⟩
    exact ⟨d, hd, hu, hv⟩

theorem Rearranged.contains_edgesOf (hr : Rearranged files files') (e : Edge) :
    (edgesOf files).contains e = (edgesOf files').contains e := by
  obtain ⟨fs, hagree, hperm⟩ := hr
  rw [contains_edgesOf_eq, contains_edgesOf_eq, ← hperm.any_eq]
  exact any_eq_of_forall₂ hagree fun f k hfk => by
    rw [Path.beq_congr hfk.path BEq.rfl, hfk.imports]

theorem distinctPaths_iff : DistinctPaths files ↔ (files.map (·.path.components)).Nodup := by
  rw [DistinctPaths, List.nodup_iff_pairwise_ne, List.pairwise_map]
  simp only [← Bool.not_eq_true, Path.beq_iff]

theorem Rearranged.distinctPaths (hr : Rearranged files files') (h : DistinctPaths files) :
    DistinctPaths files' := by
  obtain ⟨fs, hagree, hperm⟩ := hr
  rw [distinctPaths_iff] at h ⊢
  have hmap : files.map (·.path.components) = fs.map (·.path.components) :=
    map_eq_of_forall₂ hagree fun f k hfk => (Path.beq_iff _ _).1 hfk.path
  rw [hmap] at h
  exact (hperm.map _).nodup_iff.1 h

theorem DistinctPaths.distinctIds (h : DistinctPaths files) (origin : Position α) :
    DistinctIds (files.map (Node.ofFile origin)) := List.pairwise_map.2 h

theorem find?_eq_some_iff (h : DistinctIds nodes) :
    nodes.find? (·.id == p) = some n ↔ n ∈ nodes ∧ (n.id == p) = true := by
  constructor
  · intro hfind
    have hid := List.find?_some hfind
    exact ⟨List.mem_of_find?_eq_some hfind, hid⟩
  · rintro ⟨hn, hid⟩
    obtain ⟨before, behind, rfl⟩ := List.append_of_mem hn
    obtain ⟨-, -, hbefore⟩ := List.pairwise_append.1 h
    refine List.find?_eq_some_iff_append.2 ⟨hid, before, behind, rfl, fun m hm => ?_⟩
    have hne := hbefore m hm n List.mem_cons_self
    rw [← Path.beq_congr BEq.rfl hid, hne]
    rfl

/-- Which node stands for a file does not depend on the order. -/
theorem find?_perm (hperm : nodes.Perm nodes') (h : DistinctIds nodes') :
    nodes.find? (·.id == p) = nodes'.find? (·.id == p) := by
  have h' : DistinctIds nodes :=
    (hperm.pairwise_iff fun {m n} hmn => by rwa [BEq.comm]).2 h
  refine Option.ext fun n => ?_
  rw [find?_eq_some_iff h, find?_eq_some_iff h', hperm.mem_iff]

theorem reordered (nodes : List (Node α)) (hedges : SameEdges g.edges h.edges)
    (hnodes : List.Forall₂ Node.Same g.nodes nodes) (hperm : nodes.Perm h.nodes)
    (hids : DistinctIds h.nodes) (hg : g.Indexed) (hh : h.Indexed) : Reordered g h where
  edges := hedges
  nodes := ⟨nodes, hnodes, hperm⟩
  node? p q hp := by
    rw [hg.node?_eq, hh.node?_eq, ← find?_perm hperm hids]
    exact rel_find? hnodes fun _ _ hnm => Path.beq_congr hnm.id hp

theorem nodes_assign (r : RoleRules) (g : Graph α) :
    (r.assign g).nodes = g.nodes.map fun n => { n with role := r.roleOf n } := by
  refine List.ext_getElem? fun i => ?_
  simp [RoleRules.assign, annotate]

theorem Reordered.assign (hgh : Reordered g h) (hg : g.Indexed) (hh : h.Coherent) (r : RoleRules) :
    Reordered (r.assign g) (r.assign h) := by
  obtain ⟨ns, hnodes, hperm⟩ := hgh.nodes
  refine reordered (ns.map fun n => { n with role := r.roleOf n }) hgh.edges ?_ ?_ ?_
    (hg.annotate fun _ _ => rfl) (hh.indexed.annotate fun _ _ => rfl)
  · rw [nodes_assign, List.forall₂_map_left_iff, List.forall₂_map_right_iff]
    refine hnodes.imp ?_
    rintro n _ ⟨p, hp, rfl⟩
    exact ⟨p, hp, rfl⟩
  · rw [nodes_assign]
    exact hperm.map _
  · rw [nodes_assign]
    exact List.pairwise_map.2 hh.ids

theorem nodes_ofFiles (h : DistinctPaths files) (origin : Position α) :
    (ofFiles origin files).nodes =
      files.map fun f => counted (ofFiles origin files).edges (.ofFile origin f) := by
  conv_lhs => rw [ofFiles, nodes_assemble, distinct_eq_self (h.distinctIds origin), List.map_map]
  rfl

theorem map_id_ofFiles (h : DistinctPaths files) (origin : Position α) :
    (ofFiles origin files).nodes.map (·.id) = files.map (·.path) := by
  rw [nodes_ofFiles h, List.map_map]
  rfl

theorem Rearranged.reordered (hr : Rearranged files files') (h : DistinctPaths files)
    (origin : Position α) : Reordered (ofFiles origin files) (ofFiles origin files') := by
  have h' := hr.distinctPaths h
  have hfiles (p : Path) : HasFile (files.map (Node.ofFile origin)) p ↔
      HasFile (files'.map (Node.ofFile origin)) p := by
    obtain ⟨fs, hagree, hperm⟩ := hr
    have hsame : HasFile (files.map (Node.ofFile origin)) p ↔
        HasFile (fs.map (Node.ofFile origin)) p :=
      hasFile_same (List.rel_map (fun f k hfk => Node.same_ofFile origin hfk.path hfk.displayName)
        hagree)
    rw [hsame, hasFile_ofFile, hasFile_ofFile]
    simp only [hperm.mem_iff]
  have hedges : SameEdges (ofFiles origin files).edges (ofFiles origin files').edges :=
    sameEdges_assemble hfiles hr.contains_edgesOf
  obtain ⟨fs, hagree, hperm⟩ := hr
  refine Graph.reordered (fs.map fun f => counted (ofFiles origin files').edges (.ofFile origin f))
    hedges ?_ ?_ (coherent_assemble _ _).ids (indexed_assemble _ _) (indexed_assemble _ _)
  · rw [nodes_ofFiles h, List.forall₂_map_left_iff, List.forall₂_map_right_iff]
    exact hagree.imp fun f k hfk =>
      same_counted hedges (Node.same_ofFile origin hfk.path hfk.displayName)
  · rw [nodes_ofFiles h']
    exact hperm.map _

/-! ### Files that come again -/

theorem merged_induction {motive : List SourceFile → Prop} (nil : motive [])
    (cons : ∀ f fs, motive (fs.filter fun k => !(f.path == k.path)) → motive (f :: fs))
    (files : List SourceFile) : motive files := by
  fun_induction merged files with
  | case1 => exact nil
  | case2 f fs ih =>
    simp only [List.unattach_filter, List.unattach_attach] at ih
    exact cons f fs ih

theorem map_ofFile_merged (origin : Position α) (files : List SourceFile) :
    (merged files).map (Node.ofFile origin) = distinct (files.map (Node.ofFile origin)) := by
  induction files using merged_induction with
  | nil => rw [merged]; rfl
  | cons f fs ih =>
    rw [merged, List.map_cons, List.map_cons, distinct_cons, ih, List.filter_map]
    rfl

/-- A file asks for an edge if the first file does, and it is that file again, or if it is another one
and asks for it. -/
theorem any_again (f : SourceFile) (fs : List SourceFile) (p q : Path) :
    (fs.any fun k => k.path == p && k.dependencies.contains q) =
      (f.path == p && (fs.any fun k => f.path == k.path && k.dependencies.contains q) ||
        fs.any fun k => !(f.path == k.path) && (k.path == p && k.dependencies.contains q)) := by
  induction fs with
  | nil => simp
  | cons k ks ih =>
    rw [List.any_cons, List.any_cons, List.any_cons, ih]
    cases hk : f.path == k.path with
    | false => simp [Bool.or_left_comm]
    | true => simp [Path.beq_congr hk (q := p) BEq.rfl, Bool.and_or_distrib_left, Bool.or_assoc]

theorem contains_edgesOf_merged (files : List SourceFile) (e : Edge) :
    (edgesOf (merged files)).contains e = (edgesOf files).contains e := by
  rw [contains_edgesOf_eq, contains_edgesOf_eq]
  induction files using merged_induction with
  | nil => rw [merged]
  | cons f fs ih =>
    rw [merged, List.any_cons, List.any_cons, ih, any_again f fs, List.any_filter]
    simp only [List.contains_append, List.contains_flatMap, List.any_filter,
      Bool.and_or_distrib_left, Bool.or_assoc]

theorem distinctPaths_merged (files : List SourceFile) : DistinctPaths (merged files) := by
  have h := distinctIds_distinct (files.map (Node.ofFile (⟨(), ()⟩ : Position Unit)))
  rw [← map_ofFile_merged] at h
  exact List.pairwise_map.1 h

/-- A list of files can be presented in any order, or merged. -/
theorem ofFiles_presented (origin : Position α) (r : RoleRules) (files : List SourceFile) :
    (∀ files', DistinctPaths files → Rearranged files files' →
      Reordered (ofFiles origin files) (ofFiles origin files') ∧
      Reordered (r.assign (ofFiles origin files)) (r.assign (ofFiles origin files')) ∧
      (ofFiles origin files).nodes.map (·.id) = files.map (·.path) ∧
      (ofFiles origin files').nodes.map (·.id) = files'.map (·.path)) ∧
    DistinctPaths (merged files) ∧
    Same (ofFiles origin files) (ofFiles origin (merged files)) := by
  refine ⟨fun files' hdistinct hr => ?_, distinctPaths_merged files, ?_⟩
  · have hgh := hr.reordered hdistinct origin
    exact ⟨hgh, hgh.assign (indexed_assemble _ _) (coherent_assemble _ _) r,
      map_id_ofFiles hdistinct origin,
      map_id_ofFiles (hr.distinctPaths hdistinct) origin⟩
  · refine same_assemble ?_ fun e => (contains_edgesOf_merged files e).symm
    rw [map_ofFile_merged, distinct_eq_self (distinctIds_distinct _)]
    exact List.forall₂_same.2 fun n _ => ⟨n.id, BEq.rfl, rfl⟩

/-- The files of `plainlySpelt` the other way round, with imports that are listed again. -/
def swapped : List SourceFile :=
  [⟨⟨[98]⟩, "b", [⟨[97]⟩, ⟨[97, 47]⟩]⟩, ⟨⟨[97]⟩, "a", [⟨[98]⟩, ⟨[98]⟩]⟩]

/-- There is an import either way, and none comes twice. -/
theorem ofFiles_presented_swapped :
    DistinctPaths plainlySpelt ∧ Rearranged plainlySpelt swapped ∧
    SameEdges [⟨⟨[97]⟩, ⟨[98]⟩⟩, ⟨⟨[98]⟩, ⟨[97]⟩⟩]
      (ofFiles (.origin : Position Float) swapped).edges ∧
    (ofFiles (.origin : Position Float) swapped).nodes.map (·.id) = [⟨[98]⟩, ⟨[97]⟩] := by
  have hdistinct : DistinctPaths plainlySpelt := distinctPaths_iff.2 (by decide +kernel)
  have hr : Rearranged plainlySpelt swapped := by
    refine ⟨swapped.reverse, .cons ⟨by cbv, rfl, fun p => ?_⟩
      (.cons ⟨by cbv, rfl, fun p => ?_⟩ .nil), List.reverse_perm swapped⟩
    · simp
    · have hslash : (p == ⟨[97, 47]⟩) = (p == ⟨[97]⟩) := Path.beq_congr BEq.rfl (by cbv)
      simp [hslash]
  obtain ⟨hordered, -, -⟩ := ofFiles_presented (.origin : Position Float) .standard plainlySpelt
  obtain ⟨hgh, -, -, hids⟩ := hordered swapped hdistinct hr
  have hedges : (ofFiles (.origin : Position Float) plainlySpelt).edges =
      [⟨⟨[97]⟩, ⟨[98]⟩⟩, ⟨⟨[98]⟩, ⟨[97]⟩⟩] := by
    generalize (.origin : Position Float) = origin
    cbv
  refine ⟨hdistinct, hr, ?_, hids⟩
  rw [← hedges]
  exact hgh.edges

end Graph

end ModuleAtlas
