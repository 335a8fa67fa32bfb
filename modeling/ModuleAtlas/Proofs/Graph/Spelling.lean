import Mathlib
import ModuleAtlas.Proofs.Graph.Stages

/-!
# Spelling

A graph knows files by the components of their paths, and not by the way in which these are written.
Two graphs that are the same but for that (`Graph.Same`) give the same answers (`Same.sameAnswers`),
and stages make such graphs of them again (`Same.markCycles`, `Same.assign`, `Same.layout`).

* Ascending edges are determined, up to spelling, by which edges they contain (`Ascending.forall₂`),
  so graphs are assembled alike of nodes and edges that are the same up to spelling
  (`same_assemble`).
* `ofFiles_respelled` puts this together for lists of files.
-/

namespace ModuleAtlas

variable {α β γ : Type}

/-! ### Paths and edges -/

theorem map_eq_of_forall₂ {R : α → β → Prop} {l : List α} {l' : List β} {f : α → γ} {f' : β → γ}
    (h : List.Forall₂ R l l') (hR : ∀ a b, R a b → f a = f' b) : l.map f = l'.map f' := by
  rw [← List.forall₂_eq_eq_eq, List.forall₂_map_left_iff, List.forall₂_map_right_iff]
  exact h.imp hR

theorem any_eq_of_forall₂ {R : α → β → Prop} {l : List α} {l' : List β} {f : α → Bool}
    {f' : β → Bool} (h : List.Forall₂ R l l') (hR : ∀ a b, R a b → f a = f' b) :
    l.any f = l'.any f' := by
  have hmap := congrArg (fun bs => bs.any fun b => b) (map_eq_of_forall₂ h hR)
  simpa [Function.comp_def] using hmap

theorem rel_find? {R : α → β → Prop} {l : List α} {l' : List β} {f : α → Bool} {f' : β → Bool}
    (h : List.Forall₂ R l l') (hR : ∀ a b, R a b → f a = f' b) :
    Option.Rel R (l.find? f) (l'.find? f') := by
  induction h with
  | nil => exact .none
  | cons hab _ ih =>
    rw [List.find?_cons, List.find?_cons, hR _ _ hab]
    split
    · exact .some hab
    · exact ih

theorem rel_getElem? {R : α → β → Prop} {l : List α} {l' : List β} (h : List.Forall₂ R l l')
    (i : Nat) : Option.Rel R l[i]? l'[i]? := by
  induction h generalizing i with
  | nil => exact .none
  | cons hab _ ih =>
    cases i with
    | zero => exact .some hab
    | succ i => exact ih i

theorem forall₂_zipIdx {R : α → β → Prop} {l : List α} {l' : List β} (h : List.Forall₂ R l l')
    (i : Nat) : List.Forall₂ (fun a b => R a.1 b.1 ∧ a.2 = b.2) (l.zipIdx i) (l'.zipIdx i) := by
  induction h generalizing i with
  | nil => exact .nil
  | cons hab _ ih => exact .cons ⟨hab, rfl⟩ (ih (i + 1))

namespace Path

variable {p p' q q' : Path}

theorem beq_congr (hp : (p == p') = true) (hq : (q == q') = true) : (p == q) = (p' == q') := by
  rw [beq_iff] at hp hq
  show (p.components == q.components) = (p'.components == q'.components)
  rw [hp, hq]

theorem fileName?_congr (h : (p == q) = true) : p.fileName? = q.fileName? := by
  rw [beq_iff] at h
  rw [fileName?, fileName?, h]

end Path

/-- The paths are the same one by one, but for the way in which they are written. -/
abbrev SamePaths : List Path → List Path → Prop := List.Forall₂ fun p q => (p == q) = true

abbrev SameEdges : List Edge → List Edge → Prop := List.Forall₂ fun e f => (e == f) = true

theorem Edge.beq_congr {e e' f f' : Edge} (he : (e == e') = true) (hf : (f == f') = true) :
    (e == f) = (e' == f') := by
  rw [beq_iff] at he hf
  show (e.source == f.source && e.target == f.target) = _
  rw [Path.beq_congr he.1 hf.1, Path.beq_congr he.2 hf.2]
  rfl

/-! ### Nodes and files -/

/-- The second node is the first one, with its path written in any way. -/
def Node.Same (n m : Node α) : Prop := ∃ p, (n.id == p) = true ∧ { n with id := p } = m

theorem Node.Same.id {n m : Node α} : n.Same m → (n.id == m.id) = true := by
  rintro ⟨p, hp, rfl⟩
  exact hp

/-- The files are the same but for the way in which their paths and those of their imports are
written. -/
structure SourceFile.Respelled (f k : SourceFile) : Prop where
  path : (f.path == k.path) = true
  displayName : f.displayName = k.displayName
  dependencies : SamePaths f.dependencies k.dependencies

theorem Node.same_ofFile {f k : SourceFile} (origin : Position α)
    (hpath : (f.path == k.path) = true) (hname : f.displayName = k.displayName) :
    (ofFile origin f).Same (ofFile origin k) :=
  ⟨k.path, hpath, by rw [ofFile, ofFile, Path.fileName?_congr hpath, hname]⟩

namespace Graph

variable {nodes nodes' : List (Node α)} {edges edges' : List Edge} {g h : Graph α} {p p' q q' : Path}
  {files files' : List SourceFile}

/-- The graphs are the same but for the way in which paths are written. -/
structure Same (g h : Graph α) : Prop where
  nodes : List.Forall₂ Node.Same g.nodes h.nodes
  index : List.Forall₂ (fun a b => (a.1 == b.1) = true ∧ a.2 = b.2) g.index h.index
  edges : SameEdges g.edges h.edges

/-! ### Assembling -/

theorem forall₂_distinct (h : List.Forall₂ Node.Same nodes nodes') :
    List.Forall₂ Node.Same (distinct nodes) (distinct nodes') := by
  induction nodes using distinct_induction generalizing nodes' with
  | nil =>
    obtain rfl := List.forall₂_nil_left_iff.1 h
    exact .nil
  | cons n ns ih =>
    obtain ⟨m, ms, hnm, hrest, rfl⟩ := List.forall₂_cons_left_iff.1 h
    rw [distinct_cons, distinct_cons]
    refine .cons hnm (ih (List.rel_filter (fun a b hab => ?_) hrest))
    simp only [Path.beq_congr hnm.id hab.id]

theorem contains_congr (h : SameEdges edges edges') {e f : Edge} (hef : (e == f) = true) :
    edges.contains e = edges'.contains f := by
  rw [List.contains_eq_any_beq, List.contains_eq_any_beq]
  exact any_eq_of_forall₂ h fun a b hab => Edge.beq_congr hef hab

/-- An edge is not among edges that are all greater. -/
theorem contains_eq_false {e : Edge} (h : ∀ f ∈ edges, compare e f = .lt) :
    edges.contains e = false := by
  rw [← Bool.not_eq_true, List.contains_iff_exists_mem_beq]
  rintro ⟨f, hf, hef⟩
  have hlt := h f hf
  rw [Edge.compare_eq_iff.2 hef] at hlt
  contradiction

/-- If the first of two ascending lists of edges begins with an edge that is less than the first one
of the second, then the second does not contain it. -/
theorem Ascending.not_lt {e f : Edge} (h : Ascending (f :: edges))
    (hcontains : (f :: edges).contains e = true) : compare e f ≠ .lt := by
  intro hlt
  have hall : ∀ k ∈ f :: edges, compare e k = .lt := List.forall_mem_cons.2
    ⟨hlt, fun k hk => Std.TransCmp.lt_trans hlt ((List.pairwise_cons.1 h).1 k hk)⟩
  rw [contains_eq_false hall] at hcontains
  contradiction

/-- Behind the first of ascending edges are all of them but that one. -/
theorem Ascending.contains_tail {e : Edge} (h : Ascending (e :: edges)) (f : Edge) :
    edges.contains f = ((e :: edges).contains f && !(f == e)) := by
  rw [List.contains_cons]
  cases hfe : f == e with
  | false => simp
  | true =>
    have hnot := contains_eq_false (List.pairwise_cons.1 h).1
    rw [contains_congr (List.forall₂_same.2 fun _ _ => BEq.rfl) hfe, hnot]
    rfl

theorem Ascending.forall₂ (h : Ascending edges) (h' : Ascending edges')
    (hcontains : ∀ e, edges.contains e = edges'.contains e) : SameEdges edges edges' := by
  induction edges generalizing edges' with
  | nil =>
    cases edges' with
    | nil => exact .nil
    | cons f fs => simpa using hcontains f
  | cons e es ih =>
    cases edges' with
    | nil => simpa using hcontains e
    | cons f fs =>
      have hef : compare e f = .eq := by
        have hle := h'.not_lt (e := e) (by rw [← hcontains]; simp)
        have hge := h.not_lt (e := f) (by rw [hcontains]; simp)
        have hswap : compare f e = (compare e f).swap := Std.OrientedCmp.eq_swap
        rw [hswap] at hge
        cases hcmp : compare e f <;> simp_all
      have hef := Edge.compare_eq_iff.1 hef
      refine .cons hef (ih h.tail h'.tail fun k => ?_)
      rw [h.contains_tail, h'.contains_tail, hcontains, Edge.beq_congr BEq.rfl hef]

theorem hasFile_same (h : List.Forall₂ Node.Same nodes nodes') :
    HasFile nodes p ↔ HasFile nodes' p := by
  rw [← any_iff_hasFile, ← any_iff_hasFile,
    any_eq_of_forall₂ h fun _ _ hnm => Path.beq_congr hnm.id BEq.rfl]

theorem sameEdges_assemble (hfiles : ∀ p, HasFile nodes p ↔ HasFile nodes' p)
    (hcontains : ∀ e, edges.contains e = edges'.contains e) :
    SameEdges (assemble nodes edges).edges (assemble nodes' edges').edges := by
  refine (coherent_assemble _ _).ascending.forall₂ (coherent_assemble _ _).ascending fun e => ?_
  rw [Bool.eq_iff_iff, contains_assemble, contains_assemble, hcontains, hfiles, hfiles]

theorem countP_congr {f f' : Edge → Bool} (h : SameEdges edges edges')
    (hf : ∀ e e', (e == e') = true → f e = f' e') : edges.countP f = edges'.countP f' := by
  have hmap := congrArg (List.countP fun b => b) (map_eq_of_forall₂ h hf)
  simpa [List.countP_map, Function.comp_def] using hmap

theorem same_counted {n m : Node α} (h : SameEdges edges edges') (hnm : n.Same m) :
    (counted edges n).Same (counted edges' m) := by
  have hsource : edges.countP (·.source == n.id) = edges'.countP (·.source == m.id) :=
    countP_congr h fun e e' he => Path.beq_congr (Edge.beq_iff.1 he).1 hnm.id
  have htarget : edges.countP (·.target == n.id) = edges'.countP (·.target == m.id) :=
    countP_congr h fun e e' he => Path.beq_congr (Edge.beq_iff.1 he).2 hnm.id
  obtain ⟨p, hp, rfl⟩ := hnm
  exact ⟨p, hp, by simp only [counted, hsource, htarget]⟩

theorem same_assemble (hnodes : List.Forall₂ Node.Same (distinct nodes) (distinct nodes'))
    (hcontains : ∀ e, edges.contains e = edges'.contains e) :
    Same (assemble nodes edges) (assemble nodes' edges') := by
  have hfiles (p : Path) : HasFile nodes p ↔ HasFile nodes' p := by
    rw [← hasFile_distinct, hasFile_same hnodes, hasFile_distinct]
  have hedges := sameEdges_assemble hfiles hcontains
  have hsame : List.Forall₂ Node.Same (assemble nodes edges).nodes (assemble nodes' edges').nodes := by
    rw [nodes_assemble, nodes_assemble]
    exact List.rel_map (fun _ _ hnm => same_counted hedges hnm) hnodes
  refine ⟨hsame, ?_, hedges⟩
  have hids : SamePaths ((assemble nodes edges).nodes.map (·.id))
      ((assemble nodes' edges').nodes.map (·.id)) := List.rel_map (fun _ _ hnm => hnm.id) hsame
  rw [indexed_assemble, indexed_assemble]
  exact forall₂_zipIdx hids 0

theorem sameEdges_edgesOf (h : List.Forall₂ SourceFile.Respelled files files') :
    SameEdges (edgesOf files) (edgesOf files') := by
  refine List.rel_flatMap h fun f k hfk => List.rel_map (fun d d' hd => ?_) hfk.dependencies
  exact Edge.beq_iff.2 ⟨hfk.path, hd⟩

theorem same_ofFiles (origin : Position α) (h : List.Forall₂ SourceFile.Respelled files files') :
    Same (ofFiles origin files) (ofFiles origin files') := by
  refine same_assemble (forall₂_distinct (List.rel_map (fun f k hfk => ?_) h)) fun e => ?_
  · exact Node.same_ofFile origin hfk.path hfk.displayName
  · exact contains_congr (sameEdges_edgesOf h) BEq.rfl

/-! ### Answers -/

namespace Same

variable (hgh : Same g h)
include hgh

theorem indexOf? (hp : (p == q) = true) : g.indexOf? p = h.indexOf? q := by
  have hrel : Option.Rel _ (g.index.find? (·.1 == p)) (h.index.find? (·.1 == q)) :=
    rel_find? hgh.index fun _ _ hab => Path.beq_congr hab.1 hp
  rw [Graph.indexOf?, Graph.indexOf?]
  generalize g.index.find? (·.1 == p) = a, h.index.find? (·.1 == q) = b at hrel
  cases hrel with
  | none => rfl
  | some hab => exact congrArg some hab.2

theorem node? (hp : (p == q) = true) : Option.Rel Node.Same (g.node? p) (h.node? q) := by
  rw [Graph.node?, Graph.node?, hgh.indexOf? hp]
  cases h.indexOf? q with
  | none => exact .none
  | some i => exact rel_getElem? hgh.nodes i

theorem dependencies (hp : (p == q) = true) : SamePaths (g.dependencies p) (h.dependencies q) := by
  have hfiltered : SameEdges (g.edges.filter (·.source == p)) (h.edges.filter (·.source == q)) :=
    List.rel_filter (fun e e' he => by simp only [Path.beq_congr (Edge.beq_iff.1 he).1 hp]) hgh.edges
  rw [Graph.dependencies, Graph.dependencies, SamePaths, List.forall₂_map_left_iff,
    List.forall₂_map_right_iff]
  exact hfiltered.imp fun e e' he => (Edge.beq_iff.1 he).2

theorem dependents (hp : (p == q) = true) : SamePaths (g.dependents p) (h.dependents q) := by
  have hfiltered : SameEdges (g.edges.filter (·.target == p)) (h.edges.filter (·.target == q)) :=
    List.rel_filter (fun e e' he => by simp only [Path.beq_congr (Edge.beq_iff.1 he).2 hp]) hgh.edges
  rw [Graph.dependents, Graph.dependents, SamePaths, List.forall₂_map_left_iff,
    List.forall₂_map_right_iff]
  exact hfiltered.imp fun e e' he => (Edge.beq_iff.1 he).1

theorem successors : g.successors = h.successors := by
  refine congrArg List.toArray (map_eq_of_forall₂ hgh.nodes fun n m hnm => ?_)
  have hindices : (g.dependencies n.id).map g.indexOf? = (h.dependencies m.id).map h.indexOf? :=
    map_eq_of_forall₂ (hgh.dependencies hnm.id) fun _ _ => hgh.indexOf?
  simpa [List.filterMap_map, Function.comp_def] using
    congrArg (List.filterMap fun v => v) hindices

/-! ### Stages -/

theorem annotate {f f' : Nat → Node α → Node α}
    (hf : ∀ i n m, n.Same m → (f i n).Same (f' i m)) : Same (g.annotate f) (h.annotate f') where
  index := hgh.index
  edges := hgh.edges
  nodes := by
    obtain ⟨hlength, hnodes⟩ := List.forall₂_iff_get.1 hgh.nodes
    refine List.forall₂_iff_get.2 ⟨by simp [Graph.annotate, hlength], fun i hi hi' => ?_⟩
    simp only [Graph.annotate, List.length_mapIdx] at hi hi'
    simpa [Graph.annotate] using hf i _ _ (hnodes i hi hi')

theorem markCycles : Same g.markCycles h.markCycles := by
  rw [Graph.markCycles, Graph.markCycles, hgh.successors]
  refine hgh.annotate ?_
  rintro i n _ ⟨p, hp, rfl⟩
  exact ⟨p, hp, rfl⟩

theorem assign (r : RoleRules) : Same (r.assign g) (r.assign h) := by
  refine hgh.annotate ?_
  rintro i n _ ⟨p, hp, rfl⟩
  exact ⟨p, hp, rfl⟩

theorem layout [Scalar α] (settings : LayoutSettings α) :
    Same (Layered.layout g settings) (Layered.layout h settings) := by
  rw [Layered.layout, Layered.layout, hgh.successors]
  refine hgh.annotate ?_
  rintro i n _ ⟨p, hp, rfl⟩
  exact ⟨p, hp, rfl⟩

end Same

/-- Whatever is asked about the two graphs, and however paths are written in the graphs and in the
question, the answers are the same but for the way in which paths are written. -/
structure SameAnswers (g h : Graph α) : Prop where
  /-- In this order, with the same labels, counts, marks, roles and places. -/
  nodes : List.Forall₂ Node.Same g.nodes h.nodes
  edgeCount : g.edges.length = h.edges.length
  successors : g.successors = h.successors
  node? : ∀ p q, (p == q) = true → Option.Rel Node.Same (g.node? p) (h.node? q)
  indexOf? : ∀ p q, (p == q) = true → g.indexOf? p = h.indexOf? q
  containsEdge : ∀ p p' q q', (p == q) = true → (p' == q') = true →
    g.containsEdge p p' = h.containsEdge q q'
  dependencies : ∀ p q, (p == q) = true → SamePaths (g.dependencies p) (h.dependencies q)
  dependents : ∀ p q, (p == q) = true → SamePaths (g.dependents p) (h.dependents q)

theorem Same.sameAnswers (hgh : Same g h) : SameAnswers g h where
  nodes := hgh.nodes
  edgeCount := hgh.edges.length_eq
  successors := hgh.successors
  node? _ _ := hgh.node?
  indexOf? _ _ := hgh.indexOf?
  containsEdge _ _ _ _ hp hp' := contains_congr hgh.edges (Edge.beq_iff.2 ⟨hp, hp'⟩)
  dependencies _ _ := hgh.dependencies
  dependents _ _ := hgh.dependents

/-- However the paths of files and of their imports are written, the graph of the files gives the same
answers, and does so when its cycles have been marked, when its nodes have got roles and when they
stand in rows. -/
theorem ofFiles_respelled [Scalar α] (origin : Position α) (r : RoleRules)
    (settings : LayoutSettings α) (h : List.Forall₂ SourceFile.Respelled files files') :
    SameAnswers (ofFiles origin files) (ofFiles origin files') ∧
    SameAnswers (ofFiles origin files).markCycles (ofFiles origin files').markCycles ∧
    SameAnswers (r.assign (ofFiles origin files)) (r.assign (ofFiles origin files')) ∧
    SameAnswers (Layered.layout (ofFiles origin files) settings)
      (Layered.layout (ofFiles origin files') settings) := by
  have hsame := same_ofFiles origin h
  exact ⟨hsame.sameAnswers, hsame.markCycles.sameAnswers, (hsame.assign r).sameAnswers,
    (hsame.layout settings).sameAnswers⟩

/-- Files a and b, which import each other. -/
def plainlySpelt : List SourceFile :=
  [⟨⟨[97]⟩, "a", [⟨[98]⟩]⟩, ⟨⟨[98]⟩, "b", [⟨[97]⟩]⟩]

/-- The same files as a/ and b/., which import b// and a/./ -/
def oddlySpelt : List SourceFile :=
  [⟨⟨[97, 47]⟩, "a", [⟨[98, 47, 47]⟩]⟩, ⟨⟨[98, 47, 46]⟩, "b", [⟨[97, 47, 46, 47]⟩]⟩]

/-- Each finds the other, by any spelling. -/
theorem ofFiles_respelled_oddly :
    List.Forall₂ SourceFile.Respelled plainlySpelt oddlySpelt ∧
    (ofFiles (.origin : Position Float) oddlySpelt).successors = #[[1], [0]] ∧
    (ofFiles (.origin : Position Float) oddlySpelt).containsEdge ⟨[97]⟩ ⟨[98, 47]⟩ = true ∧
    (ofFiles (.origin : Position Float) oddlySpelt).markCycles.nodes.map (·.isCircular) =
      [true, true] := by
  have hspelt : List.Forall₂ SourceFile.Respelled plainlySpelt oddlySpelt :=
    .cons ⟨by cbv, rfl, .cons (by cbv) .nil⟩ (.cons ⟨by cbv, rfl, .cons (by cbv) .nil⟩ .nil)
  obtain ⟨hplain, hmarked, -, -⟩ := ofFiles_respelled (.origin : Position Float) .standard .standard
    hspelt
  -- where the nodes are makes no difference to what is computed
  generalize (.origin : Position Float) = origin at *
  have hcircular : (ofFiles origin plainlySpelt).markCycles.nodes.map (·.isCircular) =
      [true, true] := by cbv
  refine ⟨hspelt, ?_, ?_, ?_⟩
  · rw [← hplain.successors]
    cbv
  · rw [← hplain.containsEdge ⟨[97]⟩ ⟨[98]⟩ _ _ (by cbv) (by cbv)]
    cbv
  · rw [← hcircular]
    refine (map_eq_of_forall₂ hmarked.nodes ?_).symm
    rintro n _ ⟨p, -, rfl⟩
    rfl

end Graph

end ModuleAtlas
