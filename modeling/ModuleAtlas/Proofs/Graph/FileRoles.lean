import Mathlib
import ModuleAtlas.Proofs.Graph.EdgeAnswers
import ModuleAtlas.Proofs.Graph.Presentation

/-!
# Roles by import lists

The role of a file is given by the counts at its node, but can be read off the import lists of the files
(`role_by_imports`). A file has edges if and only if it imports a file of the list or is imported by
one (`containsEdge_iff`), and as many edges lead to it as there are different files that import it
(`card_importers`), since the files that import it are listed in ascending order, each of them once.

So files that are listed in another order or again, and imports that are repeated or lead nowhere,
change no role. The one thing that a file has from its place in the list is its label, if its path ends
in no name: it is then what the file is displayed as where it is listed first (`labelIn`). The role
may depend on that (`role_of_up`).
-/

namespace ModuleAtlas

/-- A file of the list has the path. -/
def Listed (files : List SourceFile) (p : Path) : Prop := ∃ f ∈ files, (f.path == p) = true

/-- A file of the list that has the path `p` imports `q`. -/
def Imports (files : List SourceFile) (p q : Path) : Prop :=
  ∃ f ∈ files, (f.path == p) = true ∧ ∃ d ∈ f.dependencies, (d == q) = true

/-- The different files of the list that import the file, it may be among them itself. -/
def importers (files : List SourceFile) (p : Path) : Finset (List Component) :=
  ((files.filter fun f => f.dependencies.contains p).map (·.path.components)).toFinset

/-- The file imports no file of the list and is imported by none, itself included. -/
def Alone (files : List SourceFile) (p : Path) : Prop :=
  ∀ q, Listed files q → ¬ Imports files p q ∧ ¬ Imports files q p

/-- The name at the end of the path or, if there is none, what the file is displayed as where it is
listed first. -/
def labelIn (files : List SourceFile) (p : Path) : String :=
  match p.fileName? with
  | some name => Text.Utf8.decodeLossy name
  | none => ((files.find? (·.path == p)).map (·.displayName)).getD ""

/-- One of the markers is in the name, in whatever case the two are written. -/
def RoleRules.Marked (r : RoleRules) (name : String) : Prop :=
  ∃ m ∈ r.markers, (Text.lowercase m).toList <:+: (Text.lowercase name).toList

/-- The file is called after a marker, or is imported by more files than the threshold. -/
def RoleRules.Shared (r : RoleRules) (files : List SourceFile) (p : Path) : Prop :=
  r.Marked (labelIn files p) ∨ r.fanInThreshold < (importers files p).card

/-- The role is the one that the import lists give to the file. -/
structure RoleByImports (r : RoleRules) (files : List SourceFile) (p : Path) (role : Role) : Prop where
  standalone_iff : role = .standalone ↔ Alone files p
  utility_iff : role = .utility ↔ ¬ Alone files p ∧ r.Shared files p
  core_iff : role = .core ↔ ¬ Alone files p ∧ ¬ r.Shared files p

/-- The lists have the same files, and these import the same ones of them. -/
structure SameImports (files files' : List SourceFile) : Prop where
  listed_iff : ∀ p, Listed files p ↔ Listed files' p
  imports_iff : ∀ p q, Listed files p → Listed files q → (Imports files p q ↔ Imports files' p q)

variable {α : Type} {files files' : List SourceFile} {origin : Position α} {p q : Path}
  {r : RoleRules} {role : Role}

/-! ### Import lists -/

theorem Imports.listed (h : Imports files p q) : Listed files p := by
  obtain ⟨f, hf, hp, -⟩ := h
  exact ⟨f, hf, hp⟩

theorem mem_importers {c : List Component} :
    c ∈ importers files p ↔ ∃ q, q.components = c ∧ Imports files q p := by
  simp only [importers, List.mem_toFinset, List.mem_map, List.mem_filter,
    List.contains_iff_exists_mem_beq]
  constructor
  · rintro ⟨f, ⟨hf, d, hd, hdp⟩, rfl⟩
    exact ⟨f.path, rfl, f, hf, BEq.rfl, d, hd, BEq.symm hdp⟩
  · rintro ⟨q, rfl, f, hf, hq, d, hd, hdp⟩
    exact ⟨f, ⟨hf, d, hd, BEq.symm hdp⟩, (Path.beq_iff _ _).1 hq⟩

namespace SameImports

variable (h : SameImports files files')
include h

theorem alone_iff (hp : Listed files p) : Alone files p ↔ Alone files' p := by
  refine forall_congr' fun q => ?_
  rw [← h.listed_iff]
  refine imp_congr_right fun hq => ?_
  rw [h.imports_iff p q hp hq, h.imports_iff q p hq hp]

theorem importers_eq (hp : Listed files p) : importers files p = importers files' p := by
  ext c
  rw [mem_importers, mem_importers]
  refine exists_congr fun q => and_congr_right fun _ => ⟨fun hq => ?_, fun hq => ?_⟩
  · exact (h.imports_iff q p hq.listed hp).1 hq
  · exact (h.imports_iff q p ((h.listed_iff q).2 hq.listed) hp).2 hq

end SameImports

namespace RoleByImports

theorem congr (hrole : RoleByImports r files p role) (h : SameImports files files')
    (hp : Listed files p) (hlabel : labelIn files p = labelIn files' p) :
    RoleByImports r files' p role := by
  obtain ⟨hstandalone, hutility, hcore⟩ := hrole
  rw [RoleRules.Shared, h.alone_iff hp, h.importers_eq hp, hlabel] at *
  exact ⟨hstandalone, hutility, hcore⟩

theorem unique {role' : Role} (h : RoleByImports r files p role)
    (h' : RoleByImports r files p role') : role = role' := by
  cases role with
  | standalone => exact (h'.standalone_iff.2 (h.standalone_iff.1 rfl)).symm
  | utility => exact (h'.utility_iff.2 (h.utility_iff.1 rfl)).symm
  | core => exact (h'.core_iff.2 (h.core_iff.1 rfl)).symm

end RoleByImports

namespace Graph

/-! ### Nodes of files -/

/-- Of the nodes for a file, the first one is kept. -/
theorem find?_distinct (nodes : List (Node α)) (p : Path) :
    (distinct nodes).find? (·.id == p) = nodes.find? (·.id == p) := by
  induction nodes using distinct_induction with
  | nil => rfl
  | cons n ns ih =>
    rw [distinct_cons, List.find?_cons, List.find?_cons]
    cases hn : n.id == p with
    | true => rfl
    | false =>
      rw [ih, List.find?_filter]
      refine congrArg (List.find? · ns) (funext fun m => ?_)
      cases hm : m.id == p with
      | false => simp
      | true => simp [Path.beq_congr BEq.rfl hm, hn]

theorem node?_ofFiles (origin : Position α) (files : List SourceFile) (p : Path) :
    (ofFiles origin files).node? p = (files.find? (·.path == p)).map fun f =>
      counted (ofFiles origin files).edges (.ofFile origin f) := by
  rw [ofFiles, (indexed_assemble _ _).node?_eq, nodes_assemble, List.find?_map]
  change ((distinct _).find? (·.id == p)).map _ = _
  rw [find?_distinct, List.find?_map, Option.map_map]
  rfl

theorem exists_node?_ofFiles (origin : Position α) (hp : Listed files p) :
    ∃ n, (ofFiles origin files).node? p = some n ∧ n.label = labelIn files p := by
  obtain ⟨f, hfind⟩ : ∃ f, files.find? (·.path == p) = some f := by
    rw [← Option.isSome_iff_exists, List.find?_isSome]
    exact hp
  refine ⟨_, by rw [node?_ofFiles, hfind, Option.map_some], ?_⟩
  have hid := List.find?_some hfind
  rw [labelIn, hfind, ← Path.fileName?_congr hid]
  rfl

theorem node?_assign (r : RoleRules) (g : Graph α) (p : Path) :
    (r.assign g).node? p = (g.node? p).map fun n => { n with role := r.roleOf n } :=
  node?_map (nodes_assign r g) rfl p

/-! ### Edges of files -/

theorem containsEdge_iff : (ofFiles origin files).containsEdge p q = true ↔
    Listed files q ∧ Imports files p q := by
  rw [containsEdge_ofFiles]
  constructor
  · rintro ⟨f, hf, k, hk, hp, hq, d, hd, hdk⟩
    exact ⟨⟨k, hk, hq⟩, f, hf, hp, d, hd, BEq.trans hdk hq⟩
  · rintro ⟨⟨k, hk, hq⟩, f, hf, hp, d, hd, hdq⟩
    exact ⟨f, hf, k, hk, hp, hq, d, hd, BEq.trans hdq (BEq.symm hq)⟩

theorem eq_nil_iff_contains {ps : List Path} : ps = [] ↔ ∀ q, ¬ ps.contains q = true := by
  constructor
  · rintro rfl
    simp
  · intro h
    refine List.eq_nil_iff_forall_not_mem.2 fun q hq => h q ?_
    exact List.contains_iff_exists_mem_beq.2 ⟨q, hq, BEq.rfl⟩

theorem dependencies_eq_nil_iff : (ofFiles origin files).dependencies p = [] ↔
    ∀ q, Listed files q → ¬ Imports files p q := by
  simp only [eq_nil_iff_contains, contains_dependencies, containsEdge_iff, not_and]

theorem dependents_eq_nil_iff (hp : Listed files p) : (ofFiles origin files).dependents p = [] ↔
    ∀ q, Listed files q → ¬ Imports files q p := by
  simp only [eq_nil_iff_contains, contains_dependents, containsEdge_iff, hp, true_and]
  exact forall_congr' fun q => ⟨fun h _ => h, fun h hq => h hq.listed hq⟩

/-- Each file that imports a file has one edge to it. -/
theorem card_importers (hp : Listed files p) : (importers files p).card =
    ((ofFiles origin files).dependents p).length := by
  have hnodup : (((ofFiles origin files).dependents p).map Path.components).Nodup := by
    refine List.pairwise_map.2 ((ascending_dependents (coherent_assemble _ _).ascending p).imp ?_)
    intro q q' hlt heq
    rw [Path.compare_eq_iff.2 ((Path.beq_iff q q').2 heq)] at hlt
    contradiction
  have himporters :
      importers files p = (((ofFiles origin files).dependents p).map Path.components).toFinset := by
    ext c
    rw [mem_importers, List.mem_toFinset, List.mem_map]
    constructor
    · rintro ⟨q, rfl, hq⟩
      have hcontains : ((ofFiles origin files).dependents p).contains q = true :=
        contains_dependents.2 (containsEdge_iff.2 ⟨hp, hq⟩)
      obtain ⟨q', hq', hqq'⟩ := List.contains_iff_exists_mem_beq.1 hcontains
      exact ⟨q', hq', ((Path.beq_iff q q').1 hqq').symm⟩
    · rintro ⟨q, hq, rfl⟩
      have hcontains := contains_dependents.1 (List.contains_iff_exists_mem_beq.2 ⟨q, hq, BEq.rfl⟩)
      exact ⟨q, rfl, (containsEdge_iff.1 hcontains).2⟩
  rw [himporters, List.toFinset_card_of_nodup hnodup, List.length_map]

/-! ### Roles -/

theorem marks_folded (r : RoleRules) (n : Node α) :
    r.folded.marks n = true ↔ r.Marked n.label := by
  simp [RoleRules.marks, RoleRules.folded, RoleRules.Marked, Text.occursIn_iff]

theorem roleByImports_roleOf {n : Node α} (hp : Listed files p)
    (hn : (ofFiles origin files).node? p = some n) (hlabel : n.label = labelIn files p) :
    RoleByImports r files p (r.folded.roleOf n) := by
  have hcoherent : Coherent (ofFiles origin files) := coherent_assemble _ _
  obtain ⟨hdependencies, hdependents⟩ := hcoherent.counts hn
  have halone : Alone files p ↔ n.dependencyCount = 0 ∧ n.dependentCount = 0 := by
    rw [← hdependencies, ← hdependents, List.length_eq_zero_iff, List.length_eq_zero_iff,
      dependencies_eq_nil_iff, dependents_eq_nil_iff hp, ← forall_and]
    exact forall_congr' fun q => imp_and
  have hshared : r.Shared files p ↔
      (r.folded.marks n || decide (r.folded.fanInThreshold < n.dependentCount)) = true := by
    rw [Bool.or_eq_true, decide_eq_true_iff, marks_folded, hlabel, ← hdependents,
      ← card_importers hp]
    rfl
  by_cases ha : Alone files p
  · have hrole : r.folded.roleOf n = .standalone := if_pos (halone.1 ha)
    constructor <;> simp [hrole, ha]
  · by_cases hs : r.Shared files p
    · have hrole : r.folded.roleOf n = .utility := by
        rw [RoleRules.roleOf, if_neg (mt halone.2 ha), if_pos (hshared.1 hs)]
      constructor <;> simp [hrole, ha, hs]
    · have hrole : r.folded.roleOf n = .core := by
        rw [RoleRules.roleOf, if_neg (mt halone.2 ha), if_neg (mt hshared.2 hs)]
      constructor <;> simp [hrole, ha, hs]

theorem exists_roleByImports (origin : Position α) (r : RoleRules) (hp : Listed files p) : ∃ n,
    (r.classify (ofFiles origin files)).node? p = some n ∧ n.label = labelIn files p ∧
      RoleByImports r files p n.role := by
  obtain ⟨n, hn, hlabel⟩ := exists_node?_ofFiles origin hp
  refine ⟨{ n with role := r.folded.roleOf n }, ?_, hlabel, roleByImports_roleOf hp hn hlabel⟩
  rw [RoleRules.classify, node?_assign, hn, Option.map_some]

/-- The role of a file is given by the import lists of the files that have been listed, and by the
label of the file. Other lists with the same files and the same imports between them give it the same
role, unless it has no name and another label there. -/
theorem role_by_imports (origin : Position α) (r : RoleRules) (hp : Listed files p) :
    ∃ n, (r.classify (ofFiles origin files)).node? p = some n ∧ n.label = labelIn files p ∧
      RoleByImports r files p n.role ∧ ∀ files', SameImports files files' →
        (p.fileName? = none → labelIn files p = labelIn files' p) →
          ((r.classify (ofFiles origin files')).node? p).map (·.role) = some n.role := by
  obtain ⟨n, hn, hlabel, hby⟩ := exists_roleByImports origin r hp
  refine ⟨n, hn, hlabel, hby, fun files' h hsame => ?_⟩
  obtain ⟨m, hm, -, hby'⟩ := exists_roleByImports origin r ((h.listed_iff p).1 hp)
  have hlabel : labelIn files p = labelIn files' p := by
    cases hname : p.fileName? with
    | none => exact hsame hname
    | some name => rw [labelIn, labelIn, hname]
  rw [hm, Option.map_some, hby'.unique (hby.congr h hp hlabel)]

/-- The file a imports Util twice and x, which is not listed, and is listed again without imports. -/
def oftenListed : List SourceFile :=
  [⟨⟨[97]⟩, "a", [⟨[85, 116, 105, 108]⟩, ⟨[120]⟩, ⟨[85, 116, 105, 108, 47]⟩]⟩,
    ⟨⟨[85, 116, 105, 108]⟩, "Util", []⟩, ⟨⟨[97]⟩, "a again", []⟩]

/-- The same files the other way round, with one import of Util. -/
def onceListed : List SourceFile :=
  [⟨⟨[85, 116, 105, 108]⟩, "Util", []⟩, ⟨⟨[97]⟩, "a", [⟨[85, 116, 105, 108]⟩]⟩]

theorem sameImports_oftenListed : SameImports oftenListed onceListed where
  listed_iff p := by
    simp only [Listed, oftenListed, onceListed, List.mem_cons, List.not_mem_nil, or_false,
      exists_eq_or_imp, exists_eq_left]
    tauto
  imports_iff p q _ hq := by
    have hslash : ((⟨[85, 116, 105, 108, 47]⟩ : Path) == q) = (⟨[85, 116, 105, 108]⟩ == q) :=
      Path.beq_congr (by cbv) BEq.rfl
    -- x is not the path of a listed file
    have hx : ¬ ((⟨[120]⟩ : Path) == q) = true := by
      intro hx
      have hfiles : (oftenListed.any fun f => f.path == ⟨[120]⟩) = false := by cbv
      obtain ⟨f, hf, hfq⟩ := hq
      exact List.any_eq_false.1 hfiles f hf (BEq.trans hfq (BEq.symm hx))
    simp [Imports, oftenListed, onceListed, hslash, hx]

/-- The file Util is a utility, however often it is listed as an import. -/
theorem role_by_imports_oftenListed :
    Listed oftenListed ⟨[85, 116, 105, 108]⟩ ∧ SameImports oftenListed onceListed ∧
    ∃ n, (RoleRules.standard.classify (ofFiles (⟨0, 0⟩ : Position Nat) oftenListed)).node?
        ⟨[85, 116, 105, 108]⟩ = some n ∧ n.role = .utility ∧
      ((RoleRules.standard.classify (ofFiles (⟨0, 0⟩ : Position Nat) onceListed)).node?
        ⟨[85, 116, 105, 108]⟩).map (·.role) = some .utility := by
  have hp : Listed oftenListed ⟨[85, 116, 105, 108]⟩ :=
    ⟨_, List.mem_cons_of_mem _ List.mem_cons_self, BEq.rfl⟩
  have ha : Imports oftenListed ⟨[97]⟩ ⟨[85, 116, 105, 108]⟩ :=
    ⟨_, List.mem_cons_self, BEq.rfl, _, List.mem_cons_self, BEq.rfl⟩
  obtain ⟨n, hn, -, hby, hsame⟩ := role_by_imports (⟨0, 0⟩ : Position Nat) .standard hp
  have hrole : n.role = .utility := by
    refine hby.utility_iff.2 ⟨fun halone => (halone _ ha.listed).2 ha, .inl ?_⟩
    exact ⟨"util", List.mem_cons_self, by decide +kernel⟩
  exact ⟨hp, sameImports_oftenListed, n, hn, hrole,
    hrole ▸ hsame onceListed sameImports_oftenListed fun _ => rfl⟩

/-- The path `..`, which ends in no name, is listed as util and as x, and imports b. -/
def upAsUtil : List SourceFile :=
  [⟨⟨[46, 46]⟩, "util", [⟨[98]⟩]⟩, ⟨⟨[46, 46]⟩, "x", []⟩, ⟨⟨[98]⟩, "b", []⟩]

/-- The same files, but `..` is listed as x first. -/
def upAsOther : List SourceFile :=
  [⟨⟨[46, 46]⟩, "x", []⟩, ⟨⟨[46, 46]⟩, "util", [⟨[98]⟩]⟩, ⟨⟨[98]⟩, "b", []⟩]

/-- In another order of the list, a file has another role. -/
theorem role_of_up : upAsUtil.Perm upAsOther ∧
    ((RoleRules.standard.classify (ofFiles (⟨0, 0⟩ : Position Nat) upAsUtil)).node?
      ⟨[46, 46]⟩).map (·.role) = some .utility ∧
    ((RoleRules.standard.classify (ofFiles (⟨0, 0⟩ : Position Nat) upAsOther)).node?
      ⟨[46, 46]⟩).map (·.role) = some .core := by
  refine ⟨.swap _ _ _, ?_, ?_⟩
  · decide +kernel
  · decide +kernel

end Graph

end ModuleAtlas
