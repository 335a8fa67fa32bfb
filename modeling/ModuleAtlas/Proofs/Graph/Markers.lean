import Mathlib
import ModuleAtlas.Proofs.Graph.FileRoles
import ModuleAtlas.Proofs.Graph.Stages
import ModuleAtlas.Proofs.Text.Casing

/-!
# Markers in labels

A marker is looked for in lower case in the lower case of a label. If it stands in the label as it is
written, it is found there, unless the lower case of a capital sigma in it turns on what stands around
the marker. Whether that can happen is seen from the marker alone (`Text.Settled`): just then there
is a label with the marker in which it is not found (`utility_by_marker_iff`).
-/

namespace ModuleAtlas.Graph

variable {α : Type} {g : Graph α} {n : Node α} {r : RoleRules} {m : String}

/-- An edge leaves the file or enters it. -/
def HasEdge (g : Graph α) (p : Path) : Prop :=
  ∃ e ∈ g.edges, (e.source == p) = true ∨ (e.target == p) = true

theorem Coherent.counts_of_hasEdge (h : g.Coherent) (hn : n ∈ g.nodes) (hedge : HasEdge g n.id) :
    ¬ (n.dependencyCount = 0 ∧ n.dependentCount = 0) := by
  rw [h.dependencyCount n hn, h.dependentCount n hn, List.countP_eq_zero, List.countP_eq_zero]
  rintro ⟨hsource, htarget⟩
  obtain ⟨e, he, hid | hid⟩ := hedge
  · exact hsource e he hid
  · exact htarget e he hid

/-- A marker that settles its sigmas is found wherever it stands. -/
theorem marked_of_settled (h : Text.Settled m.toList) (hm : m ∈ r.markers) {label : String}
    (hlabel : m.toList <:+: label.toList) : r.Marked label := by
  refine ⟨m, hm, ?_⟩
  obtain ⟨a, b, hab⟩ := hlabel
  rw [Text.toList_lowercase, Text.toList_lowercase, ← hab]
  exact (Text.lowercase_infix_iff _).2 h a b

/-- A path that ends in no name, shown under a label, imports itself. -/
def importingItself (label : String) : List SourceFile := [⟨⟨[47]⟩, label, [⟨[47]⟩]⟩]

theorem exists_importingItself (origin : Position α) (r : RoleRules) (label : String) :
    ∃ n ∈ (r.classify (ofFiles origin (importingItself label))).nodes,
      HasEdge (ofFiles origin (importingItself label)) n.id ∧ n.label = label ∧
      (n.role = .utility → r.Marked label ∨ r.fanInThreshold = 0) := by
  have himports : Imports (importingItself label) ⟨[47]⟩ ⟨[47]⟩ :=
    ⟨_, List.mem_cons_self, BEq.rfl, _, List.mem_cons_self, BEq.rfl⟩
  have hnoname : (⟨[47]⟩ : Path).fileName? = none := by cbv
  have hlabelIn : labelIn (importingItself label) ⟨[47]⟩ = label := by
    simp [labelIn, hnoname, importingItself]
  obtain ⟨n, hn, hlabel, hby⟩ := exists_roleByImports origin r himports.listed
  rw [hlabelIn] at hlabel
  have hindexed : (r.classify (ofFiles origin (importingItself label))).Indexed :=
    (indexed_assemble _ _).annotate fun _ _ => rfl
  obtain ⟨hmem, hid⟩ := hindexed.node?_spec hn
  refine ⟨n, hmem, ?_, hlabel, fun hrole => ?_⟩
  · obtain ⟨e, he, hedge⟩ := List.contains_iff_exists_mem_beq.1
      (containsEdge_iff.2 ⟨himports.listed, himports⟩ :
        (ofFiles origin (importingItself label)).containsEdge ⟨[47]⟩ ⟨[47]⟩ = true)
    exact ⟨e, he, .inl (BEq.trans (BEq.symm (Edge.beq_iff.1 hedge).1) (BEq.symm hid))⟩
  · obtain ⟨-, hmarked | hshared⟩ := hby.utility_iff.1 hrole
    · exact .inl (hlabelIn ▸ hmarked)
    · have hone : (importers (importingItself label) ⟨[47]⟩).card ≤ 1 := by
        refine (List.toFinset_card_le _).trans ?_
        rw [List.length_map]
        exact List.length_filter_le _ _
      exact .inr (by omega)

/-- Every node with an edge is a utility if the marker stands in its label, if and only if the marker
settles the form of its capital sigmas by itself. -/
theorem utility_by_marker_iff [Scalar α] (m : String) :
    (∀ (r : RoleRules) (nodes : List (Node α)) (edges : List Edge) (g : Graph α),
      m ∈ r.markers → Relation.ReflTransGen Stage (assemble nodes edges) g →
        ∀ n ∈ (r.classify g).nodes, HasEdge g n.id → m.toList <:+: n.label.toList →
          n.role = .utility) ↔ Text.Settled m.toList := by
  constructor
  · intro h
    rw [← Text.lowercase_infix_iff]
    intro a b
    obtain ⟨n, hn, hedge, hlabel, hrole⟩ :=
      exists_importingItself (default : Position α) ⟨[m], 1⟩ (String.ofList (a ++ m.toList ++ b))
    have hutility : n.role = .utility := by
      refine h ⟨[m], 1⟩ _ _ _ List.mem_cons_self .refl n hn hedge ?_
      rw [hlabel, String.toList_ofList]
      exact ⟨a, b, rfl⟩
    obtain ⟨k, hk, hinfix⟩ := (hrole hutility).resolve_right Nat.one_ne_zero
    obtain rfl := List.mem_singleton.1 hk
    rwa [Text.toList_lowercase, Text.toList_lowercase, String.toList_ofList] at hinfix
  · intro h r nodes edges g hm hs n hn hedge hlabel
    rw [RoleRules.classify, nodes_assign] at hn
    obtain ⟨k, hk, rfl⟩ := List.mem_map.1 hn
    have hcounts := (coherent_of_stages hs).counts_of_hasEdge hk hedge
    exact RoleRules.roleOf_eq_utility_iff.2
      ⟨hcounts, .inl ((marks_folded r k).2 (marked_of_settled h hm hlabel))⟩

/-- The markers that hold unless others are asked for have no sigmas to settle. -/
theorem settled_standard : ∀ m ∈ RoleRules.standard.markers, Text.Settled m.toList := by
  have hplain : ∀ m ∈ RoleRules.standard.markers, Text.capitalSigma ∉ m.toList := by decide
  exact fun m hm => Text.settled_of_not_mem (hplain m hm)

/-- The file ΑΣ.ts imports b. -/
def sigmaFiles : List SourceFile :=
  [⟨.ofString "ΑΣ.ts", "ΑΣ.ts", [.ofString "b"]⟩, ⟨.ofString "b", "b", []⟩]

theorem lowercase_sigmaMarker : (Text.lowercase "ΑΣ").toList = ['α', 'ς'] := by
  have hlist : "ΑΣ".toList = ['Α', 'Σ'] := rfl
  rw [Text.toList_lowercase, hlist]
  simp only [Text.lowerCaseWithin, Text.lowerCaseBetween, Text.isFinal, Text.nextIsCased_eq,
    Text.nearest?, Text.isCaseIgnorable_eq]
  decide +kernel

theorem lowercase_sigmaLabel : (Text.lowercase "ΑΣ.ts").toList = ['α', 'σ', '.', 't', 's'] := by
  have hlist : "ΑΣ.ts".toList = ['Α', 'Σ', '.', 't', 's'] := rfl
  rw [Text.toList_lowercase, hlist]
  simp only [Text.lowerCaseWithin, Text.lowerCaseBetween, Text.isFinal, Text.nextIsCased_eq,
    Text.nearest?, Text.isCaseIgnorable_eq]
  decide +kernel

/-- The marker ΑΣ stands in the label ΑΣ.ts, but is not found there: a word ends with the marker, but
the label goes on with a dot, which does not count, and a letter. -/
theorem core_despite_sigma : "ΑΣ".toList <:+: "ΑΣ.ts".toList ∧
    (((RoleRules.mk ["ΑΣ"] 3).classify (ofFiles (⟨0, 0⟩ : Position Nat) sigmaFiles)).node?
      (.ofString "ΑΣ.ts")).map (fun n => (n.label, n.dependencyCount, n.role)) =
        some ("ΑΣ.ts", 1, .core) := by
  refine ⟨⟨[], ".ts".toList, rfl⟩, ?_⟩
  have hnode : (ofFiles (⟨0, 0⟩ : Position Nat) sigmaFiles).node? (.ofString "ΑΣ.ts") =
      some ⟨.ofString "ΑΣ.ts", "ΑΣ.ts", "ΑΣ.ts", 1, 0, false, .core, ⟨0, 0⟩⟩ := by cbv
  have hmarks (n : Node Nat) (hn : n.label = "ΑΣ.ts") :
      (RoleRules.mk ["ΑΣ"] 3).folded.marks n = false := by
    rw [RoleRules.marks, hn, lowercase_sigmaLabel]
    simp only [RoleRules.folded, List.map_cons, List.map_nil, List.any_cons, List.any_nil,
      lowercase_sigmaMarker]
    decide
  rw [RoleRules.classify, node?_assign, hnode, Option.map_some, Option.map_some, RoleRules.roleOf,
    hmarks _ rfl]
  rfl

end ModuleAtlas.Graph
