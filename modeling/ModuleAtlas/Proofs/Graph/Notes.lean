import ModuleAtlas.Proofs.Graph.Stages
import ModuleAtlas.Proofs.Layout.Room

/-!
# Stages that do not touch each other's notes

A stage notes one thing at the nodes of a graph: marks, roles or places (`OnlyNotes`). What it notes
it finds out from the outline of the graph (`noted`), which all stages leave as it is. So a stage that
is repeated notes the same once more (`noted_again`), and it makes no difference which of two stages
comes first that note different things (`noted_annotate`, `noted_comm`).

Two stages ask for more than the outline: placement in zones asks for roles, and the move to a focus
for places. Neither asks for marks, so marking commutes with both (`stages_independent`).
-/

namespace ModuleAtlas

variable {α β δ : Type}

namespace Node

def withMark (isCircular : Bool) (n : Node α) : Node α := { n with isCircular }

def withRole (role : Role) (n : Node α) : Node α := { n with role }

def withPosition (position : Position α) (n : Node α) : Node α := { n with position }

def moved [Add α] (dx dy : α) (n : Node α) : Node α :=
  n.withPosition ⟨n.position.x + dx, n.position.y + dy⟩

end Node

namespace Graph

variable {g h : Graph α} {f : Nat → Node α → Node α} {note : β → Node α → Node α}
  {note' : δ → Node α → Node α}

/-- The second graph has the edges of the first one, and its nodes but for one note at each. -/
structure OnlyNotes (note : β → Node α → Node α) (g h : Graph α) : Prop where
  edges : h.edges = g.edges
  nodes : List.Forall₂ (fun n m => ∃ b, m = note b n) g.nodes h.nodes

/-! ### Changing the nodes one by one -/

theorem annotate_annotate (g : Graph α) (f f' : Nat → Node α → Node α) :
    (g.annotate f).annotate f' = g.annotate fun i n => f' i (f i n) :=
  Graph.ext List.mapIdx_mapIdx rfl rfl

/-- What no change touches can be read off the nodes as before. -/
theorem map_annotate {read : Node α → δ} (hf : ∀ i n, read (f i n) = read n) :
    (g.annotate f).nodes.map read = g.nodes.map read := by
  refine List.ext_getElem? fun i => ?_
  simp [annotate, Function.comp_def, hf]

theorem map_node?_annotate {read : Node α → δ} (hf : ∀ i n, read (f i n) = read n) (id : Path) :
    ((g.annotate f).node? id).map read = (g.node? id).map read := by
  rw [node?, node?, indexOf?_annotate, Option.map_bind, Option.map_bind]
  refine congrArg (Option.bind (g.indexOf? id)) (funext fun i => ?_)
  simp [annotate, Function.comp_def, hf]

theorem onlyNotes_annotate (hf : ∀ i n, ∃ b, f i n = note b n) :
    OnlyNotes note g (g.annotate f) where
  edges := rfl
  nodes := by
    refine List.forall₂_iff_get.2 ⟨by simp [annotate], fun i hi hi' => ?_⟩
    simpa [annotate] using hf i g.nodes[i]

/-! ### Stages that ask for the outline -/

theorem indexOf?_outline (g : Graph α) : g.outline.indexOf? = g.indexOf? := rfl

theorem successors_outline (g : Graph α) : g.outline.successors = g.successors := by
  rw [successors, successors, indexOf?_outline, outline, List.map_map]
  rfl

/-- The graph with a note at each node that is found out from the outline. -/
def noted (note : β → Node α → Node α) (find : Graph Unit → Nat → Node Unit → β) (g : Graph α) :
    Graph α :=
  g.annotate fun i n => note (find g.outline i n.outline) n

section Noted

variable {find : Graph Unit → Nat → Node Unit → β} {find' : Graph Unit → Nat → Node Unit → δ}
  (hnote : ∀ b n, (note b n).outline = n.outline)

theorem onlyNotes_noted : OnlyNotes note g (noted note find g) :=
  onlyNotes_annotate fun _ _ => ⟨_, rfl⟩

/-- A stage commutes with all changes that keep the outline and do not touch its note. -/
theorem noted_annotate (hf : ∀ i n, (f i n).outline = n.outline)
    (hcomm : ∀ b i n, note b (f i n) = f i (note b n)) :
    noted note find (g.annotate f) = (noted note find g).annotate f := by
  rw [noted, noted, annotate_annotate, annotate_annotate, outline_annotate hf]
  simp only [hf, hcomm]

include hnote

theorem outline_noted : (noted note find g).outline = g.outline :=
  outline_annotate fun _ _ => hnote _ _

theorem noted_comm (hnote' : ∀ b n, (note' b n).outline = n.outline)
    (hcomm : ∀ b c n, note b (note' c n) = note' c (note b n)) :
    noted note find (noted note' find' g) = noted note' find' (noted note find g) := by
  have hfirst : noted note find (noted note' find' g) = (noted note find g).annotate fun i n =>
      note' (find' g.outline i n.outline) n := by
    refine noted_annotate (fun i n => hnote' _ _) fun b i n => ?_
    rw [hcomm, hnote]
  rw [hfirst]
  conv_rhs => rw [noted, outline_noted hnote]

/-- The second time the same is noted. -/
theorem noted_again (hagain : ∀ b c n, note b (note c n) = note b n) :
    noted note find (noted note find g) = noted note find g := by
  have hout : (noted note find g).outline = g.outline := outline_noted hnote
  rw [noted, hout, noted, annotate_annotate]
  simp only [hnote, hagain]

end Noted

theorem markCycles_eq (g : Graph α) : g.markCycles =
    noted Node.withMark (fun o i _ => (circularFlags o.successors).getD i false) g := by
  rw [noted, successors_outline]
  rfl

theorem assign_eq (r : RoleRules) (g : Graph α) :
    r.assign g = noted Node.withRole (fun _ _ n => r.roleOf n) g := rfl

theorem layout_eq [Scalar α] (settings : LayoutSettings α) (g : Graph α) : Layered.layout g settings =
    noted Node.withPosition (fun o i _ =>
      (Layered.positions o.successors (inferRanks o.successors) settings).getD i .origin) g := by
  rw [noted, successors_outline]
  rfl

/-- Marking commutes with all changes that keep the outline and do not touch marks. -/
theorem markCycles_annotate (hf : ∀ i n, (f i n).outline = n.outline)
    (hcomm : ∀ b i n, (f i n).withMark b = f i (n.withMark b)) :
    (g.annotate f).markCycles = g.markCycles.annotate f := by
  rw [markCycles_eq, markCycles_eq, noted_annotate hf hcomm]

end Graph

/-! ### Stages that ask for notes -/

namespace Zoned

theorem members_eq (g : Graph α) (role : Role) : members g role =
    (g.nodes.map (·.role)).zipIdx.filterMap fun (k, i) => if k = role then some i else none := by
  rw [members, List.zipIdx_map, List.filterMap_map]
  rfl

theorem members_markCycles (g : Graph α) (role : Role) :
    members g.markCycles role = members g role := by
  have hroles : g.markCycles.nodes.map (·.role) = g.nodes.map (·.role) :=
    Graph.map_annotate fun _ _ => rfl
  rw [members_eq, members_eq, hroles]

theorem successors_markCycles (g : Graph α) : g.markCycles.successors = g.successors := by
  have hout : g.markCycles.outline = g.outline := Graph.outline_annotate fun _ _ => rfl
  rw [← Graph.successors_outline, hout, Graph.successors_outline]

variable [Scalar α] {γ : Type}

theorem fixed_markCycles (g : Graph α) (settings : LayoutSettings α) :
    fixed g.markCycles settings = fixed g settings := by
  simp only [fixed, gridded, members_markCycles]

/-- Placement in zones puts marked nodes where it puts unmarked ones, with the same draws. -/
theorem layout?_markCycles (draw : γ → α × γ) (g : Graph α) (settings : LayoutSettings α) (s : γ) :
    layout? draw g.markCycles settings s =
      ((layout? draw g settings s).1.map Graph.markCycles, (layout? draw g settings s).2) := by
  have hcore : core? draw g.markCycles settings s = core? draw g settings s := by
    simp only [core?, members_markCycles, successors_markCycles, fixed_markCycles]
  have hsize : g.markCycles.size = g.size := by simp [Graph.size, Graph.markCycles, Graph.annotate]
  have hplace (ps : Array (Position α)) : g.markCycles.placeAt ps = (g.placeAt ps).markCycles :=
    (Graph.markCycles_annotate (f := fun i n => n.withPosition (ps.getD i .origin))
      (fun _ _ => rfl) fun _ _ _ => rfl).symm
  rw [layout?, layout?, hcore, hsize, fixed_markCycles]
  simp only [hplace, Option.map_map]
  rfl

end Zoned

namespace Graph

variable [Scalar α]

theorem centerOn?_markCycles (g : Graph α) (id : Path) (settings : LayoutSettings α) :
    g.markCycles.centerOn? id settings = (g.centerOn? id settings).map markCycles := by
  let shift (p : Position α) (_ : Nat) (m : Node α) : Node α :=
    m.moved (settings.canvasWidth / 2.0 - p.x) (settings.canvasHeight / 2.0 - p.y)
  have hcenter (g : Graph α) : g.centerOn? id settings =
      ((g.node? id).map (·.position)).map fun p => g.annotate (shift p) := by
    rw [centerOn?, Option.map_map]
    rfl
  have hposition : (g.markCycles.node? id).map (·.position) = (g.node? id).map (·.position) := by
    refine map_node?_annotate ?_ id
    exact fun _ _ => rfl
  rw [hcenter, hcenter, hposition]
  conv_rhs => rw [Option.map_map]
  refine congrArg (Option.map · ((g.node? id).map (·.position))) (funext fun p => ?_)
  exact (markCycles_annotate (f := shift p) (fun _ _ => rfl) fun _ _ _ => rfl).symm

/-- Each stage changes its own notes only, those that ask for the outline change nothing when they are
repeated, and the order of two stages that note different things makes no difference. -/
structure Independent (r : RoleRules) (settings : LayoutSettings α) (g : Graph α) : Prop where
  marks : OnlyNotes Node.withMark g g.markCycles
  roles : OnlyNotes Node.withRole g (r.assign g)
  rows : OnlyNotes Node.withPosition g (Layered.layout g settings)
  zones : ∀ (γ : Type) (draw : γ → α × γ) (s : γ), ∀ h ∈ (Zoned.layout? draw g settings s).1,
    OnlyNotes Node.withPosition g h
  focus : ∀ id, ∀ h ∈ g.centerOn? id settings, OnlyNotes Node.withPosition g h
  marks_again : g.markCycles.markCycles = g.markCycles
  roles_again : r.assign (r.assign g) = r.assign g
  rows_again : Layered.layout (Layered.layout g settings) settings = Layered.layout g settings
  marks_roles : (r.assign g).markCycles = r.assign g.markCycles
  marks_rows : (Layered.layout g settings).markCycles = Layered.layout g.markCycles settings
  roles_rows : r.assign (Layered.layout g settings) = Layered.layout (r.assign g) settings
  marks_zones : ∀ (γ : Type) (draw : γ → α × γ) (s : γ),
    Zoned.layout? draw g.markCycles settings s =
      ((Zoned.layout? draw g settings s).1.map markCycles, (Zoned.layout? draw g settings s).2)
  marks_focus : ∀ id,
    g.markCycles.centerOn? id settings = (g.centerOn? id settings).map markCycles

/-- The stages are independent of each other, whatever has been noted in the graph before. -/
theorem stages_independent (r : RoleRules) (settings : LayoutSettings α) (g : Graph α) :
    Independent r settings g where
  marks := by
    rw [markCycles_eq]
    exact onlyNotes_noted
  roles := by
    rw [assign_eq]
    exact onlyNotes_noted
  rows := by
    rw [layout_eq]
    exact onlyNotes_noted
  zones _ draw s h hh := by
    obtain ⟨_, -, rfl⟩ := Option.map_eq_some_iff.1 hh
    exact onlyNotes_annotate fun _ _ => ⟨_, rfl⟩
  focus id h hh := by
    obtain ⟨_, -, rfl⟩ := Option.map_eq_some_iff.1 hh
    exact onlyNotes_annotate fun _ _ => ⟨_, rfl⟩
  marks_again := by
    rw [markCycles_eq, markCycles_eq]
    exact noted_again (fun _ _ => rfl) fun _ _ _ => rfl
  roles_again := by
    rw [assign_eq, assign_eq]
    exact noted_again (fun _ _ => rfl) fun _ _ _ => rfl
  rows_again := by
    rw [layout_eq, layout_eq]
    exact noted_again (fun _ _ => rfl) fun _ _ _ => rfl
  marks_roles := by
    rw [markCycles_eq, markCycles_eq, assign_eq, assign_eq]
    exact noted_comm (fun _ _ => rfl) (fun _ _ => rfl) fun _ _ _ => rfl
  marks_rows := by
    rw [markCycles_eq, markCycles_eq, layout_eq, layout_eq]
    exact noted_comm (fun _ _ => rfl) (fun _ _ => rfl) fun _ _ _ => rfl
  roles_rows := by
    rw [layout_eq, layout_eq, assign_eq, assign_eq]
    exact noted_comm (fun _ _ => rfl) (fun _ _ => rfl) fun _ _ _ => rfl
  marks_zones _ draw s := Zoned.layout?_markCycles draw g settings s
  marks_focus id := centerOn?_markCycles g id settings

/-- Two files that import each other. -/
noncomputable def couple : Graph ℝ :=
  .ofFiles ⟨0, 0⟩ [⟨⟨[97]⟩, "a", [⟨[98]⟩]⟩, ⟨⟨[98]⟩, "b", [⟨[97]⟩]⟩]

/-- The couple is put into its zone, and marked there or before. -/
theorem stages_independent_couple : ∃ h,
    (Zoned.layout? (fun s : Unit => (0, s)) couple .standard ()).1 = some h ∧
    OnlyNotes Node.withPosition couple h ∧
    (Zoned.layout? (fun s : Unit => (0, s)) couple.markCycles .standard ()).1 =
      some h.markCycles := by
  obtain ⟨h, hh⟩ := Zoned.exists_layout? (hasRoom_real .standard) (fun s : Unit => (0, s)) couple ()
  have hindependent := stages_independent .standard .standard couple
  refine ⟨h, hh, hindependent.zones Unit _ () h hh, ?_⟩
  rw [hindependent.marks_zones Unit, hh]
  rfl

end Graph

end ModuleAtlas
