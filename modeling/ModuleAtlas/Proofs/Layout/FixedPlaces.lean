import Mathlib
import ModuleAtlas.Layout.Zoned

/-!
# Fixed places

Outside the core a node is in the place that it has been given at first (`placedAt_of_mem_fixed`): the
positions of the core come later, but they are for other nodes (`mem_members_of_core?`), and for one
node the last position counts (`getElem?_scatterPositions`).
-/

namespace ModuleAtlas

/-- The node with this number has been placed there. -/
def Graph.PlacedAt {α : Type} (g : Graph α) (v : Nat) (p : Position α) : Prop :=
  ∃ n, g.nodes[v]? = some n ∧ n.position = p

theorem Graph.PlacedAt.unique {α : Type} {g : Graph α} {v : Nat} {p q : Position α}
    (hp : g.PlacedAt v p) (hq : g.PlacedAt v q) : p = q := by
  obtain ⟨a, ha, rfl⟩ := hp
  obtain ⟨b, hb, rfl⟩ := hq
  rw [Option.some.inj (ha.symm.trans hb)]

/-- The node with this number has the role. -/
def Graph.HasRole {α : Type} (g : Graph α) (role : Role) (v : Nat) : Prop :=
  ∃ n, g.nodes[v]? = some n ∧ n.role = role

namespace Zoned

variable {α : Type} {g : Graph α} {role : Role} {v n : Nat} {p : Position α}
  {placed : List (Nat × Position α)}

theorem mem_members : v ∈ members g role ↔ g.HasRole role v := by
  simp only [members, Graph.HasRole, List.mem_filterMap, Prod.exists, List.mem_zipIdx_iff_getElem?]
  constructor
  · rintro ⟨a, i, ha, hv⟩
    split at hv
    · next hrole =>
      obtain rfl := Option.some.inj hv
      exact ⟨a, ha, hrole⟩
    · contradiction
  · rintro ⟨a, ha, hrole⟩
    exact ⟨a, v, ha, if_pos hrole⟩

theorem nodup_members (g : Graph α) (role : Role) : (members g role).Nodup := by
  have heq : members g role = (g.nodes.zipIdx.filter fun c => c.1.role = role).map Prod.snd := by
    rw [members, ← List.filterMap_eq_map, List.filterMap_filter]
    simp
  have hsublist : (members g role).Sublist (g.nodes.zipIdx.map Prod.snd) := by
    rw [heq]
    exact List.filter_sublist.map _
  refine hsublist.nodup ?_
  rw [List.zipIdx_map_snd]
  exact List.nodup_range'

theorem role_eq_of_mem {role' : Role} (h : v ∈ members g role) (h' : v ∈ members g role') :
    role = role' := by
  obtain ⟨a, ha, rfl⟩ := mem_members.1 h
  obtain ⟨b, hb, rfl⟩ := mem_members.1 h'
  rw [Option.some.inj (ha.symm.trans hb)]

/-! ### Where positions go -/

theorem getElem?_put_of_not_mem (h : v ∉ placed.map Prod.fst) (ps : Array (Position α)) :
    (placed.foldl (fun ps (i, p) => ps.setIfInBounds i p) ps)[v]? = ps[v]? := by
  induction placed generalizing ps with
  | nil => rfl
  | cons c rest ih =>
    rw [List.map_cons, List.mem_cons, not_or] at h
    rw [List.foldl_cons, ih h.2, Array.getElem?_setIfInBounds_ne (Ne.symm h.1)]

theorem size_put (ps : Array (Position α)) :
    (placed.foldl (fun ps (i, p) => ps.setIfInBounds i p) ps).size = ps.size := by
  induction placed generalizing ps with
  | nil => rfl
  | cons c rest ih => rw [List.foldl_cons, ih, Array.size_setIfInBounds]

theorem not_mem_behind {before behind : List (Nat × Position α)}
    (h : ((before ++ (v, p) :: behind).map Prod.fst).Nodup) : v ∉ behind.map Prod.fst := by
  rw [List.map_append, List.map_cons] at h
  exact (List.nodup_cons.1 h.of_append_right).1

variable [Scalar α] {γ : Type} {g' : Graph α} {settings : LayoutSettings α} {draw : γ → α × γ}
  {s : γ}

/-- Of the positions for one node the last one counts. -/
theorem getElem?_scatterPositions {before behind : List (Nat × Position α)} (hv : v < n)
    (h : v ∉ behind.map Prod.fst) :
    (scatterPositions n (before ++ (v, p) :: behind))[v]? = some p := by
  rw [scatterPositions, List.foldl_append, List.foldl_cons, getElem?_put_of_not_mem h]
  refine Array.getElem?_setIfInBounds_self_of_lt ?_
  rwa [size_put, Array.size_replicate]

theorem map_fst_gridded (g : Graph α) (settings : LayoutSettings α) (role : Role) :
    (gridded g settings role).map Prod.fst = members g role :=
  List.map_fst_zip (by simp [Zone.gridCells])

theorem mem_map_fst_fixed :
    v ∈ (fixed g settings).map Prod.fst ↔ ∃ role, role ≠ .core ∧ v ∈ members g role := by
  rw [fixed, List.map_append, map_fst_gridded, map_fst_gridded, List.mem_append]
  constructor
  · rintro (h | h)
    · exact ⟨.utility, by decide, h⟩
    · exact ⟨.standalone, by decide, h⟩
  · rintro ⟨role, hrole, h⟩
    cases role with
    | core => contradiction
    | utility => exact .inl h
    | standalone => exact .inr h

theorem nodup_map_fst_fixed (g : Graph α) (settings : LayoutSettings α) :
    ((fixed g settings).map Prod.fst).Nodup := by
  rw [fixed, List.map_append, map_fst_gridded, map_fst_gridded]
  refine (nodup_members g .utility).append (nodup_members g .standalone) fun v hu hs => ?_
  exact absurd (role_eq_of_mem hu hs) (by decide)

theorem mem_members_of_core? (h : (core? draw g settings s).1 = some placed)
    (hv : v ∈ placed.map Prod.fst) : v ∈ members g .core := by
  obtain ⟨⟨_, p⟩, hp, rfl⟩ := List.mem_map.1 hv
  simp only [core?] at h
  split at h
  · obtain rfl := Option.some.inj h
    contradiction
  · obtain ⟨bodies, -, rfl⟩ := Option.map_eq_some_iff.1 h
    exact (List.of_mem_zip hp).1

/-- A node is where it is put last. -/
theorem placedAt_placeAt {before behind : List (Nat × Position α)} (hv : v < g.nodes.length)
    (h : v ∉ behind.map Prod.fst) :
    (g.placeAt (scatterPositions g.size (before ++ (v, p) :: behind))).PlacedAt v p := by
  refine ⟨{ g.nodes[v] with position := p }, ?_, rfl⟩
  rw [Graph.placeAt, Graph.annotate, List.getElem?_mapIdx, List.getElem?_eq_getElem hv,
    Array.getD_eq_getD_getElem?, Graph.size, getElem?_scatterPositions hv h]
  rfl

/-- What has a fixed place is there in the end. -/
theorem placedAt_of_mem_fixed (h : (layout? draw g settings s).1 = some g')
    (hp : (v, p) ∈ fixed g settings) : g'.PlacedAt v p := by
  obtain ⟨core, hcore, rfl⟩ := Option.map_eq_some_iff.1 h
  obtain ⟨role, hrole, hv⟩ := mem_map_fst_fixed.1 (List.mem_map_of_mem hp)
  obtain ⟨a, ha, -⟩ := mem_members.1 hv
  obtain ⟨before, behind, hfixed⟩ := List.append_of_mem hp
  have hlater : v ∉ (behind ++ core).map Prod.fst := by
    rw [List.map_append, List.mem_append, not_or]
    exact ⟨not_mem_behind (hfixed ▸ nodup_map_fst_fixed g settings),
      fun hmem => hrole (role_eq_of_mem hv (mem_members_of_core? hcore hmem))⟩
  rw [hfixed, List.append_assoc, List.cons_append]
  exact placedAt_placeAt (List.getElem?_eq_some_iff.1 ha).1 hlater

end Zoned

end ModuleAtlas
