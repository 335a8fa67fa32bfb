import Mathlib.Data.List.Basic
import ModuleAtlas.Proofs.Layout.FixedPlaces
import ModuleAtlas.Proofs.Layout.Room
import ModuleAtlas.Proofs.Layout.Settling

/-!
# Places of the core

The core is relaxed (`Zoned.relaxed?`) and pushed apart, and neither loses a body
(`ForceField.size_simulate`, `Spacing.size_settle`). So each node of the core gets a point of its own
(`Zoned.size_pushedApart`), and is where that point is put on the grid (`Zoned.placedAt_core`).
-/

namespace ModuleAtlas

variable {α γ : Type} [Scalar α]

/-! ### How many bodies there are -/

namespace ForceField

variable {f : ForceField α} {alpha decay : α} {bodies bodies' : Array (Body α)} {n : Nat}

theorem size_attract (f : ForceField α) (alpha : α) (bodies : Array (Body α)) :
    (f.attract alpha bodies).size = bodies.size :=
  Spacing.foldl_keeps Array.size (fun bodies link => by simp [attractAlong]) _ _

theorem size_repel (f : ForceField α) (alpha : α) (bodies : Array (Body α)) :
    (f.repel alpha bodies).size = bodies.size :=
  Array.size_mapIdx

theorem size_collidePair (f : ForceField α) (i : Nat) (bodies : Array (Body α)) (j : Nat) :
    (f.collidePair i bodies j).size = bodies.size := by
  rw [collidePair]
  split <;> simp

theorem size_collide (f : ForceField α) (bodies : Array (Body α)) :
    (f.collide bodies).size = bodies.size :=
  Spacing.foldl_keeps Array.size
    (fun _ i => Spacing.foldl_keeps Array.size (size_collidePair f i) _ _) _ _

theorem size_recenter (f : ForceField α) (bodies : Array (Body α)) :
    (f.recenter bodies).size = bodies.size :=
  Array.size_map

theorem forall₂_of_mapM_eq_some {β δ : Type} {g : β → Option δ} {bs : List β} {ds : List δ}
    (h : bs.mapM g = some ds) : List.Forall₂ (fun b d => g b = some d) bs ds := by
  induction bs generalizing ds with
  | nil =>
    rw [List.mapM_nil] at h
    obtain rfl := Option.some.inj h
    exact .nil
  | cons b bs ih =>
    rw [List.mapM_cons] at h
    obtain ⟨d, hd, h⟩ := Option.bind_eq_some_iff.1 h
    obtain ⟨rest, hrest, h⟩ := Option.bind_eq_some_iff.1 h
    obtain rfl := Option.some.inj h
    exact .cons hd (ih hrest)

theorem size_tick (h : f.tick alpha bodies = some bodies') : bodies'.size = bodies.size := by
  rw [tick, Array.mapM_eq_mapM_toList] at h
  obtain ⟨bs, hbs, rfl⟩ := Option.map_eq_some_iff.1 h
  rw [List.size_toArray, ← (forall₂_of_mapM_eq_some hbs).length_eq, Array.length_toList,
    size_recenter, Array.size_map, size_collide, size_repel, size_attract]

theorem size_run (h : f.run decay n alpha bodies = some bodies') : bodies'.size = bodies.size := by
  induction n generalizing alpha bodies with
  | zero =>
    rw [run] at h
    rw [Option.some.inj h]
  | succ n ih =>
    rw [run] at h
    split at h
    · next next hnext => rw [ih h, size_tick hnext]
    · contradiction

theorem size_simulate (h : f.simulate bodies = some bodies') : bodies'.size = bodies.size :=
  size_run h

end ForceField

namespace Zoned

variable {draw : γ → α × γ} {g g' : Graph α} {settings : LayoutSettings α} {s : γ}
  {bodies : Array (Body α)} {k v : Nat}

/-! ### Where nodes of the core go -/

/-- The core relaxed by forces from random places; `none` if its zone has no room. -/
def relaxed? (draw : γ → α × γ) (g : Graph α) (settings : LayoutSettings α) (s : γ) :
    Option (Array (Body α)) :=
  let zone := Zone.ofRole settings .core
  (ForceField.ofGraph settings zone g.successors (members g .core)).simulate
    (scatter draw zone (members g .core).length s).1.toArray

/-- The core pushed apart, and away from the fixed places. -/
def pushedApart (g : Graph α) (settings : LayoutSettings α) (bodies : Array (Body α)) : Spacing α :=
  separated settings ((fixed g settings).map Prod.snd) bodies

theorem length_scatter (draw : γ → α × γ) (z : Zone α) (n : Nat) (s : γ) :
    (scatter draw z n s).1.length = n := by
  induction n generalizing s with
  | zero => rfl
  | succ n ih => exact congrArg Nat.succ (ih _)

/-- Each node of the core gets a point of its own. -/
theorem size_pushedApart (h : relaxed? draw g settings s = some bodies) :
    (pushedApart g settings bodies).points.size = (members g .core).length := by
  have hpoints : (pushedApart g settings bodies).points.size = bodies.size :=
    (Spacing.size_settle ..).trans Array.size_map
  rw [hpoints, ForceField.size_simulate h, List.size_toArray, length_scatter]

/-- Where a node of the core is in the end, by its number among these. -/
def corePlace (g : Graph α) (settings : LayoutSettings α) (bodies : Array (Body α)) (k : Nat) :
    Position α :=
  Spacing.snap settings.gridSize ((pushedApart g settings bodies).points.getD k .origin)

theorem core?_eq (draw : γ → α × γ) (g : Graph α) (settings : LayoutSettings α) (s : γ) :
    (core? draw g settings s).1 =
      if (members g .core).isEmpty then some []
      else (relaxed? draw g settings s).map fun bodies => (members g .core).zip
        ((pushedApart g settings bodies).points.toList.map (Spacing.snap settings.gridSize)) := by
  rw [core?]
  dsimp only
  split <;> rfl

/-- The core is in its places, one for each node. -/
theorem core_of_relaxed? {core : List (Nat × Position α)}
    (hcore : (core? draw g settings s).1 = some core)
    (hrelaxed : relaxed? draw g settings s = some bodies) (hv : (members g .core)[k]? = some v) :
    core.map Prod.fst = members g .core ∧ (v, corePlace g settings bodies k) ∈ core := by
  have hsize := size_pushedApart hrelaxed
  obtain ⟨hk, -⟩ := List.getElem?_eq_some_iff.1 hv
  have hnonempty : ¬(members g .core).isEmpty := by
    rw [List.isEmpty_iff_length_eq_zero]
    omega
  rw [core?_eq, if_neg hnonempty, hrelaxed] at hcore
  rw [← Option.some.inj hcore]
  constructor
  · exact List.map_fst_zip (by simp [hsize])
  · refine List.mem_of_getElem? (List.getElem?_zip_eq_some.2 ⟨hv, ?_⟩)
    rw [List.getElem?_map, Array.getElem?_toList, corePlace, Array.getD_eq_getD_getElem?,
      Array.getElem?_eq_getElem (hsize ▸ hk)]
    rfl

theorem placedAt_core (h : (layout? draw g settings s).1 = some g')
    (hrelaxed : relaxed? draw g settings s = some bodies) (hv : (members g .core)[k]? = some v) :
    g'.PlacedAt v (corePlace g settings bodies k) := by
  obtain ⟨core, hcore, rfl⟩ : ∃ core, (core? draw g settings s).1 = some core ∧ _ :=
    Option.map_eq_some_iff.1 h
  obtain ⟨a, ha, -⟩ := mem_members.1 (List.mem_of_getElem? hv)
  obtain ⟨hfst, hmem⟩ := core_of_relaxed? hcore hrelaxed hv
  obtain ⟨before, behind, rfl⟩ := List.append_of_mem hmem
  rw [← List.append_assoc]
  exact placedAt_placeAt (List.getElem?_eq_some_iff.1 ha).1
    (not_mem_behind (hfst ▸ nodup_members g .core))

end Zoned

end ModuleAtlas
