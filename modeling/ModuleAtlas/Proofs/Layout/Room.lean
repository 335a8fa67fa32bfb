import Mathlib
import ModuleAtlas.Layout.Arrange
import ModuleAtlas.Proofs.Layout.Reals

/-!
# Room for the core

The one thing that keeps a graph from being placed is that the bodies of the core are to stay within
bounds that are no range. Where they are (`LayoutSettings.HasRoom`), every graph is placed
(`Graph.exists_arrange?`); with exact arithmetic they always are (`hasRoom_real`), but an upper bound
that has been rounded down may lie below the lower one.
-/

namespace ModuleAtlas

variable {α γ : Type} [Scalar α]

namespace ForceField

variable {f : ForceField α}

/-- In both directions, the bounds that bodies are confined to are a range. -/
def HasRoom (f : ForceField α) : Prop :=
  Scalar.le (f.zone.x + f.inset f.zone.width) (f.zone.x + f.zone.width - f.inset f.zone.width) =
      true ∧
    Scalar.le (f.zone.y + f.inset f.zone.height)
      (f.zone.y + f.zone.height - f.inset f.zone.height) = true

theorem exists_clamp? {low high : α} (h : Scalar.le low high = true) (a : α) :
    ∃ b, Scalar.clamp? low high a = some b := by
  rw [Scalar.clamp?, h]
  exact ⟨_, rfl⟩

theorem exists_confine? (h : f.HasRoom) (b : Body α) : ∃ b', f.confine? b = some b' := by
  obtain ⟨x, hx⟩ := exists_clamp? h.1 b.x
  obtain ⟨y, hy⟩ := exists_clamp? h.2 b.y
  exact ⟨{ b with x, y }, by rw [confine?, hx, hy]⟩

theorem exists_mapM {β δ : Type} {g : β → Option δ} (h : ∀ b, ∃ d, g b = some d) (bs : List β) :
    ∃ ds, bs.mapM g = some ds := by
  induction bs with
  | nil => exact ⟨[], rfl⟩
  | cons b bs ih =>
    obtain ⟨d, hd⟩ := h b
    obtain ⟨ds, hds⟩ := ih
    exact ⟨d :: ds, by rw [List.mapM_cons, hd, hds]; rfl⟩

theorem exists_tick (h : f.HasRoom) (alpha : α) (bodies : Array (Body α)) :
    ∃ bodies', f.tick alpha bodies = some bodies' := by
  rw [tick, Array.mapM_eq_mapM_toList]
  obtain ⟨bs, hbs⟩ := exists_mapM (exists_confine? h)
    (f.recenter ((f.collide (f.repel alpha (f.attract alpha bodies))).map Body.drift)).toList
  exact ⟨bs.toArray, by rw [hbs]; rfl⟩

theorem exists_run (h : f.HasRoom) (decay : α) (n : Nat) (alpha : α) (bodies : Array (Body α)) :
    ∃ bodies', f.run decay n alpha bodies = some bodies' := by
  induction n generalizing alpha bodies with
  | zero => exact ⟨bodies, rfl⟩
  | succ n ih =>
    obtain ⟨next, hnext⟩ := exists_tick h (alpha - alpha * decay) bodies
    rw [run, hnext]
    exact ih _ next

end ForceField

/-- The zone of the core has room for bodies. -/
def LayoutSettings.HasRoom (settings : LayoutSettings α) : Prop :=
  ForceField.HasRoom ⟨settings, Zone.ofRole settings .core, [], #[]⟩

theorem Zoned.exists_layout? {settings : LayoutSettings α} (h : settings.HasRoom)
    (draw : γ → α × γ) (g : Graph α) (s : γ) : ∃ g', (layout? draw g settings s).1 = some g' := by
  have hcore : ∃ placed, (core? draw g settings s).1 = some placed := by
    rw [core?]
    obtain ⟨bodies, s'⟩ := scatter draw (Zone.ofRole settings .core) (members g .core).length s
    simp only
    split
    · exact ⟨[], rfl⟩
    · rw [ForceField.simulate]
      obtain ⟨last, hlast⟩ := ForceField.exists_run (f := ForceField.ofGraph settings
        (Zone.ofRole settings .core) g.successors (members g .core)) h
        (ForceField.cooling settings.iterations) settings.iterations (Scalar.ofNat 1) bodies.toArray
      exact ⟨_, congrArg (Option.map _) hlast⟩
  obtain ⟨placed, hplaced⟩ := hcore
  rw [layout?]
  exact ⟨_, congrArg (Option.map _) hplaced⟩

/-- A graph is placed in rows whatever the settings, and in zones if there is room. -/
theorem Graph.exists_arrange? {settings : LayoutSettings α}
    (h : settings.strategy = .zoned → settings.HasRoom) (g : Graph α) (r : RandomSource α γ) :
    ∃ g', g.arrange? settings r = some g' := by
  rw [arrange?]
  cases hstrategy : settings.strategy with
  | layered => exact ⟨_, rfl⟩
  | zoned => exact Zoned.exists_layout? (h hstrategy) r.draw g _

theorem ForceField.inset_le (f : ForceField ℝ) (extent : ℝ) : f.inset extent ≤ extent / 2 := by
  have h : f.inset extent ≤ extent / 2.0 := min_le_right _ _
  norm_num at h
  exact h

/-- The inset is taken twice from the zone, and no more than half of it each time. -/
theorem hasRoom_real (settings : LayoutSettings ℝ) : settings.HasRoom := by
  have hle (f : ForceField ℝ) (corner extent : ℝ) :
      Scalar.le (corner + f.inset extent) (corner + extent - f.inset extent) = true := by
    have h := f.inset_le extent
    exact decide_eq_true (by linarith)
  exact ⟨hle _ _ _, hle _ _ _⟩

end ModuleAtlas
