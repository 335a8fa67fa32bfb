import Mathlib
import ModuleAtlas.Proofs.Layout.Grid
import ModuleAtlas.Proofs.Layout.Quotients

/-!
# Bodies stay in their zone

With exact arithmetic the core of a graph starts within its zone (`Zoned.contains_of_mem_scatter`),
and a tick ends with all bodies in the zone (`ForceField.contains_of_tick`), wherever the forces have
driven them; so it is after each tick of a run (`ForceField.contains_of_run`). With partial arithmetic
the run comes to the same numbers (`Zoned.after?_value`), since no quotient on the way is by zero.
`Zoned.relaxation_defined` puts this together.
-/

namespace ModuleAtlas

open PartialReal

namespace ForceField

variable {f : ForceField ℝ} {b b' : Body ℝ} {bodies bodies' : Array (Body ℝ)} {alpha decay : ℝ}
  {n : Nat}

theorem mem_range_of_clamp? {low high x y : ℝ} (h : Scalar.clamp? low high x = some y) :
    low ≤ y ∧ y ≤ high := by
  rw [Scalar.clamp?] at h
  split at h
  · contradiction
  · next hrange =>
    have hrange : low ≤ high := by simpa [Scalar.le] using hrange
    simp only [Scalar.lt_real, Option.some.injEq] at h
    subst h
    split <;> split <;> constructor <;> linarith

theorem inset_nonneg {extent : ℝ} (hm : 0 ≤ f.settings.minSeparation) (he : 0 ≤ extent) :
    0 ≤ f.inset extent :=
  le_min (div_nonneg hm (by norm_num)) (div_nonneg he (by norm_num))

/-- The zone has an extent, and bodies stay away from its border. -/
structure IsProper (f : ForceField ℝ) : Prop where
  separation : 0 ≤ f.settings.minSeparation
  width : 0 ≤ f.zone.width
  height : 0 ≤ f.zone.height

theorem contains_of_confine? (hf : f.IsProper) (h : f.confine? b = some b') :
    f.zone.contains b'.position = true := by
  have hx := inset_nonneg hf.separation hf.width
  have hy := inset_nonneg hf.separation hf.height
  rw [confine?] at h
  split at h
  · next x y hclampX hclampY =>
    obtain rfl := Option.some.inj h
    obtain ⟨hleft, hright⟩ := mem_range_of_clamp? hclampX
    obtain ⟨htop, hbottom⟩ := mem_range_of_clamp? hclampY
    refine Zone.contains_iff.2 ⟨?_, ?_, ?_, ?_⟩
    · exact (le_add_of_nonneg_right hx).trans hleft
    · exact hright.trans (sub_le_self _ hx)
    · exact (le_add_of_nonneg_right hy).trans htop
    · exact hbottom.trans (sub_le_self _ hy)
  · contradiction

/-- Wherever the forces drive a body, a tick ends with it in the zone. -/
theorem contains_of_tick (hf : f.IsProper) (h : f.tick alpha bodies = some bodies') :
    ∀ b ∈ bodies', f.zone.contains b.position = true := by
  rw [tick, Array.mapM_eq_mapM_toList] at h
  obtain ⟨bs, hbs, rfl⟩ := Option.map_eq_some_iff.1 h
  intro b hb
  obtain ⟨i, hi, rfl⟩ := List.getElem_of_mem (List.mem_toArray.1 hb)
  obtain ⟨hlength, hconfine⟩ := List.forall₂_iff_get.1 (forall₂_of_mapM_eq_some hbs)
  exact contains_of_confine? hf (hconfine i (hlength ▸ hi) hi)

theorem contains_of_run (hf : f.IsProper) (h : f.run decay n alpha bodies = some bodies')
    (hstart : ∀ b ∈ bodies, f.zone.contains b.position = true) :
    ∀ b ∈ bodies', f.zone.contains b.position = true := by
  induction n generalizing alpha bodies with
  | zero =>
    obtain rfl := Option.some.inj h
    exact hstart
  | succ n ih =>
    rw [run] at h
    split at h
    · next next hnext => exact ih h (contains_of_tick hf hnext)
    · contradiction

end ForceField

/-! ### The core of a graph -/

namespace Zoned

section Relaxation

variable {α γ : Type} [Scalar α] (draw : γ → α × γ) (settings : LayoutSettings α)
  (adjacency : Array (List Nat)) (members : List Nat) (s : γ)

/-- What the core moves in. -/
def field : ForceField α :=
  .ofGraph settings (Zone.ofRole settings .core) adjacency members

/-- The core at its start. -/
def start : Array (Body α) :=
  (scatter draw (Zone.ofRole settings .core) members.length s).1.toArray

/-- The core after the first so many ticks. -/
def after? (ticks : Nat) : Option (Array (Body α)) :=
  (field settings adjacency members).run (ForceField.cooling settings.iterations) ticks
    (Scalar.ofNat 1) (start draw settings members s)

end Relaxation

variable {γ : Type} {draw : γ → ℝ × γ} {settings : LayoutSettings ℝ} {adjacency : Array (List Nat)}
  {members : List Nat} {s : γ}

/-- No draw leads further away from the centre than four tenths of the extent. -/
theorem scatter_range {corner extent u : ℝ} (he : 0 ≤ extent) (hu : 0 ≤ u ∧ u < 1) :
    corner ≤ corner + extent / 2 + (u - 1 / 2) * extent * (4 / 5) ∧
      corner + extent / 2 + (u - 1 / 2) * extent * (4 / 5) ≤ corner + extent := by
  have hlow : 0 ≤ u * extent := mul_nonneg hu.1 he
  have hhigh : 0 ≤ (1 - u) * extent := mul_nonneg (sub_nonneg.2 hu.2.le) he
  constructor <;> nlinarith

theorem contains_of_mem_scatter {z : Zone ℝ} {n : Nat} (hw : 0 ≤ z.width) (hh : 0 ≤ z.height)
    (hdraw : ∀ s, 0 ≤ (draw s).1 ∧ (draw s).1 < 1) :
    ∀ b ∈ (scatter draw z n s).1, z.contains b.position = true := by
  induction n generalizing s with
  | zero => exact fun b hb => absurd hb List.not_mem_nil
  | succ n ih =>
    have hhead (u v : ℝ) (hu : 0 ≤ u ∧ u < 1) (hv : 0 ≤ v ∧ v < 1) :
        z.contains (Body.rest (z.center.x + (u - 0.5) * z.width * 0.8)
          (z.center.y + (v - 0.5) * z.height * 0.8)).position = true := by
      have hhalf : (0.5 : ℝ) = 1 / 2 := by norm_num
      have htwo : (2.0 : ℝ) = 2 := by norm_num
      have hshare : (0.8 : ℝ) = 4 / 5 := by norm_num
      obtain ⟨hleft, hright⟩ := scatter_range hw hu
      obtain ⟨htop, hbottom⟩ := scatter_range hh hv
      rw [Zone.contains_iff, hhalf, hshare, Zone.center, htwo]
      exact ⟨hleft, hright, htop, hbottom⟩
    rw [scatter]
    exact List.forall_mem_cons.2 ⟨hhead _ _ (hdraw _) (hdraw _), ih⟩

theorem isProper_field (hw : 0 ≤ settings.canvasWidth) (hh : 0 ≤ settings.canvasHeight)
    (hm : 0 ≤ settings.minSeparation) : (field settings adjacency members).IsProper where
  separation := hm
  width := by
    -- both outer zones together take two fifths of the canvas
    have houter : 2.0 * (settings.canvasWidth * 0.2) ≤ settings.canvasWidth := by
      have htwo : (2.0 : ℝ) = 2 := by norm_num
      have hshare : (0.2 : ℝ) = 1 / 5 := by norm_num
      rw [htwo, hshare]
      linarith
    exact sub_nonneg.2 houter
  height := hh

theorem size_start (draw : γ → ℝ × γ) (settings : LayoutSettings ℝ) (members : List Nat) (s : γ) :
    (start draw settings members s).size = members.length := by
  rw [start, List.size_toArray, length_scatter]

/-! ### Partial arithmetic -/

theorem field_value (settings : LayoutSettings ℝ) (adjacency : Array (List Nat))
    (members : List Nat) :
    field (settings.map value) adjacency members = (field settings adjacency members).map value := by
  rw [field, Zone.ofRole_value]
  rfl

theorem start_value (draw : γ → ℝ × γ) (settings : LayoutSettings ℝ) (members : List Nat) (s : γ) :
    start (drawn draw) (settings.map value) members s =
      (start draw settings members s).map (Body.map value) := by
  rw [start, start, Zone.ofRole_value, scatter_value, List.map_toArray]

theorem after?_value (draw : γ → ℝ × γ) (settings : LayoutSettings ℝ) (adjacency : Array (List Nat))
    (hmembers : members ≠ []) (s : γ) (ticks : Nat) :
    after? (drawn draw) (settings.map value) adjacency members s ticks =
      (after? draw settings adjacency members s ticks).map (Array.map (Body.map value)) := by
  have hsize : (start draw settings members s).size ≠ 0 := by
    rwa [size_start, ne_eq, List.length_eq_zero_iff]
  have hlinks : (field settings adjacency members).CountsLinks :=
    ForceField.countsLinks_ofGraph settings _ adjacency members
  rw [after?, after?, field_value, start_value, LayoutSettings.map_iterations,
    ForceField.cooling_value, ofNat_eq]
  exact ForceField.run_value hlinks _ ticks _ hsize

/-- Let a core that is not empty be relaxed by whatever forces on a canvas whose sides, like the
separation of bodies, are not negative. The bounds that bodies are confined to are a range. After any
number of ticks the core is the same with partial arithmetic, where no number comes from a quotient by
zero, as with exact arithmetic; and all bodies, as many as the core has nodes, are in its zone. -/
theorem relaxation_defined (settings : LayoutSettings ℝ) (adjacency : Array (List Nat))
    (hmembers : members ≠ []) (hw : 0 ≤ settings.canvasWidth) (hh : 0 ≤ settings.canvasHeight)
    (hm : 0 ≤ settings.minSeparation) (hdraw : ∀ s, 0 ≤ (draw s).1 ∧ (draw s).1 < 1) (s : γ) :
    settings.HasRoom ∧
    (∀ ticks, ∃ bodies, after? draw settings adjacency members s ticks = some bodies ∧
      after? (drawn draw) (settings.map value) adjacency members s ticks =
        some (bodies.map (Body.map value)) ∧
      bodies.size = members.length ∧
      ∀ b ∈ bodies, (Zone.ofRole settings .core).contains b.position = true) ∧
    (field settings adjacency members).simulate (start draw settings members s) =
      after? draw settings adjacency members s settings.iterations := by
  have hroom : (field settings adjacency members).HasRoom := hasRoom_real settings
  have hproper : (field settings adjacency members).IsProper := isProper_field hw hh hm
  refine ⟨hasRoom_real settings, fun ticks => ?_, rfl⟩
  obtain ⟨bodies, hbodies⟩ : ∃ bodies, after? draw settings adjacency members s ticks = some bodies :=
    ForceField.exists_run hroom _ ticks _ _
  refine ⟨bodies, hbodies, ?_, ?_, ?_⟩
  · rw [after?_value draw settings adjacency hmembers, hbodies, Option.map_some]
  · rw [ForceField.size_run hbodies, size_start]
  · refine ForceField.contains_of_run hproper hbodies fun b hb => ?_
    exact contains_of_mem_scatter hproper.width hproper.height hdraw b (List.mem_toArray.1 hb)

/-- All draws are the same, so that all bodies are at one place. -/
noncomputable def corner (s : Unit) : ℝ × Unit := (0, s)

/-- Two bodies with a link between them start there. -/
theorem relaxation_defined_coincident :
    ∃ bodies, (field .standard #[[1], []] [0, 1]).simulate (start corner .standard [0, 1] ()) =
        some bodies ∧
      after? (drawn corner) (LayoutSettings.standard.map value) #[[1], []] [0, 1] () 300 =
        some (bodies.map (Body.map value)) ∧
      bodies.size = 2 ∧
      ∀ b ∈ bodies, (Zone.ofRole (.standard : LayoutSettings ℝ) .core).contains b.position = true := by
  have hw : (0 : ℝ) ≤ LayoutSettings.standard.canvasWidth := by norm_num [LayoutSettings.standard]
  have hh : (0 : ℝ) ≤ LayoutSettings.standard.canvasHeight := by norm_num [LayoutSettings.standard]
  have hm : (0 : ℝ) ≤ LayoutSettings.standard.minSeparation := by norm_num [LayoutSettings.standard]
  have hdraw (s : Unit) : 0 ≤ (corner s).1 ∧ (corner s).1 < 1 := by norm_num [corner]
  obtain ⟨-, hticks, hsimulate⟩ := relaxation_defined .standard #[[1], []] (List.cons_ne_nil 0 [1])
    hw hh hm hdraw ()
  obtain ⟨bodies, hbodies, hpartial, hsize, hwithin⟩ := hticks 300
  exact ⟨bodies, hsimulate.trans hbodies, hpartial, hsize, hwithin⟩

end Zoned

end ModuleAtlas
