import Mathlib.Logic.Function.Iterate
import ModuleAtlas.Proofs.Layout.OuterZones
import ModuleAtlas.Proofs.Layout.Relaxed
import ModuleAtlas.Random.ChaCha

/-!
# What is left to chance

A layout in zones takes two numbers from its generator for each node of the core and no others
(`Zoned.scatter_eq`), and what it makes of a graph depends on these numbers only
(`Zoned.layout?_congr`). They say where the core starts, so a node outside the core is where it is
put by the settings and its number among those of its role (`Zoned.placedAt_outer`), whatever the
generator and whatever else the graph holds. Nor do they count for whether there is a layout at all,
which takes a zone with room for the core (`Zoned.layout?_eq_none_iff`).
-/

namespace ModuleAtlas

variable {α γ δ : Type} [Scalar α]

/-! ### A zone without room -/

namespace ForceField

variable {f : ForceField α} {bodies : Array (Body α)}

theorem le_of_clamp? {low high a b : α} (h : Scalar.clamp? low high a = some b) :
    Scalar.le low high = true := by
  rw [Scalar.clamp?] at h
  split at h
  · contradiction
  · next hle => simpa using hle

theorem confine?_eq_none (h : ¬f.HasRoom) (b : Body α) : f.confine? b = none := by
  rw [confine?]
  split
  · next x y hx hy => exact absurd ⟨le_of_clamp? hx, le_of_clamp? hy⟩ h
  · rfl

theorem tick_eq_none (h : ¬f.HasRoom) (alpha : α) (hb : 0 < bodies.size) :
    f.tick alpha bodies = none := by
  have hsize : (f.recenter ((f.collide (f.repel alpha (f.attract alpha bodies))).map
      Body.drift)).toList.length = bodies.size := by
    rw [Array.length_toList, size_recenter, Array.size_map, size_collide, size_repel, size_attract]
  rw [tick, Array.mapM_eq_mapM_toList]
  obtain ⟨b, bs, hbs⟩ := List.exists_cons_of_length_pos (hsize.symm ▸ hb)
  rw [hbs, List.mapM_cons, confine?_eq_none h b]
  rfl

/-- Bodies that are to move at all need room to do so. -/
theorem simulate_eq_none_iff (hb : 0 < bodies.size) :
    f.simulate bodies = none ↔ f.settings.iterations ≠ 0 ∧ ¬f.HasRoom := by
  rw [simulate]
  cases f.settings.iterations with
  | zero => simp [run]
  | succ n =>
    constructor
    · intro hnone
      refine ⟨Nat.succ_ne_zero n, fun hroom => ?_⟩
      obtain ⟨last, hlast⟩ := exists_run hroom (cooling (n + 1)) (n + 1) (Scalar.ofNat 1) bodies
      exact Option.some_ne_none last (hlast.symm.trans hnone)
    · rintro ⟨-, hroom⟩
      rw [run, tick_eq_none hroom _ hb]

end ForceField

namespace Zoned

variable {draw : γ → α × γ} {draw' : δ → α × δ} {g h : Graph α} {settings : LayoutSettings α}
  {role : Role} {s : γ} {s' : δ} {k v : Nat}

/-- A graph has no layout if its core is to move and there is no room for it. -/
theorem layout?_eq_none_iff : (layout? draw g settings s).1 = none ↔
    members g .core ≠ [] ∧ settings.iterations ≠ 0 ∧ ¬settings.HasRoom := by
  have hmap : (layout? draw g settings s).1 = none ↔ (core? draw g settings s).1 = none :=
    Option.map_eq_none_iff
  rw [hmap, core?_eq]
  by_cases hcore : members g .core = []
  · simp [hcore]
  · have hlength : 0 < (scatter draw (Zone.ofRole settings .core) (members g .core).length
        s).1.toArray.size := by
      rw [List.size_toArray, length_scatter]
      exact List.length_pos_of_ne_nil hcore
    rw [if_neg (by rwa [List.isEmpty_iff]), Option.map_eq_none_iff, relaxed?,
      ForceField.simulate_eq_none_iff hlength]
    exact (and_iff_right hcore).symm

/-! ### Numbers from a generator -/

/-- The first numbers that come from a generator. -/
def draws (draw : γ → α × γ) : Nat → γ → List α
  | 0, _ => []
  | n + 1, s => (draw s).1 :: draws draw n (draw s).2

/-- Bodies at rest around the centre of a zone, one for every two numbers. -/
def bodiesAt (z : Zone α) : List α → List (Body α)
  | u :: v :: rest =>
    .rest (z.center.x + (u - 0.5) * z.width * 0.8) (z.center.y + (v - 0.5) * z.height * 0.8) ::
      bodiesAt z rest
  | _ => []

/-- Two numbers are taken for each body, and nothing else is asked of the generator. -/
theorem scatter_eq (draw : γ → α × γ) (z : Zone α) (n : Nat) (s : γ) :
    scatter draw z n s =
      (bodiesAt z (draws draw (2 * n) s), (fun s => (draw s).2)^[2 * n] s) := by
  induction n generalizing s with
  | zero => rfl
  | succ n ih =>
    rw [scatter]
    dsimp only
    rw [ih]
    rfl

/-- What is left of the generator. -/
theorem layout?_snd (draw : γ → α × γ) (g : Graph α) (settings : LayoutSettings α) (s : γ) :
    (layout? draw g settings s).2 = (fun s => (draw s).2)^[2 * (members g .core).length] s := by
  have hcore : (core? draw g settings s).2 =
      (scatter draw (Zone.ofRole settings .core) (members g .core).length s).2 := by
    rw [core?]
    dsimp only
    split <;> rfl
  rw [scatter_eq] at hcore
  exact hcore

/-- Generators that begin alike lead to the same layout. -/
theorem layout?_congr (hdraws : draws draw (2 * (members g .core).length) s =
      draws draw' (2 * (members g .core).length) s') :
    (layout? draw g settings s).1 = (layout? draw' g settings s').1 := by
  have hcore : (core? draw g settings s).1 = (core? draw' g settings s').1 := by
    rw [core?_eq, core?_eq, relaxed?, relaxed?, scatter_eq, scatter_eq, hdraws]
  exact congrArg (Option.map _) hcore

/-- The graph with those nodes placed that have a fixed place. -/
def withFixed (g : Graph α) (settings : LayoutSettings α) : Graph α :=
  g.placeAt (scatterPositions g.size (fixed g settings))

/-- Without a core that is all, and no number is taken. -/
theorem layout?_of_no_core (hcore : members g .core = []) (draw : γ → α × γ)
    (settings : LayoutSettings α) (s : γ) :
    layout? draw g settings s = (some (withFixed g settings), s) := by
  have hplaced : core? draw g settings s = (some [], s) := by
    rw [core?, hcore]
    rfl
  rw [layout?, hplaced]
  dsimp only
  rw [Option.map_some, List.append_nil]
  rfl

theorem arrange?_of_no_core (hcore : members g .core = []) (settings : LayoutSettings α)
    (hzoned : settings.strategy = .zoned) (r : RandomSource α γ) :
    g.arrange? settings r = some (withFixed g settings) := by
  rw [Graph.arrange?, hzoned]
  dsimp only
  rw [layout?_of_no_core hcore]

/-! ### Outside the core -/

/-- Where so many nodes of a role are put. -/
def outerPlaces (settings : LayoutSettings α) (role : Role) (count : Nat) : List (Position α) :=
  (Zone.ofRole settings role).gridCells count settings.minSeparation

/-- The place of a node outside the core is known from its number among those of its role, and how
many these are. -/
theorem placedAt_outer (hlayout : (layout? draw g settings s).1 = some h) (hrole : role ≠ .core)
    (hv : (members g role)[k]? = some v) :
    ∃ p, (outerPlaces settings role (members g role).length)[k]? = some p ∧ h.PlacedAt v p := by
  obtain ⟨hk, -⟩ := List.getElem?_eq_some_iff.1 hv
  have hcell : k < (outerPlaces settings role (members g role).length).length := by
    simpa [outerPlaces, Zone.gridCells] using hk
  have hgrid : (v, (outerPlaces settings role (members g role).length)[k]) ∈
      gridded g settings role :=
    List.mem_of_getElem? (List.getElem?_zip_eq_some.2 ⟨hv, List.getElem?_eq_getElem hcell⟩)
  refine ⟨_, List.getElem?_eq_getElem hcell, placedAt_of_mem_fixed hlayout ?_⟩
  cases role with
  | core => contradiction
  | utility => exact List.mem_append_left _ hgrid
  | standalone => exact List.mem_append_right _ hgrid

/-- Two graphs have as many nodes of each role outside the core. -/
def SameOuter (g g' : Graph α) : Prop :=
  ∀ role, role ≠ .core → (members g role).length = (members g' role).length

/-- Node by node, those of a role outside the core are at the same places in two layouts. -/
def OuterAgree (g g' h h' : Graph α) : Prop :=
  ∀ role, role ≠ .core → ∀ k v v' : Nat, (members g role)[k]? = some v →
    (members g' role)[k]? = some v' → ∃ p, h.PlacedAt v p ∧ h'.PlacedAt v' p

theorem outerAgree_of_sameOuter {g' h' : Graph α} (hsame : SameOuter g g')
    (hlayout : (layout? draw g settings s).1 = some h)
    (hlayout' : (layout? draw' g' settings s').1 = some h') : OuterAgree g g' h h' := by
  intro role hrole k v v' hv hv'
  obtain ⟨p, hp, hplaced⟩ := placedAt_outer hlayout hrole hv
  obtain ⟨p', hp', hplaced'⟩ := placedAt_outer hlayout' hrole hv'
  rw [← hsame role hrole] at hp'
  obtain rfl := Option.some.inj (hp.symm.trans hp')
  exact ⟨p, hplaced, hplaced'⟩

/-- Chance moves the core only. Two graphs with as many nodes of each role outside the core, laid
out with any two generators, have these at the same places, node by node. There is a layout unless
the core is to move and has no room to; it takes two numbers for each node of the core from the
generator, and depends on no others. So without a core it is the same for every seed, and without
one. -/
theorem chance_moves_core (settings : LayoutSettings α) (g g' : Graph α) (hsame : SameOuter g g')
    (draw : γ → α × γ) (draw' : δ → α × δ) (s : γ) (s' : δ) :
    (∀ h h', (layout? draw g settings s).1 = some h →
      (layout? draw' g' settings s').1 = some h' → OuterAgree g g' h h') ∧
    ((layout? draw g settings s).1 = none ↔
      members g .core ≠ [] ∧ settings.iterations ≠ 0 ∧ ¬settings.HasRoom) ∧
    (layout? draw g settings s).2 = (fun s => (draw s).2)^[2 * (members g .core).length] s ∧
    (draws draw (2 * (members g .core).length) s = draws draw' (2 * (members g .core).length) s' →
      (layout? draw g settings s).1 = (layout? draw' g settings s').1) ∧
    (members g .core = [] → ∃ h, layout? draw g settings s = (some h, s) ∧
      layout? draw' g settings s' = (some h, s') ∧
      (settings.strategy = .zoned → ∀ (r : RandomSource α γ) (seed : Option UInt64),
        g.arrange? { settings with seed } r = some h)) := by
  refine ⟨fun h h' => outerAgree_of_sameOuter hsame, layout?_eq_none_iff,
    layout?_snd draw g settings s, layout?_congr, fun hcore => ?_⟩
  -- Fixed places do not depend on the seed.
  exact ⟨withFixed g settings, layout?_of_no_core hcore draw settings s,
    layout?_of_no_core hcore draw' settings s',
    fun hzoned r seed => arrange?_of_no_core hcore { settings with seed } hzoned r⟩

/-- A utility and a file that stands alone. -/
def coreless : Graph Float :=
  RoleRules.standard.classify
    (.ofFiles ⟨0, 0⟩ [fileNamed "util.ts" ["util.ts"], fileNamed "a.ts" []])

/-- The same behind a file of the core. -/
def cored : Graph Float :=
  RoleRules.standard.classify (.ofFiles ⟨0, 0⟩
    [fileNamed "b.ts" ["util.ts"], fileNamed "util.ts" [], fileNamed "a.ts" []])

theorem members_coreless : members coreless .utility = [0] ∧ members coreless .core = [] ∧
    members coreless .standalone = [1] := by
  decide +kernel

theorem members_cored : members cored .utility = [1] ∧ members cored .core = [0] ∧
    members cored .standalone = [2] := by
  decide +kernel

theorem hasRoom_standard : (LayoutSettings.standard : LayoutSettings Float).HasRoom := by
  constructor <;> decide +kernel

/-- The utility is at one place in both graphs; two numbers are taken for the core of the second. -/
theorem chance_moves_core_pair : SameOuter coreless cored ∧ ∃ h h',
    layout? Generator.unit coreless .standard (.ofSeed 1) = (some h, .ofSeed 1) ∧
      layout? Generator.unit cored .standard (.ofSeed 2) = (some h', (Generator.ofSeed 2).skip 2) ∧
      ∃ p, h.PlacedAt 0 p ∧ h'.PlacedAt 1 p := by
  obtain ⟨hutility, hcore, hstandalone⟩ := members_coreless
  obtain ⟨hutility', hcore', hstandalone'⟩ := members_cored
  have hsame : SameOuter coreless cored := by
    intro role hrole
    cases role with
    | core => contradiction
    | utility => rw [hutility, hutility']; rfl
    | standalone => rw [hstandalone, hstandalone']; rfl
  have hsame' : SameOuter cored coreless := fun role hrole => (hsame role hrole).symm
  obtain ⟨hplaces, -, -, -, hno⟩ := chance_moves_core .standard coreless cored hsame Generator.unit
    Generator.unit (.ofSeed 1) (.ofSeed 2)
  obtain ⟨-, hnone, htaken, -⟩ := chance_moves_core .standard cored coreless hsame' Generator.unit
    Generator.unit (.ofSeed 2) (.ofSeed 1)
  obtain ⟨h, hlayout, -⟩ := hno hcore
  have hsome : (layout? Generator.unit cored .standard (.ofSeed 2)).1 ≠ none :=
    fun heq => (hnone.1 heq).2.2 hasRoom_standard
  obtain ⟨h', hlayout'⟩ := Option.ne_none_iff_exists'.1 hsome
  refine ⟨hsame, h, h', hlayout, Prod.ext hlayout' ?_, ?_⟩
  · rw [htaken, hcore']
    rfl
  · exact hplaces h h' (congrArg Prod.fst hlayout) hlayout' .utility (by decide) 0 0 1
      (by rw [hutility]; rfl) (by rw [hutility']; rfl)

/-- A canvas with a zone for the core whose upper bound is rounded down below the lower one. -/
def roundedCanvas : LayoutSettings Float :=
  { (LayoutSettings.standard : LayoutSettings Float) with canvasWidth := 100.2 }

/-- There the file of the core keeps the utility from being placed. -/
theorem core_unplaced_rounded : SameOuter coreless cored ∧
    (∃ h, (layout? Generator.unit coreless roundedCanvas (.ofSeed 1)).1 = some h) ∧
      (layout? Generator.unit cored roundedCanvas (.ofSeed 1)).1 = none := by
  obtain ⟨hutility, hcore, hstandalone⟩ := members_coreless
  obtain ⟨hutility', hcore', hstandalone'⟩ := members_cored
  refine ⟨fun role hrole => ?_, ?_, layout?_eq_none_iff.2 ⟨?_, ?_, ?_⟩⟩
  · cases role with
    | core => contradiction
    | utility => rw [hutility, hutility']; rfl
    | standalone => rw [hstandalone, hstandalone']; rfl
  · exact ⟨_, congrArg Prod.fst (layout?_of_no_core hcore Generator.unit roundedCanvas _)⟩
  · rw [hcore']
    exact List.cons_ne_nil 0 []
  · decide
  · rintro ⟨hwidth, -⟩
    revert hwidth
    decide +kernel

end Zoned

end ModuleAtlas
