import ModuleAtlas.Layout.Forces
import ModuleAtlas.Layout.Spacing

/-!
# Placement in zones

Utilities and files that stand alone are put on a grid in their zones. The core starts at random in
its zone, is relaxed by forces, pushed apart so that it stays so when it is put on a grid, and put on
the grid. Random numbers come from any generator, and only the start of the core draws from it.
-/

namespace ModuleAtlas.Zoned

variable {α γ : Type} [Scalar α]

/-- The numbers of the nodes in a role. -/
def members (g : Graph α) (role : Role) : List Nat :=
  g.nodes.zipIdx.filterMap fun (n, i) => if n.role = role then some i else none

/-- The nodes of a role with cells of the grid in its zone. -/
def gridded (g : Graph α) (settings : LayoutSettings α) (role : Role) :
    List (Nat × Position α) :=
  let nodes := members g role
  nodes.zip ((Zone.ofRole settings role).gridCells nodes.length settings.minSeparation)

/-- The nodes that have a fixed place. -/
def fixed (g : Graph α) (settings : LayoutSettings α) : List (Nat × Position α) :=
  gridded g settings .utility ++ gridded g settings .standalone

/-- So many bodies at rest at random places around the centre of a zone. -/
def scatter (draw : γ → α × γ) (z : Zone α) : Nat → γ → List (Body α) × γ
  | 0, s => ([], s)
  | n + 1, s =>
    let (u, s) := draw s
    let (v, s) := draw s
    let b := Body.rest (z.center.x + (u - 0.5) * z.width * 0.8)
      (z.center.y + (v - 0.5) * z.height * 0.8)
    let (rest, s) := scatter draw z n s
    (b :: rest, s)

/-- How far the core is pushed apart: two points may each come closer by half the diagonal of a cell
when they are put on the grid. -/
def spacing (settings : LayoutSettings α) : α :=
  settings.minSeparation + Scalar.max settings.gridSize (Scalar.ofNat 0) * Scalar.sqrt 2.0

/-- How often the core is swept at the most. -/
def sweeps : Nat := 10000

/-- The core pushed apart and away from the obstacles. -/
def separated (settings : LayoutSettings α) (obstacles : List (Position α))
    (bodies : Array (Body α)) : Spacing α :=
  Spacing.settle obstacles (spacing settings) sweeps (bodies.map (·.position))

/-- The core in its place; `none` if its zone has no room. -/
def core? (draw : γ → α × γ) (g : Graph α) (settings : LayoutSettings α) (s : γ) :
    Option (List (Nat × Position α)) × γ :=
  let nodes := members g .core
  let zone := Zone.ofRole settings .core
  let (bodies, s) := scatter draw zone nodes.length s
  if nodes.isEmpty then (some [], s)
  else
    let field := ForceField.ofGraph settings zone g.successors nodes
    let placed := (field.simulate bodies.toArray).map fun bodies =>
      let apart := (separated settings ((fixed g settings).map (·.2)) bodies).points
      nodes.zip (apart.toList.map (Spacing.snap settings.gridSize))
    (placed, s)

/-- Puts positions where they belong. -/
def scatterPositions (n : Nat) (placed : List (Nat × Position α)) : Array (Position α) :=
  placed.foldl (fun ps (i, p) => ps.setIfInBounds i p) (.replicate n .origin)

/-- The graph with all nodes placed, and what is left of the generator; `none` if the core's zone has
no room. -/
def layout? (draw : γ → α × γ) (g : Graph α) (settings : LayoutSettings α) (s : γ) :
    Option (Graph α) × γ :=
  let (core, s) := core? draw g settings s
  (core.map fun core => g.placeAt (scatterPositions g.size (fixed g settings ++ core)), s)

end ModuleAtlas.Zoned
