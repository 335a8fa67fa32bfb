import ModuleAtlas.Layout.Settings

/-!
# Zones of the canvas

The canvas has three columns: utilities to the left, the core in the middle, files that stand alone
to the right. In the outer zones nodes stand on a grid.
-/

namespace ModuleAtlas

variable {α : Type} [Scalar α]

/-- A rectangle, from its upper left corner. -/
structure Zone (α : Type) where
  x : α
  y : α
  width : α
  height : α
deriving Repr, Inhabited

namespace Zone

def center (z : Zone α) : Position α := ⟨z.x + z.width / 2.0, z.y + z.height / 2.0⟩

/-- Whether a point lies in the zone, its border included. -/
def contains (z : Zone α) (p : Position α) : Bool :=
  Scalar.le z.x p.x && Scalar.le p.x (z.x + z.width) &&
    Scalar.le z.y p.y && Scalar.le p.y (z.y + z.height)

/-- The zone of a role. -/
def ofRole (settings : LayoutSettings α) (role : Role) : Zone α :=
  let w := settings.canvasWidth
  let side := w * 0.2
  match role with
  | .utility => ⟨Scalar.ofNat 0, Scalar.ofNat 0, side, settings.canvasHeight⟩
  | .core => ⟨side, Scalar.ofNat 0, w - 2.0 * side, settings.canvasHeight⟩
  | .standalone => ⟨w - side, Scalar.ofNat 0, side, settings.canvasHeight⟩

/-- The number of columns of a square grid for so many cells. -/
def gridSide (α : Type) [Scalar α] (count : Nat) : Nat :=
  max (Scalar.ceilNat (Scalar.sqrt (Scalar.ofNat count : α))) 1

/-- The centres of the cells of a grid over the zone, row by row. Cells are at least `minPitch`
apart, even if the grid then runs over the zone to the right and below. -/
def gridCells (z : Zone α) (count : Nat) (minPitch : α) : List (Position α) :=
  let side := gridSide α count
  let pitchX := Scalar.max (z.width / Scalar.ofNat side) minPitch
  let pitchY := Scalar.max (z.height / Scalar.ofNat side) minPitch
  (List.range count).map fun i =>
    ⟨z.x + pitchX * (Scalar.ofNat (i % side) + 0.5),
      z.y + pitchY * (Scalar.ofNat (i / side) + 0.5)⟩

end Zone

end ModuleAtlas
