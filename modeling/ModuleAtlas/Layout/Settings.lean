import ModuleAtlas.Layout.Scalar
import ModuleAtlas.Graph.Basic

/-!
# Settings of a layout
-/

namespace ModuleAtlas

/-- How the nodes of a graph are placed. -/
inductive Strategy where
  /-- In rows, by rank. -/
  | layered
  /-- In a zone for each role, the core relaxed by forces. -/
  | zoned
deriving DecidableEq, Repr, Inhabited

def Strategy.name : Strategy → String
  | layered => "layered"
  | zoned => "zoned"

def Strategy.ofName? : String → Option Strategy
  | "layered" => some layered
  | "zoned" => some zoned
  | _ => none

structure LayoutSettings (α : Type) where
  strategy : Strategy
  /-- The seed of the first placement in zones. -/
  seed : Option UInt64
  nodeWidth : α
  nodeHeight : α
  rankSeparation : α
  nodeSeparation : α
  canvasWidth : α
  canvasHeight : α
  iterations : Nat
  minSeparation : α
  gridSize : α
  linkDistance : α
  linkStrength : α
  chargeStrength : α
  chargeDistanceMin : α
  chargeDistanceMax : α
  centerStrength : α
deriving Repr, Inhabited

/-- The settings where nothing else is said. -/
def LayoutSettings.standard {α : Type} [Scalar α] : LayoutSettings α where
  strategy := .layered
  seed := none
  nodeWidth := 160.0
  nodeHeight := 24.0
  rankSeparation := 100.0
  nodeSeparation := 80.0
  canvasWidth := 2000.0
  canvasHeight := 1200.0
  iterations := 300
  minSeparation := 80.0
  gridSize := 20.0
  linkDistance := 200.0
  linkStrength := 1.0
  chargeStrength := -400.0
  chargeDistanceMin := 100.0
  chargeDistanceMax := 400.0
  centerStrength := 1.0

namespace Position

variable {α : Type} [Scalar α]

def origin : Position α := ⟨Scalar.ofNat 0, Scalar.ofNat 0⟩

@[inline] def distance (p q : Position α) : α := Scalar.hypot (p.x - q.x) (p.y - q.y)

end Position

/-- The graph with the given positions, by the numbers of the nodes. -/
def Graph.placeAt {α : Type} [Scalar α] (g : Graph α) (positions : Array (Position α)) : Graph α :=
  g.annotate fun i n => { n with position := positions.getD i .origin }

end ModuleAtlas
