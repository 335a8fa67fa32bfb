import ModuleAtlas.Layout.Settings
import ModuleAtlas.Layout.Ranks

/-!
# Layered placement

Nodes stand in rows by rank, what imports above what it imports. The rows are placed from the lowest
one up. A node wants to be centred over those below that it points to, or in its slot of the row if
there are none; in the order of these wishes each node goes where it wants to be, or as far to the
right as the node before it demands.
-/

namespace ModuleAtlas.Layered

variable {α : Type} [Scalar α]

/-- The nodes of a rank, in the order of the graph. -/
def row (ranks : Array Nat) (rank : Nat) : List Nat :=
  (List.range ranks.size).filter fun v => ranks.getD v 0 = rank

/-- Where a node wants to be that has the given slot in its row. -/
@[specialize] def wanted (adjacency : Array (List Nat)) (ranks : Array Nat) (pitch : α)
    (xs : Array α) (slot v : Nat) : α :=
  let below := (adjacency.getD v []).filter fun w => ranks.getD v 0 < ranks.getD w 0
  if below.isEmpty then Scalar.ofNat slot * pitch
  else
    let sum := Scalar.sum (below.map fun w => xs.getD w (Scalar.ofNat 0))
    sum / Scalar.ofNat below.length

/-- The nodes of a row with their wishes, in the order of these. -/
@[specialize] def wishes (adjacency : Array (List Nat)) (ranks : Array Nat) (pitch : α)
    (xs : Array α) (nodes : List Nat) : List (α × Nat) :=
  (nodes.zipIdx.map fun (v, slot) => (wanted adjacency ranks pitch xs slot v, v)).mergeSort
    fun a b => Scalar.sortsBefore a.1 b.1

/-- Places nodes in the order of their wishes, the last one placed before them at `previous`. -/
@[specialize] def placeWishes (pitch : α) : Option α → List (α × Nat) → Array α → Array α
  | _, [], xs => xs
  | previous, (x, v) :: rest, xs =>
    let placed := match previous with
      | none => Scalar.rowStart pitch x
      | some p => Scalar.max x (p + pitch)
    placeWishes pitch (some placed) rest (xs.setIfInBounds v placed)

/-- Places a row, with all rows below placed. -/
@[specialize] def placeRow (adjacency : Array (List Nat)) (ranks : Array Nat) (pitch : α)
    (xs : Array α) (rank : Nat) : Array α :=
  placeWishes pitch none (wishes adjacency ranks pitch xs (row ranks rank)) xs

/-- The distance of neighbours in a row. -/
def pitch (settings : LayoutSettings α) : α := settings.nodeWidth + settings.nodeSeparation

/-- The distance of rows. -/
def rowHeight (settings : LayoutSettings α) : α := settings.nodeHeight + settings.rankSeparation

/-- The place of each node in its row. -/
@[specialize] def columns (adjacency : Array (List Nat)) (ranks : Array Nat) (pitch : α) : Array α :=
  let deepest := ranks.foldl max 0
  (List.range (deepest + 1)).reverse.foldl (placeRow adjacency ranks pitch)
    (.replicate ranks.size (Scalar.ofNat 0))

/-- The positions of all nodes. -/
def positions (adjacency : Array (List Nat)) (ranks : Array Nat) (settings : LayoutSettings α) :
    Array (Position α) :=
  let xs := columns adjacency ranks (pitch settings)
  (Array.range ranks.size).map fun v =>
    ⟨xs.getD v (Scalar.ofNat 0), Scalar.ofNat (ranks.getD v 0) * rowHeight settings⟩

/-- The graph with its nodes in rows. -/
def layout (g : Graph α) (settings : LayoutSettings α) : Graph α :=
  let adjacency := g.successors
  g.placeAt (positions adjacency (inferRanks adjacency) settings)

end ModuleAtlas.Layered
