import ModuleAtlas.Layout.Settings

/-!
# Spacing

Points are pushed apart until every two of them, and every point and every obstacle, are a given
distance apart. A sweep looks at every pair once; sweeps are repeated until one moves nothing, or
until there have been too many.
-/

namespace ModuleAtlas

/-- Points that are pushed apart. -/
structure Spacing (α : Type) where
  points : Array (Position α)
  /-- Whether a point has been moved. -/
  moved : Bool
deriving Repr, Inhabited

namespace Spacing

variable {α : Type} [Scalar α]

/-- A distance that counts as none. -/
@[inline] def epsilon : α := 1e-9

/-- The unit vector from `b` to `a`, which are `d` apart. If they coincide, a direction that depends
on `salt` alone; successive ones are a golden angle apart. -/
@[specialize] def direction (a b : Position α) (d : α) (salt : Nat) : Position α :=
  if Scalar.lt d epsilon then
    let angle := Scalar.ofNat salt * 2.399963229728653
    ⟨Scalar.cos angle, Scalar.sin angle⟩
  else ⟨(a.x - b.x) / d, (a.y - b.y) / d⟩

/-- Pushes two points apart, each by the same way. -/
@[specialize] def pushPair (spacing : α) (i : Nat) (s : Spacing α) (j : Nat) : Spacing α :=
  let a := s.points.getD i .origin
  let b := s.points.getD j .origin
  let d := a.distance b
  if Scalar.le (spacing - epsilon) d then s
  else
    let u := direction a b d (i + j)
    let shift := (spacing - d) / 2.0 + epsilon
    { points := (s.points.setIfInBounds i ⟨a.x + u.x * shift, a.y + u.y * shift⟩).setIfInBounds j
        ⟨b.x - u.x * shift, b.y - u.y * shift⟩
      moved := true }

/-- Pushes a point away from an obstacle. -/
@[specialize] def pushOff (spacing : α) (i : Nat) (s : Spacing α) (obstacle : Position α) :
    Spacing α :=
  let a := s.points.getD i .origin
  let d := a.distance obstacle
  if Scalar.le (spacing - epsilon) d then s
  else
    let u := direction a obstacle d i
    let shift := spacing - d + epsilon
    { points := s.points.setIfInBounds i ⟨a.x + u.x * shift, a.y + u.y * shift⟩, moved := true }

/-- Looks at one point with all later points, then with all obstacles. -/
@[specialize] def sweepFrom (obstacles : List (Position α)) (spacing : α) (s : Spacing α) (i : Nat) :
    Spacing α :=
  let later := List.range' (i + 1) (s.points.size - (i + 1))
  obstacles.foldl (pushOff spacing i) (later.foldl (pushPair spacing i) s)

/-- Looks at every pair once. -/
@[specialize] def sweep (obstacles : List (Position α)) (spacing : α)
    (points : Array (Position α)) : Spacing α :=
  (List.range points.size).foldl (sweepFrom obstacles spacing) ⟨points, false⟩

/-- Sweeps until nothing moves, but no more than so many times. -/
@[specialize] def settle (obstacles : List (Position α)) (spacing : α) :
    Nat → Array (Position α) → Spacing α
  | 0, points => ⟨points, true⟩
  | n + 1, points =>
    let s := sweep obstacles spacing points
    if s.moved then settle obstacles spacing n s.points else s

/-- The point of a grid that is nearest; the point itself if the grid has no pitch. -/
def snap (grid : α) (p : Position α) : Position α :=
  if Scalar.le grid (Scalar.ofNat 0) then p
  else ⟨Scalar.round (p.x / grid) * grid, Scalar.round (p.y / grid) * grid⟩

end Spacing

end ModuleAtlas
