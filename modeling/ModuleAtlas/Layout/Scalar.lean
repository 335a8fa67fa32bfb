import ModuleAtlas.Decimal.Exact

/-!
# Numbers of a layout

What a layout asks of its numbers. The program lays out with floating-point numbers; the same
definitions read with real numbers say what the layout is meant to be.

* `Scalar` lists the operations and comparisons;
* the instance for `Float` fixes what they do with infinities, with NaN and with negative zero.
-/

namespace ModuleAtlas

/-- Numbers that a layout can be computed with. -/
class Scalar (α : Type) extends Add α, Sub α, Mul α, Div α, Neg α, OfScientific α where
  ofNat : Nat → α
  /-- At most; false if either is not a number. -/
  le : α → α → Bool
  /-- The greater one; the other one if one is not a number. -/
  max : α → α → α
  /-- The smaller one; the other one if one is not a number. -/
  min : α → α → α
  /-- At most, in a total order of all values. -/
  sortsBefore : α → α → Bool
  /-- Where the first of a row goes that is `pitch` apart, if it wants to be at `wanted`. -/
  rowStart : (pitch wanted : α) → α
  abs : α → α
  sqrt : α → α
  hypot : α → α → α
  pow : α → α → α
  cos : α → α
  sin : α → α
  /-- The nearest integer, the one away from zero of two. -/
  round : α → α
  /-- The least natural number that is not smaller. -/
  ceilNat : α → Nat

namespace Scalar

variable {α : Type} [Scalar α]

instance : Inhabited α := ⟨ofNat 0⟩

/-- Less than: at most, and not at least. -/
@[inline] def lt (a b : α) : Bool := le a b && !le b a

/-- The sum of a list, from its first element on. -/
@[specialize] def sum : List α → α
  | [] => ofNat 0
  | a :: rest => rest.foldl (· + ·) a

/-- The nearest number within bounds; `none` if the bounds are no range. -/
@[inline] def clamp? (low high a : α) : Option α :=
  if !le low high then none
  else
    let b := if lt a low then low else a
    some (if lt high b then high else b)

end Scalar

/-! ### Floating point -/

namespace Floating

/-- The hypotenuse for legs of ordinary size, the longer one first: the root of the sum of squares
and one step of correction. -/
def hypotenuseOf (a b : Float) : Float :=
  let h := Float.sqrt (a * a + b * b)
  let excess :=
    if h ≤ 2.0 * b then
      let d := h - b
      a * (2.0 * d - a) + (d - 2.0 * (a - b)) * d
    else
      let d := h - a
      2.0 * d * (a - 2.0 * b) + ((4.0 * d - b) * b + d * d)
  h - excess / (2.0 * h)

/-- The hypotenuse of a right triangle; the squares of its legs need not be finite. -/
def hypotenuse (x y : Float) : Float :=
  let a := if x.abs < y.abs then y.abs else x.abs
  let b := if x.abs < y.abs then x.abs else y.abs
  let scale := Float.scaleB 1.0 600
  if x.isInf || y.isInf then 1.0 / 0.0
  else if x.isNaN || y.isNaN then 0.0 / 0.0
  else if b ≤ a * Float.scaleB 1.0 (-54) then a + b
  else if a > Float.scaleB 1.0 511 then hypotenuseOf (a / scale) (b / scale) * scale
  else if b < Float.scaleB 1.0 (-459) then hypotenuseOf (a * scale) (b * scale) / scale
  else hypotenuseOf a b

/-- The total order of floating-point numbers: what is not a number before everything, and negative
zero before zero. -/
def sortsBefore (a b : Float) : Bool :=
  a.isNaN || (!b.isNaN && (a < b || (a == b && (Decimal.isNegative a || !Decimal.isNegative b))))

def maximum (a b : Float) : Float := if a.isNaN || a < b then b else a

def minimum (a b : Float) : Float := if a.isNaN || b < a then b else a

end Floating

instance : Scalar Float where
  ofNat := Float.ofNat
  le a b := a ≤ b
  max := Floating.maximum
  min := Floating.minimum
  sortsBefore := Floating.sortsBefore
  rowStart pitch wanted := Floating.maximum wanted (-1.0 / 0.0 + pitch)
  abs := Float.abs
  sqrt := Float.sqrt
  hypot := Floating.hypotenuse
  pow := Float.pow
  cos := Float.cos
  sin := Float.sin
  round := Float.round
  ceilNat a := a.ceil.toUInt64.toNat

end ModuleAtlas
