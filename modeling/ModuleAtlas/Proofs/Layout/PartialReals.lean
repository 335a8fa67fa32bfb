import Mathlib
import ModuleAtlas.Layout.Forces
import ModuleAtlas.Proofs.Layout.Reals

/-!
# Layouts with partial arithmetic

`Scalar` read with real numbers among which a quotient by zero is not defined, nor the root of a
negative number, nor a power of a base that is not positive; what is computed from something undefined
is undefined (`PartialReal`). A layout computed with these numbers divides by zero nowhere if it comes
to the same real numbers as with exact arithmetic (`Reals.lean`), where division is total.
-/

namespace ModuleAtlas

/-- A real number, if there is one. -/
inductive PartialReal where
  | value (x : ℝ)
  | undefined

namespace PartialReal

/-- An operation on one number. -/
def lift (f : ℝ → ℝ) : PartialReal → PartialReal
  | value x => value (f x)
  | undefined => undefined

/-- An operation on two numbers. -/
def lift₂ (f : ℝ → ℝ → ℝ) : PartialReal → PartialReal → PartialReal
  | value x, value y => value (f x y)
  | _, _ => undefined

/-- The number, if it has the property. -/
noncomputable def only (P : ℝ → Prop) [DecidablePred P] : PartialReal → PartialReal
  | value x => if P x then value x else undefined
  | undefined => undefined

/-- A comparison; false if there is nothing to compare. -/
def both (r : ℝ → ℝ → Bool) : PartialReal → PartialReal → Bool
  | value x, value y => r x y
  | _, _ => false

noncomputable instance : Scalar PartialReal where
  add := lift₂ (· + ·)
  sub := lift₂ (· - ·)
  mul := lift₂ (· * ·)
  div a b := lift₂ (· / ·) a (b.only (· ≠ 0))
  neg := lift (- ·)
  ofScientific m s e := value (OfScientific.ofScientific m s e)
  ofNat n := value (Scalar.ofNat n)
  le := both Scalar.le
  max := lift₂ Scalar.max
  min := lift₂ Scalar.min
  sortsBefore := both Scalar.sortsBefore
  rowStart := lift₂ Scalar.rowStart
  abs := lift Scalar.abs
  sqrt a := lift Scalar.sqrt (a.only (0 ≤ ·))
  hypot := lift₂ Scalar.hypot
  pow a b := lift₂ Scalar.pow (a.only (0 < ·)) b
  cos := lift Scalar.cos
  sin := lift Scalar.sin
  round := lift Scalar.round
  ceilNat
    | value x => Scalar.ceilNat x
    | undefined => 0

variable {x y : ℝ}

@[simp] theorem value_add (x y : ℝ) : value x + value y = value (x + y) := rfl

@[simp] theorem value_sub (x y : ℝ) : value x - value y = value (x - y) := rfl

@[simp] theorem value_mul (x y : ℝ) : value x * value y = value (x * y) := rfl

@[simp] theorem value_neg (x : ℝ) : -value x = value (-x) := rfl

theorem value_div (hy : y ≠ 0) : value x / value y = value (x / y) := by
  show lift₂ (· / ·) (value x) (if y ≠ 0 then value y else undefined) = _
  rw [if_pos hy]
  rfl

@[simp] theorem ofScientific_eq (m : Nat) (s : Bool) (e : Nat) :
    (OfScientific.ofScientific m s e : PartialReal) = value (OfScientific.ofScientific m s e) := rfl

@[simp] theorem ofNat_eq (n : Nat) : (Scalar.ofNat n : PartialReal) = value (Scalar.ofNat n) := rfl

@[simp] theorem le_value (x y : ℝ) : Scalar.le (value x) (value y) = Scalar.le x y := (rfl)

@[simp] theorem lt_value (x y : ℝ) : Scalar.lt (value x) (value y) = Scalar.lt x y := (rfl)

@[simp] theorem max_value (x y : ℝ) : Scalar.max (value x) (value y) = value (Scalar.max x y) := rfl

@[simp] theorem min_value (x y : ℝ) : Scalar.min (value x) (value y) = value (Scalar.min x y) := rfl

@[simp] theorem abs_value (x : ℝ) : Scalar.abs (value x) = value (Scalar.abs x) := rfl

@[simp] theorem hypot_value (x y : ℝ) :
    Scalar.hypot (value x) (value y) = value (Scalar.hypot x y) := rfl

/-- Half of a number is a number. -/
@[simp] theorem half_value (x : ℝ) : value x / 2.0 = value (x / 2.0) := value_div (by norm_num)

theorem sqrt_value (hx : 0 ≤ x) : Scalar.sqrt (value x) = value (Scalar.sqrt x) := by
  show lift Scalar.sqrt (if 0 ≤ x then value x else undefined) = _
  rw [if_pos hx]
  rfl

theorem pow_value (hx : 0 < x) : Scalar.pow (value x) (value y) = value (Scalar.pow x y) := by
  show lift₂ Scalar.pow (if 0 < x then value x else undefined) (value y) = _
  rw [if_pos hx]
  rfl

/-- What is chosen between two numbers is a number. -/
theorem ite_value {P : Prop} [Decidable P] (x y : ℝ) :
    (if P then value x else value y) = value (if P then x else y) :=
  (apply_ite value P x y).symm

@[simp] theorem clamp?_value (low high x : ℝ) :
    Scalar.clamp? (value low) (value high) (value x) = (Scalar.clamp? low high x).map value := by
  simp only [Scalar.clamp?, le_value, lt_value, ite_value]
  split <;> rfl

@[simp] theorem sum_value (xs : List ℝ) : Scalar.sum (xs.map value) = value (Scalar.sum xs) := by
  cases xs with
  | nil => rfl
  | cons x xs =>
    rw [List.map_cons, Scalar.sum, Scalar.sum, List.foldl_map]
    exact List.foldl_hom value fun _ _ => rfl

end PartialReal

/-! ### The same data in other numbers -/

section Map

variable {α β : Type} (f : α → β)

@[simps] def Body.map (b : Body α) : Body β := ⟨f b.x, f b.y, f b.vx, f b.vy⟩

@[simps] def Zone.map (z : Zone α) : Zone β := ⟨f z.x, f z.y, f z.width, f z.height⟩

@[simps] def LayoutSettings.map (s : LayoutSettings α) : LayoutSettings β where
  strategy := s.strategy
  seed := s.seed
  nodeWidth := f s.nodeWidth
  nodeHeight := f s.nodeHeight
  rankSeparation := f s.rankSeparation
  nodeSeparation := f s.nodeSeparation
  canvasWidth := f s.canvasWidth
  canvasHeight := f s.canvasHeight
  iterations := s.iterations
  minSeparation := f s.minSeparation
  gridSize := f s.gridSize
  linkDistance := f s.linkDistance
  linkStrength := f s.linkStrength
  chargeStrength := f s.chargeStrength
  chargeDistanceMin := f s.chargeDistanceMin
  chargeDistanceMax := f s.chargeDistanceMax
  centerStrength := f s.centerStrength

@[simps] def ForceField.map (field : ForceField α) : ForceField β :=
  ⟨field.settings.map f, field.zone.map f, field.links, field.degree⟩

end Map

end ModuleAtlas
