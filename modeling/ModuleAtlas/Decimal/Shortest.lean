import ModuleAtlas.Decimal.Exact

/-!
# The shortest decimal

A floating-point number is written with as few digits as still single it out. The decimals that are
read back as the number lie in an interval around it; of these the one on the coarsest decimal grid
is taken, the nearer one of two, and of two equally near ones the even one.
-/

namespace ModuleAtlas.Decimal

/-- The decimal `digits` times a power of ten. -/
structure Digits where
  digits : Nat
  exponent : Int
deriving DecidableEq, Repr, Inhabited

/-- Numbers to compare a quarter of a unit of the mantissa and the unit of a decimal grid with: the
first is to the second as `10 ^ k` to `2 ^ (q - 2)`. -/
def weights (q k : Int) : Nat × Nat :=
  (Nat.pow 10 k.toNat * Nat.pow 2 (2 - q).toNat,
    Nat.pow 10 (-k).toNat * Nat.pow 2 (q - 2).toNat)

/-- Whether the decimal `d` times `10 ^ k` is read back as the given number. -/
def readsBack (s : Scaled) (isPower : Bool) (d : Nat) (k : Int) : Bool :=
  let (a, b) := weights s.exponent k
  let low := (4 * s.mantissa - if isPower then 1 else 2) * b
  let high := (4 * s.mantissa + 2) * b
  if s.mantissa % 2 = 0 then low ≤ d * a && d * a ≤ high else low < d * a && d * a < high

/-- The decimal on the grid of `10 ^ k` that is read back as the number and nearest to it, if there
is one. -/
def onGrid? (s : Scaled) (isPower : Bool) (k : Int) : Option Digits :=
  let (a, b) := weights s.exponent k
  let below := 4 * s.mantissa * b / a
  let twice := 2 * (4 * s.mantissa * b % a)
  let upFirst := twice > a || (twice = a && below % 2 = 1)
  let candidates := if upFirst then [below + 1, below] else [below, below + 1]
  (candidates.find? fun d => readsBack s isPower d k).map (⟨·, k⟩)

/-- A power of ten that is greater than the number. -/
def ceiling (s : Scaled) : Int := (s.mantissa.log2 + 1 + s.exponent) * 30103 / 100000 + 1

/-- The shortest decimal that is read back as the number. -/
def shortest (s : Scaled) (isPower : Bool) : Digits :=
  ((List.range 24).findSome? fun (i : Nat) => onGrid? s isPower (ceiling s - i)).getD
    ⟨s.mantissa * Nat.pow 2 s.exponent.toNat * Nat.pow 5 (-s.exponent).toNat, min s.exponent 0⟩

end ModuleAtlas.Decimal
