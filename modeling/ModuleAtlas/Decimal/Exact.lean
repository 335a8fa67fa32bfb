/-!
# Exact values of floating-point numbers

A finite floating-point number is a natural number times a power of two, with a sign.
-/

namespace ModuleAtlas.Decimal

/-- A number times a power of two. -/
structure Scaled where
  mantissa : Nat
  exponent : Int
deriving DecidableEq, Repr, Inhabited

/-- What a floating-point number stands for. -/
inductive Exact where
  | notANumber
  | infinite
  /-- A finite number, sign apart. `isPower` says that the next smaller number is only half as far
  away as the next greater one. -/
  | finite (value : Scaled) (isPower : Bool)
deriving DecidableEq, Repr, Inhabited

/-- The sign bit. -/
def isNegative (x : Float) : Bool := x.toBits ≥ 0x8000000000000000

def Exact.ofFloat (x : Float) : Exact :=
  let bits : Nat := x.toBits.toNat
  let exponent : Nat := bits / 0x10000000000000 % 0x800
  let fraction : Nat := bits % 0x10000000000000
  if exponent = 2047 then if fraction = 0 then .infinite else .notANumber
  else if exponent = 0 then .finite ⟨fraction, -1074⟩ false
  else .finite ⟨0x10000000000000 + fraction, (exponent : Int) - 1075⟩ (fraction = 0 && 1 < exponent)

namespace Scaled

/-- The quotient of the numbers is the value. -/
def ratio (s : Scaled) : Nat × Nat :=
  (s.mantissa * Nat.pow 2 s.exponent.toNat, Nat.pow 2 (-s.exponent).toNat)

end Scaled

end ModuleAtlas.Decimal
