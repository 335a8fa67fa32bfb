import ModuleAtlas.Decimal.Exact

/-!
# Decimals with a fixed number of places

A floating-point number is written with so many places; the exact value is rounded to the nearest
decimal, and a tie goes to the even one.
-/

namespace ModuleAtlas.Decimal

/-- The quotient rounded to the nearest integer, a tie to the even one. -/
def roundDiv (num den : Nat) : Nat :=
  let q := num / den
  let twice := 2 * (num % den)
  if twice < den || (twice = den && q % 2 = 0) then q else q + 1

/-- The digits of a number with at least so many places. -/
def padded (width n : Nat) : String :=
  let digits := Nat.toDigits 10 n
  String.ofList (List.replicate (width - digits.length) '0' ++ digits)

/-- A number with the given count of places. -/
def fixed (places : Nat) (x : Float) : String :=
  let sign := if isNegative x then "-" else ""
  match Exact.ofFloat x with
  | .notANumber => "NaN"
  | .infinite => sign ++ "inf"
  | .finite value _ =>
    let (num, den) := value.ratio
    let unit := Nat.pow 10 places
    let n := roundDiv (num * unit) den
    sign ++ padded 1 (n / unit) ++ "." ++ padded places (n % unit)

end ModuleAtlas.Decimal
