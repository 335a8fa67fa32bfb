import Mathlib.Analysis.SpecialFunctions.Pow.Real
import ModuleAtlas.Layout.Scalar

/-!
# Layouts with exact arithmetic

`Scalar` read with real numbers. There are no infinities, so that a row begins where its first node
wants to be.
-/

namespace ModuleAtlas

noncomputable instance : Scalar ℝ where
  ofNat n := n
  le a b := decide (a ≤ b)
  max := Max.max
  min := Min.min
  sortsBefore a b := decide (a ≤ b)
  rowStart _ wanted := wanted
  abs a := |a|
  sqrt := Real.sqrt
  hypot a b := Real.sqrt (a * a + b * b)
  pow a b := a ^ b
  cos := Real.cos
  sin := Real.sin
  round a := if 0 ≤ a then ⌊a + 1 / 2⌋ else ⌈a - 1 / 2⌉
  ceilNat a := ⌈a⌉₊

theorem Scalar.ofNat_real (n : Nat) : (Scalar.ofNat n : ℝ) = n := rfl

end ModuleAtlas
