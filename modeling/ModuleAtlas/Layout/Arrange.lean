import ModuleAtlas.Layout.Layered
import ModuleAtlas.Layout.Zoned

/-!
# Placing a graph as its settings say

The one place where a strategy is chosen. Only placement in zones needs random numbers; without a
seed they come from a generator that is handed in.
-/

namespace ModuleAtlas

/-- Where random numbers come from. -/
structure RandomSource (α γ : Type) where
  /-- Takes a number at least 0 and less than 1 from a generator. -/
  draw : γ → α × γ
  ofSeed : UInt64 → γ
  /-- The generator to use without a seed. -/
  fresh : γ

variable {α γ : Type} [Scalar α]

/-- The generator that the settings ask for. -/
def RandomSource.start (r : RandomSource α γ) (settings : LayoutSettings α) : γ :=
  match settings.seed with
  | some seed => r.ofSeed seed
  | none => r.fresh

/-- The graph with all nodes placed; `none` if the core's zone has no room. -/
def Graph.arrange? (g : Graph α) (settings : LayoutSettings α) (r : RandomSource α γ) :
    Option (Graph α) :=
  match settings.strategy with
  | .layered => some (Layered.layout g settings)
  | .zoned => (Zoned.layout? r.draw g settings (r.start settings)).1

end ModuleAtlas
