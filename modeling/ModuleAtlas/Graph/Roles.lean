import ModuleAtlas.Graph.Basic
import ModuleAtlas.Text.Lowercase
import ModuleAtlas.Text.Occurs

/-!
# Roles of files

A file that neither imports nor is imported stands alone. Of the others, one is a utility if its
name has one of the markers in it, or if more files import it than the threshold allows; the rest is
the core.
-/

namespace ModuleAtlas

/-- By what a utility is told from the core. -/
structure RoleRules where
  markers : List String
  fanInThreshold : Nat
deriving DecidableEq, Repr, Inhabited

namespace RoleRules

def standard : RoleRules where
  markers := ["util", "helper"]
  fanInThreshold := 3

/-- The rules with their markers in lower case, as names are compared. -/
def folded (r : RoleRules) : RoleRules := { r with markers := r.markers.map Text.lowercase }

variable {α : Type}

/-- Whether the name of the node has a marker in it. -/
def marks (r : RoleRules) (n : Node α) : Bool :=
  r.markers.any fun m => Text.occursIn m.toList (Text.lowercase n.label).toList

/-- The role of a node, by its name and the edges at it. -/
def roleOf (r : RoleRules) (n : Node α) : Role :=
  if n.dependencyCount = 0 ∧ n.dependentCount = 0 then .standalone
  else if r.marks n || r.fanInThreshold < n.dependentCount then .utility
  else .core

theorem roleOf_eq_standalone_iff {r : RoleRules} {n : Node α} :
    r.roleOf n = .standalone ↔ n.dependencyCount = 0 ∧ n.dependentCount = 0 := by
  rw [roleOf]
  split
  · simp_all
  · split <;> simp_all

theorem roleOf_eq_utility_iff {r : RoleRules} {n : Node α} :
    r.roleOf n = .utility ↔ ¬ (n.dependencyCount = 0 ∧ n.dependentCount = 0) ∧
      (r.marks n = true ∨ r.fanInThreshold < n.dependentCount) := by
  rw [roleOf]
  split
  · simp_all
  · split <;> simp_all

/-- The graph with a role for every node, by the markers as they are written. -/
def assign (r : RoleRules) (g : Graph α) : Graph α :=
  g.annotate fun _ n => { n with role := r.roleOf n }

/-- The graph with a role for every node, however the markers are written. -/
def classify (r : RoleRules) (g : Graph α) : Graph α := r.folded.assign g

end RoleRules

end ModuleAtlas
