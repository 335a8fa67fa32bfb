import ModuleAtlas.Config.Settings
import ModuleAtlas.Failure

/-!
# The settings of a run

Settings come from the document that is named, which must be readable and valid; if none is named,
from the one at the root, if it is readable and valid; and are the standard ones otherwise. How a
document is read is a parameter.
-/

namespace ModuleAtlas.Config

/-- The name of the document at the root. -/
def documentName : String := "depscope.toml"

/-- What the text of a document asks for, if it is valid. -/
abbrev DocumentReader (α : Type) := String → Option (Settings α)

variable {α : Type} [Scalar α]

/-- The settings of a document that must be there and be valid. -/
def loadNamed (read? : DocumentReader α) (s : Snapshot) (p : Path) :
    Except Failure (Settings α) :=
  match s.readText p with
  | .error t => .error (.input (.unreadableSettings p t))
  | .ok text =>
    match read? text with
    | some settings => .ok settings
    | none => .error (.input (.invalidSettings p))

/-- The settings of the document at the root, if there is one and it is valid. -/
def loadImplied (read? : DocumentReader α) (s : Snapshot) (root : Path) : Settings α :=
  match s.readText (root.join (.ofString documentName)) with
  | .error _ => .standard
  | .ok text => (read? text).getD .standard

/-- The settings for a root, from the named document if there is one. -/
def load (read? : DocumentReader α) (s : Snapshot) (root : Path) :
    (named : Option Path) → Except Failure (Settings α)
  | some p => loadNamed read? s p
  | none => .ok (loadImplied read? s root)

end ModuleAtlas.Config
