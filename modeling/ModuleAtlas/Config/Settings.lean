import ModuleAtlas.Config.Value
import ModuleAtlas.Graph.Roles
import ModuleAtlas.Layout.Settings

/-!
# Settings

All that can be set, what it is if it is not set, and how a document sets it. Keys that are absent
leave their settings alone, keys that are not known are ignored, and a value that does not fit makes
the whole document unfit.
-/

namespace ModuleAtlas

/-- Which files are looked at. -/
structure ScanSettings where
  /-- Names of directories that are not entered. -/
  ignoredNames : List String
  /-- Extensions of files that are read, in the order in which an import tries them. -/
  extensions : List String
deriving DecidableEq, Repr, Inhabited

namespace ScanSettings

def standard : ScanSettings where
  ignoredNames := ["node_modules", ".git", ".next", "dist", "build", "coverage", ".vercel", "out"]
  extensions := ["js", "jsx", "ts", "tsx", "mjs", "cjs"]

def isIgnored (s : ScanSettings) (name : String) : Bool := s.ignoredNames.contains name

/-- Whether a path has one of the extensions. -/
def isSupported (s : ScanSettings) (path : Path) : Bool :=
  match path.extension?.bind Text.Utf8.decode? with
  | some e => s.extensions.contains e
  | none => false

end ScanSettings

/-- All settings. -/
structure Settings (α : Type) where
  scan : ScanSettings
  roles : RoleRules
  layout : LayoutSettings α
deriving Repr, Inhabited

def Settings.standard {α : Type} [Scalar α] : Settings α where
  scan := .standard
  roles := .standard
  layout := .standard

/-! ### Settings from documents -/

namespace Config

def scanOf? (v : Value) : Option ScanSettings := do
  let standard := ScanSettings.standard
  let entries ← v.fields? ["ignore_dirs", "extensions"]
  let ignoredNames ← entries.getD? "ignore_dirs" standard.ignoredNames Value.texts?
  let extensions ← entries.getD? "extensions" standard.extensions Value.texts?
  some { ignoredNames, extensions }

def rolesOf? (v : Value) : Option RoleRules := do
  let standard := RoleRules.standard
  let entries ← v.fields? ["utility_markers", "fan_in_threshold"]
  let markers ← entries.getD? "utility_markers" standard.markers Value.texts?
  let fanInThreshold ← entries.getD? "fan_in_threshold" standard.fanInThreshold Value.natural?
  some { markers, fanInThreshold }

def strategyOf? (v : Value) : Option Strategy := v.name?.bind Strategy.ofName?

def layoutKeys : List String :=
  ["strategy", "seed", "node_width", "node_height", "rank_separation", "node_separation",
    "canvas_width", "canvas_height", "iterations", "min_separation", "grid_size", "link_distance",
    "link_strength", "charge_strength", "charge_distance_min", "charge_distance_max",
    "center_strength"]

def layoutOf? (v : Value) : Option (LayoutSettings Float) := do
  let standard := LayoutSettings.standard
  let entries ← v.fields? layoutKeys
  let number (key : String) (absent : Float) := entries.getD? key absent Value.number?
  let strategy ← entries.getD? "strategy" standard.strategy strategyOf?
  let seed ← entries.getD? "seed" none fun v => v.natural?.map fun n => some n.toUInt64
  let nodeWidth ← number "node_width" standard.nodeWidth
  let nodeHeight ← number "node_height" standard.nodeHeight
  let rankSeparation ← number "rank_separation" standard.rankSeparation
  let nodeSeparation ← number "node_separation" standard.nodeSeparation
  let canvasWidth ← number "canvas_width" standard.canvasWidth
  let canvasHeight ← number "canvas_height" standard.canvasHeight
  let iterations ← entries.getD? "iterations" standard.iterations Value.natural?
  let minSeparation ← number "min_separation" standard.minSeparation
  let gridSize ← number "grid_size" standard.gridSize
  let linkDistance ← number "link_distance" standard.linkDistance
  let linkStrength ← number "link_strength" standard.linkStrength
  let chargeStrength ← number "charge_strength" standard.chargeStrength
  let chargeDistanceMin ← number "charge_distance_min" standard.chargeDistanceMin
  let chargeDistanceMax ← number "charge_distance_max" standard.chargeDistanceMax
  let centerStrength ← number "center_strength" standard.centerStrength
  some { strategy, seed, nodeWidth, nodeHeight, rankSeparation, nodeSeparation, canvasWidth,
         canvasHeight, iterations, minSeparation, gridSize, linkDistance, linkStrength,
         chargeStrength, chargeDistanceMin, chargeDistanceMax, centerStrength }

/-- The settings that a document asks for. -/
def settingsOf? (v : Value) : Option (Settings Float) := do
  let entries ← v.fields? ["scan", "classify", "layout"]
  let scan ← entries.getD? "scan" .standard scanOf?
  let roles ← entries.getD? "classify" .standard rolesOf?
  let layout ← entries.getD? "layout" .standard layoutOf?
  some { scan, roles, layout }

end Config

end ModuleAtlas
