import Mathlib.Tactic.Choose
import ModuleAtlas.Config.Settings

/-!
# Settings key by key

A document says what each setting is to be (`Key.asked?`): what is written under its key, or the
standard value if nothing is, and nothing if what is written does not fit or does not stand in a
table. All settings of a document are made of these (`settingsOf?_eq_some_iff`). If there is one of
them of which it says nothing, then it has no settings at all (`settingsOf?_eq_none_iff`); otherwise
it is `Fit`.
-/

namespace ModuleAtlas.Config

/-- The tables of a document. -/
inductive Table where
  | scan
  | classify
  | layout
deriving DecidableEq, Repr

/-- What can be set. -/
inductive Key where
  | ignoredNames
  | extensions
  | markers
  | fanInThreshold
  | strategy
  | seed
  | nodeWidth
  | nodeHeight
  | rankSeparation
  | nodeSeparation
  | canvasWidth
  | canvasHeight
  | iterations
  | minSeparation
  | gridSize
  | linkDistance
  | linkStrength
  | chargeStrength
  | chargeDistanceMin
  | chargeDistanceMax
  | centerStrength
deriving DecidableEq, Repr

namespace Key

/-- What it is set to. -/
abbrev Kind : Key → Type
  | ignoredNames | extensions | markers => List String
  | fanInThreshold | iterations => Nat
  | strategy => Strategy
  | seed => Option UInt64
  | _ => Float

/-- In which table it stands. -/
def table : Key → Table
  | ignoredNames | extensions => .scan
  | markers | fanInThreshold => .classify
  | _ => .layout

/-- Under which key. -/
def name : Key → String
  | ignoredNames => "ignore_dirs"
  | extensions => "extensions"
  | markers => "utility_markers"
  | fanInThreshold => "fan_in_threshold"
  | strategy => "strategy"
  | seed => "seed"
  | nodeWidth => "node_width"
  | nodeHeight => "node_height"
  | rankSeparation => "rank_separation"
  | nodeSeparation => "node_separation"
  | canvasWidth => "canvas_width"
  | canvasHeight => "canvas_height"
  | iterations => "iterations"
  | minSeparation => "min_separation"
  | gridSize => "grid_size"
  | linkDistance => "link_distance"
  | linkStrength => "link_strength"
  | chargeStrength => "charge_strength"
  | chargeDistanceMin => "charge_distance_min"
  | chargeDistanceMax => "charge_distance_max"
  | centerStrength => "center_strength"

/-- How a value is read there. -/
def read? : (k : Key) → Value → Option k.Kind
  | ignoredNames | extensions | markers => Value.texts?
  | fanInThreshold | iterations => Value.natural?
  | strategy => strategyOf?
  | seed => fun v => v.natural?.map fun n => some n.toUInt64
  | nodeWidth | nodeHeight | rankSeparation | nodeSeparation | canvasWidth | canvasHeight
  | minSeparation | gridSize | linkDistance | linkStrength | chargeStrength | chargeDistanceMin
  | chargeDistanceMax | centerStrength => Value.number?

/-- What it is in all settings. -/
def get : (k : Key) → Settings Float → k.Kind
  | ignoredNames, s => s.scan.ignoredNames
  | extensions, s => s.scan.extensions
  | markers, s => s.roles.markers
  | fanInThreshold, s => s.roles.fanInThreshold
  | strategy, s => s.layout.strategy
  | seed, s => s.layout.seed
  | nodeWidth, s => s.layout.nodeWidth
  | nodeHeight, s => s.layout.nodeHeight
  | rankSeparation, s => s.layout.rankSeparation
  | nodeSeparation, s => s.layout.nodeSeparation
  | canvasWidth, s => s.layout.canvasWidth
  | canvasHeight, s => s.layout.canvasHeight
  | iterations, s => s.layout.iterations
  | minSeparation, s => s.layout.minSeparation
  | gridSize, s => s.layout.gridSize
  | linkDistance, s => s.layout.linkDistance
  | linkStrength, s => s.layout.linkStrength
  | chargeStrength, s => s.layout.chargeStrength
  | chargeDistanceMin, s => s.layout.chargeDistanceMin
  | chargeDistanceMax, s => s.layout.chargeDistanceMax
  | centerStrength, s => s.layout.centerStrength

/-- What the entries of its table say it is: the standard value if they do not mention it. -/
def from? (k : Key) (entries : Entries) : Option k.Kind :=
  entries.getD? k.name (k.get .standard) k.read?

end Key

/-- All settings, from one value for each. -/
def ofValues (value : (k : Key) → k.Kind) : Settings Float where
  scan := ⟨value .ignoredNames, value .extensions⟩
  roles := ⟨value .markers, value .fanInThreshold⟩
  layout := {
    strategy := value .strategy
    seed := value .seed
    nodeWidth := value .nodeWidth
    nodeHeight := value .nodeHeight
    rankSeparation := value .rankSeparation
    nodeSeparation := value .nodeSeparation
    canvasWidth := value .canvasWidth
    canvasHeight := value .canvasHeight
    iterations := value .iterations
    minSeparation := value .minSeparation
    gridSize := value .gridSize
    linkDistance := value .linkDistance
    linkStrength := value .linkStrength
    chargeStrength := value .chargeStrength
    chargeDistanceMin := value .chargeDistanceMin
    chargeDistanceMax := value .chargeDistanceMax
    centerStrength := value .centerStrength }

@[simp]
theorem get_ofValues (value : (k : Key) → k.Kind) (k : Key) : k.get (ofValues value) = value k := by
  cases k <;> rfl

theorem ofValues_get (s : Settings Float) : (ofValues fun k => k.get s) = s := rfl

/-- Settings that agree in all keys are the same. -/
theorem eq_of_get {s t : Settings Float} (h : ∀ k : Key, k.get s = k.get t) : s = t := by
  rw [← ofValues_get s, ← ofValues_get t, funext h]

/-! ### Tables -/

namespace Table

def name : Table → String
  | scan => "scan"
  | classify => "classify"
  | layout => "layout"

/-- The keys of a table in their order, which counts if the table is written without them. -/
def keys : Table → List String
  | scan => ["ignore_dirs", "extensions"]
  | classify => ["utility_markers", "fan_in_threshold"]
  | layout => layoutKeys

/-- The settings that stand in a table. -/
abbrev Content : Table → Type
  | scan => ScanSettings
  | classify => RoleRules
  | layout => LayoutSettings Float

def part : (t : Table) → Settings Float → t.Content
  | scan, s => s.scan
  | classify, s => s.roles
  | layout, s => s.layout

/-- How a table is read. -/
def of? : (t : Table) → Value → Option t.Content
  | scan => scanOf?
  | classify => rolesOf?
  | layout => layoutOf?

/-- The settings that the entries of a table say. -/
def from? : (t : Table) → Entries → Option t.Content
  | scan, entries => do
    let ignoredNames ← Key.ignoredNames.from? entries
    let extensions ← Key.extensions.from? entries
    some { ignoredNames, extensions }
  | classify, entries => do
    let markers ← Key.markers.from? entries
    let fanInThreshold ← Key.fanInThreshold.from? entries
    some { markers, fanInThreshold }
  | layout, entries => do
    let strategy ← Key.strategy.from? entries
    let seed ← Key.seed.from? entries
    let nodeWidth ← Key.nodeWidth.from? entries
    let nodeHeight ← Key.nodeHeight.from? entries
    let rankSeparation ← Key.rankSeparation.from? entries
    let nodeSeparation ← Key.nodeSeparation.from? entries
    let canvasWidth ← Key.canvasWidth.from? entries
    let canvasHeight ← Key.canvasHeight.from? entries
    let iterations ← Key.iterations.from? entries
    let minSeparation ← Key.minSeparation.from? entries
    let gridSize ← Key.gridSize.from? entries
    let linkDistance ← Key.linkDistance.from? entries
    let linkStrength ← Key.linkStrength.from? entries
    let chargeStrength ← Key.chargeStrength.from? entries
    let chargeDistanceMin ← Key.chargeDistanceMin.from? entries
    let chargeDistanceMax ← Key.chargeDistanceMax.from? entries
    let centerStrength ← Key.centerStrength.from? entries
    some { strategy, seed, nodeWidth, nodeHeight, rankSeparation, nodeSeparation, canvasWidth,
           canvasHeight, iterations, minSeparation, gridSize, linkDistance, linkStrength,
           chargeStrength, chargeDistanceMin, chargeDistanceMax, centerStrength }

theorem of?_eq (t : Table) (v : Value) : t.of? v = (v.fields? t.keys).bind t.from? := by
  cases t <;> rfl

/-- An empty table leaves everything as it is. -/
theorem from?_nil (t : Table) : t.from? [] = some (t.part .standard) := by
  cases t <;> rfl

theorem from?_eq_some {t : Table} {entries : Entries} {s : Settings Float}
    (h : ∀ k : Key, k.table = t → k.from? entries = some (k.get s)) :
    t.from? entries = some (t.part s) := by
  cases t
  all_goals
    rw [from?]
    repeat refine Option.bind_eq_some_iff.2 ⟨_, h _ rfl, ?_⟩
    rfl

/-- One value that does not fit makes the table unfit. -/
theorem from?_eq_none {k : Key} {entries : Entries} (h : k.from? entries = none) :
    k.table.from? entries = none := by
  cases k
  all_goals
    simp only [Key.table, from?]
    -- Whatever comes of the keys before this one, none are read after it.
    repeat first
      | exact Option.bind_eq_none_iff.2 fun _ hvalue => nomatch h.symm.trans hvalue
      | refine Option.bind_eq_none_iff.2 fun _ _ => ?_

end Table

/-! ### Documents -/

/-- The entries of a table of a document, of which there are none if the document does not mention
the table. -/
def entriesOf? (document : Value) (t : Table) : Option Entries := do
  let tables ← document.fields? ["scan", "classify", "layout"]
  tables.getD? t.name [] (Value.fields? t.keys)

/-- What a document says a setting is. -/
def Key.asked? (k : Key) (document : Value) : Option k.Kind :=
  (entriesOf? document k.table).bind k.from?

/-- What a document says the settings of a table are. -/
def Table.asked? (t : Table) (document : Value) : Option t.Content :=
  (entriesOf? document t).bind t.from?

variable {document : Value} {k : Key} {t : Table} {s : Settings Float}

namespace Table

theorem exists_key (t : Table) : ∃ k : Key, k.table = t := by
  cases t
  exacts [⟨.ignoredNames, rfl⟩, ⟨.markers, rfl⟩, ⟨.strategy, rfl⟩]

theorem asked?_eq_some (h : ∀ k : Key, k.table = t → k.asked? document = some (k.get s)) :
    t.asked? document = some (t.part s) := by
  obtain ⟨k, rfl⟩ := t.exists_key
  obtain ⟨entries, hentries, -⟩ := Option.bind_eq_some_iff.1 (h k rfl)
  refine Option.bind_eq_some_iff.2 ⟨entries, hentries, from?_eq_some fun k' hk' => ?_⟩
  have hin := h k' hk'
  rwa [Key.asked?, hk', hentries, Option.bind_some] at hin

theorem asked?_eq_none (h : k.asked? document = none) : k.table.asked? document = none := by
  rw [Key.asked?] at h
  rw [asked?]
  cases hentries : entriesOf? document k.table with
  | none => rfl
  | some entries =>
    rw [hentries] at h
    exact from?_eq_none h

/-- A table that is not mentioned is like an empty one. -/
theorem asked?_eq_getD? {tables : Entries} (t : Table)
    (h : document.fields? ["scan", "classify", "layout"] = some tables) :
    t.asked? document = tables.getD? t.name (t.part .standard) t.of? := by
  have hentries : entriesOf? document t = tables.getD? t.name [] (Value.fields? t.keys) := by
    rw [entriesOf?, h]
    rfl
  rw [asked?, hentries, Entries.getD?, Entries.getD?]
  cases tables.lookup t.name with
  | none => exact t.from?_nil
  | some v => exact (t.of?_eq v).symm

end Table

theorem settingsOf?_eq (document : Value) : settingsOf? document = (do
    let scan ← Table.scan.asked? document
    let roles ← Table.classify.asked? document
    let layout ← Table.layout.asked? document
    some { scan, roles, layout }) := by
  cases htables : document.fields? ["scan", "classify", "layout"] with
  | none =>
    rw [settingsOf?, htables, Table.asked?, entriesOf?, htables]
    rfl
  | some tables =>
    rw [settingsOf?, htables, Table.asked?_eq_getD? _ htables, Table.asked?_eq_getD? _ htables,
      Table.asked?_eq_getD? _ htables]
    rfl

/-- The settings of a document are what it says, key by key. -/
theorem settingsOf?_eq_some_of_asked? (h : ∀ k : Key, k.asked? document = some (k.get s)) :
    settingsOf? document = some s := by
  have hin (t : Table) : t.asked? document = some (t.part s) := Table.asked?_eq_some fun k _ => h k
  rw [settingsOf?_eq, hin, hin, hin]
  rfl

/-- A document is not used in part. -/
theorem settingsOf?_eq_none_of_asked? (h : k.asked? document = none) :
    settingsOf? document = none := by
  have hin := Table.asked?_eq_none h
  rw [settingsOf?_eq]
  cases ht : k.table with
  | scan | classify | layout =>
    rw [ht] at hin
    simp only [hin, Option.bind_eq_bind, Option.bind_none, Option.bind_fun_none]

theorem settingsOf?_eq_some_iff :
    settingsOf? document = some s ↔ ∀ k : Key, k.asked? document = some (k.get s) := by
  refine ⟨fun h => ?_, settingsOf?_eq_some_of_asked?⟩
  have hvalue (k : Key) : ∃ value, k.asked? document = some value := by
    refine Option.ne_none_iff_exists'.1 fun hnone => ?_
    rw [settingsOf?_eq_none_of_asked? hnone] at h
    contradiction
  choose value hvalue using hvalue
  have hsettings : settingsOf? document = some (ofValues value) :=
    settingsOf?_eq_some_of_asked? fun k => by rw [hvalue, get_ofValues]
  obtain rfl := Option.some.inj (h.symm.trans hsettings)
  intro k
  rw [hvalue, get_ofValues]

theorem settingsOf?_eq_none_iff :
    settingsOf? document = none ↔ ∃ k : Key, k.asked? document = none := by
  refine ⟨fun h => ?_, fun ⟨k, hk⟩ => settingsOf?_eq_none_of_asked? hk⟩
  by_contra hall
  rw [not_exists] at hall
  have hvalue (k : Key) : ∃ value, k.asked? document = some value :=
    Option.ne_none_iff_exists'.1 (hall k)
  choose value hvalue using hvalue
  rw [settingsOf?_eq_some_of_asked? fun k => (hvalue k).trans (by rw [get_ofValues])] at h
  contradiction

/-- A document says of every setting what it is. -/
def Value.Fit (document : Value) : Prop := ∀ k : Key, k.asked? document ≠ none

theorem Value.fit_iff : document.Fit ↔ ∃ s, settingsOf? document = some s := by
  rw [← Option.ne_none_iff_exists', ne_eq, settingsOf?_eq_none_iff, not_exists]
  rfl

end ModuleAtlas.Config
