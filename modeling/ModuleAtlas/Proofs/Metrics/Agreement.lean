import ModuleAtlas.Metrics.Measure
import ModuleAtlas.Proofs.Analysis.Coverage
import ModuleAtlas.Proofs.Source.Specifiers

/-!
# Imports and metrics of one text

The imports of a file and its metrics come from the same reading of its text, so that they agree
(`imports_agree_with_metrics`): they fail together, for the same reason, and only if the text makes
sense in neither dialect, whatever the name of the file.

What is counted while the items pass by one after the other is how many there are of each sort
(`Tally.ofItems_eq`), which is by induction on the items that have passed; one more item counts for
its own sort only (`Tally.counted_concat`). An item that names a module is an import or an export, and
so there are no more names than those.
-/

namespace ModuleAtlas

open Source

/-! ### Items of a sort -/

namespace Metrics

/-- The sorts of items that are told apart when they are counted. -/
inductive ItemSort where
  | imported
  /-- An export, be it of a module or of what the file declares. -/
  | exported
  | function
  | classLike
  | interface
  | typeAlias
  | typeAscription
  | call
  | branch
  | markup
deriving DecidableEq, Repr

def ItemSort.of : Item → ItemSort
  | .importFrom _ => imported
  | .exportFrom _ | .exportAll _ | .exportLocal => exported
  | .function _ => function
  | .classLike _ => classLike
  | .interface _ => interface
  | .typeAlias _ => typeAlias
  | .typeAscription => typeAscription
  | .call _ => call
  | .branch => branch
  | .markup => markup

/-- How many of the items are of the sort. -/
def numberOf (sort : ItemSort) (items : List Item) : Nat :=
  items.countP (ItemSort.of · = sort)

/-- Whether an item shows that the file is written with types. -/
def showsTypes (item : Item) : Bool :=
  ItemSort.of item ∈ [.interface, .typeAlias, .typeAscription]

/-- Whether an item shows that there are tests in the file. -/
def showsTests : Item → Bool
  | .call callee => callsTest callee
  | _ => false

theorem numberOf_concat (sort : ItemSort) (items : List Item) (item : Item) :
    numberOf sort (items ++ [item]) =
      numberOf sort items + if ItemSort.of item = sort then 1 else 0 := by
  simp [numberOf, List.countP_append, List.countP_singleton]

namespace Tally

/-- What there is to count in a list of items. -/
def counted (items : List Item) : Tally where
  functions := numberOf .function items
  classes := numberOf .classLike items
  interfaces := numberOf .interface items
  typeAliases := numberOf .typeAlias items
  exports := numberOf .exported items
  imports := numberOf .imported items
  branches := numberOf .branch items
  markup := items.any (ItemSort.of · = .markup)
  typed := items.any showsTypes
  tested := items.any showsTests

theorem counted_concat (items : List Item) (item : Item) :
    counted (items ++ [item]) = (counted items).add item := by
  cases item <;>
    simp [counted, numberOf_concat, add, ItemSort.of, showsTypes, showsTests]

/-- The items are counted as they pass by. -/
theorem ofItems_eq (items : List Item) : ofItems items = counted items := by
  induction items using List.reverseRecOn with
  | nil => rfl
  | append_singleton items item ih =>
    rw [counted_concat, ← ih, ofItems, List.foldl_append, List.foldl_cons, List.foldl_nil, ofItems]

end Tally

/-- An item that names a module is an import or an export. -/
theorem length_localNames_le (items : List Item) :
    (localNames items).length ≤ numberOf .imported items + numberOf .exported items := by
  have hitem (item : Item) : ([item].filterMap Item.module?).length ≤
      (if ItemSort.of item = .imported then 1 else 0) +
        if ItemSort.of item = .exported then 1 else 0 := by
    cases item <;> simp [List.filterMap_cons, Item.module?, ItemSort.of]
  have hall : (items.filterMap Item.module?).length ≤
      numberOf .imported items + numberOf .exported items := by
    induction items using List.reverseRecOn with
    | nil => exact Nat.zero_le _
    | append_singleton items item ih =>
      rw [List.filterMap_append, List.length_append, numberOf_concat, numberOf_concat]
      have := hitem item
      omega
  exact (List.length_filter_le _ _).trans hall

end Metrics

/-! ### Imports and metrics -/

open Metrics

variable {verdict : Verdict} {name text : String} {path : Path} {f : Fault} {r : Reading}

/-- A text makes no sense whatever it is called: every dialect is tried. -/
theorem exists_localImports_eq_error_iff :
    (∃ f, localImports verdict path text = .error f) ↔ ∀ d, ∃ f, verdict d text = .error f := by
  simp only [Analysis.localImports_eq_error_iff, exists_and_left]
  constructor
  · rintro ⟨hfirst, hother⟩ d
    cases hpath : Dialect.ofPath path <;> rw [hpath] at hfirst hother <;> cases d <;> assumption
  · exact fun h => ⟨h _, h _⟩

theorem measure_of_reading (h : Reading.of? verdict (.ofPath (.ofString name)) text = .ok r) :
    measure verdict name text =
      { functions := numberOf .function r.items, classes := numberOf .classLike r.items,
        interfaces := numberOf .interface r.items, typeAliases := numberOf .typeAlias r.items,
        exports := numberOf .exported r.items, imports := numberOf .imported r.items,
        complexity := 1 + numberOf .branch r.items, linesOfCode := countLines text,
        isComponent := r.items.any (ItemSort.of · = .markup) || (Hints.ofName name).component,
        isConfig := (Hints.ofName name).config,
        isTest := (Hints.ofName name).test || r.items.any showsTests,
        usesTypes := r.items.any showsTypes } := by
  rw [measure, h]
  dsimp only
  rw [Tally.ofItems_eq]
  rfl

theorem measure_of_fault (h : Reading.of? verdict (.ofPath (.ofString name)) text = .error f) :
    measure verdict name text =
      { linesOfCode := countLines text, isComponent := (Hints.ofName name).component,
        isConfig := (Hints.ofName name).config, isTest := (Hints.ofName name).test,
        usesTypes := (Hints.ofName name).typed, fault := some f } := by
  rw [measure, h]

/-- The structure that the metrics tell of has so many parts of each sort. -/
structure FileMetrics.Counts (m : FileMetrics) (number : ItemSort → Nat) : Prop where
  functions : m.functions = number .function
  classes : m.classes = number .classLike
  interfaces : m.interfaces = number .interface
  typeAliases : m.typeAliases = number .typeAlias
  exports : m.exports = number .exported
  imports : m.imports = number .imported

/-- The imports of a text under a name and its metrics under this name agree. -/
structure Agree (verdict : Verdict) (name text : String) : Prop where
  /-- They fail together, and for the same reason. -/
  same_fault (f : Fault) : localImports verdict (.ofString name) text = .error f ↔
    (measure verdict name text).fault = some f
  /-- They fail if the text makes sense in neither dialect, and only then. -/
  fails_iff : (∃ f, (measure verdict name text).fault = some f) ↔
    ∀ d, ∃ f, verdict d text = .error f
  /-- Under another name they fail as well, whatever its extension. -/
  fails_elsewhere (path : Path) : (∃ f, localImports verdict path text = .error f) ↔
    ∃ f, localImports verdict (.ofString name) text = .error f
  /-- Else the items of one reading are told of by both. -/
  of_ok (names : List String) : localImports verdict (.ofString name) text = .ok names →
    ∃ r, Reading.of? verdict (.ofPath (.ofString name)) text = .ok r ∧ names = localNames r.items ∧
      (measure verdict name text).Counts (numberOf · r.items) ∧
      (measure verdict name text).complexity = 1 + numberOf .branch r.items ∧
      names.length ≤ (measure verdict name text).imports + (measure verdict name text).exports
  /-- Nothing is counted where there is no reading. -/
  of_error (f : Fault) : localImports verdict (.ofString name) text = .error f →
    (measure verdict name text).Counts (fun _ => 0) ∧ (measure verdict name text).complexity = 0
  /-- In any case the name tells what it suggests. -/
  config : (measure verdict name text).isConfig = (Hints.ofName name).config
  component : (Hints.ofName name).component → (measure verdict name text).isComponent
  test : (Hints.ofName name).test → (measure verdict name text).isTest

/-- They fail together, and for the same reason. -/
theorem localImports_eq_error_iff_fault (f : Fault) :
    localImports verdict (.ofString name) text = .error f ↔
      (measure verdict name text).fault = some f := by
  cases hread : Reading.of? verdict (.ofPath (.ofString name)) text with
  | ok r => simp [localImports_eq_of_reading hread, measure_of_reading hread]
  | error g => simp [localImports, hread, measure_of_fault hread, Except.map]

/-- What the name suggests is told whether the text makes sense or not. -/
theorem hints_le_measure : (measure verdict name text).isConfig = (Hints.ofName name).config ∧
    ((Hints.ofName name).component → (measure verdict name text).isComponent) ∧
    ((Hints.ofName name).test → (measure verdict name text).isTest) := by
  cases hread : Reading.of? verdict (.ofPath (.ofString name)) text with
  | ok r =>
    simp only [measure_of_reading hread, Bool.or_eq_true]
    exact ⟨trivial, .inr, .inl⟩
  | error f =>
    simp only [measure_of_fault hread, imp_self, and_self]

/-- Imports and metrics of a text agree, under every name. -/
theorem imports_agree_with_metrics (verdict : Verdict) (name text : String) :
    Agree verdict name text where
  same_fault := localImports_eq_error_iff_fault
  fails_iff := by
    simp only [← localImports_eq_error_iff_fault, exists_localImports_eq_error_iff]
  fails_elsewhere path := by rw [exists_localImports_eq_error_iff, exists_localImports_eq_error_iff]
  of_ok names h := by
    obtain ⟨r, hread, rfl⟩ := map_eq_ok_iff.1 h
    refine ⟨r, hread, rfl, ?_⟩
    rw [measure_of_reading hread]
    exact ⟨⟨rfl, rfl, rfl, rfl, rfl, rfl⟩, rfl, length_localNames_le _⟩
  of_error f h := by
    cases hread : Reading.of? verdict (.ofPath (.ofString name)) text with
    | ok r => rw [localImports_eq_of_reading hread] at h; contradiction
    | error g => rw [measure_of_fault hread]; exact ⟨⟨rfl, rfl, rfl, rfl, rfl, rfl⟩, rfl⟩
  config := hints_le_measure.1
  component := hints_le_measure.2.1
  test := hints_le_measure.2.2

/-- The only item of a script of one import. -/
theorem items_importTree (d : Dialect) :
    Reading.items ⟨"import \"./a\"", d, importTree 12⟩ = [.importFrom "./a"] := by
  rw [Reading.items, itemsOf, walk_importTree]
  cbv

/-- Under a name that suggests a component and tests, one import and a text without sense. -/
theorem imports_agree_with_metrics_test :
    (localImports (fun _ _ => .ok (importTree 12)) (.ofString "Test.tsx") "import \"./a\"" =
        .ok ["./a"] ∧
      (measure (fun _ _ => .ok (importTree 12)) "Test.tsx" "import \"./a\"").imports = 1) ∧
    (localImports (fun _ _ => .error ⟨1, 1⟩) (.ofString "Test.tsx") "(" = .error ⟨1, 1⟩ ∧
      (measure (fun _ _ => .error ⟨1, 1⟩) "Test.tsx" "(").fault = some ⟨1, 1⟩ ∧
      (measure (fun _ _ => .error ⟨1, 1⟩) "Test.tsx" "(").complexity = 0 ∧
      (measure (fun _ _ => .error ⟨1, 1⟩) "Test.tsx" "(").isComponent ∧
      (measure (fun _ _ => .error ⟨1, 1⟩) "Test.tsx" "(").isTest) := by
  have hsense :=
    imports_agree_with_metrics (fun _ _ => .ok (importTree 12)) "Test.tsx" "import \"./a\""
  have hnonsense := imports_agree_with_metrics (fun _ _ => .error ⟨1, 1⟩) "Test.tsx" "("
  have himports : localImports (fun _ _ => .ok (importTree 12)) (.ofString "Test.tsx")
      "import \"./a\"" = .ok ["./a"] := by
    rw [localImports_eq_of_reading rfl, items_importTree]
    rfl
  have hfault : localImports (fun _ _ => .error ⟨1, 1⟩) (.ofString "Test.tsx") "(" =
      .error ⟨1, 1⟩ := rfl
  obtain ⟨r, hread, -, hcounts, -⟩ := hsense.of_ok _ himports
  obtain rfl := Except.ok.inj hread
  refine ⟨⟨himports, ?_⟩, hfault, (hnonsense.same_fault _).1 hfault, (hnonsense.of_error _ hfault).2,
    hnonsense.component ?_, hnonsense.test ?_⟩
  · rw [hcounts.imports, items_importTree]
    rfl
  · cbv
  · cbv

end ModuleAtlas
