import ModuleAtlas.Source.Reading
import ModuleAtlas.Metrics.Name
import ModuleAtlas.Text.Lines

/-!
# Metrics of a file

Counts of what a file declares, and a guess at what it is for. A text that makes sense in no
dialect is still measured: its structure counts as empty, and only the name tells what it is for.

* `measure` is total;
* `countLines` counts the lines that are not blank.
-/

namespace ModuleAtlas

open Source Metrics

structure FileMetrics where
  functions : Nat := 0
  classes : Nat := 0
  interfaces : Nat := 0
  typeAliases : Nat := 0
  exports : Nat := 0
  imports : Nat := 0
  /-- The number of branches and one; zero if the text makes no sense. -/
  complexity : Nat := 0
  linesOfCode : Nat := 0
  isComponent : Bool := false
  isConfig : Bool := false
  isTest : Bool := false
  usesTypes : Bool := false
  /-- Where the text makes no sense, if so. -/
  fault : Option Fault := none
deriving DecidableEq, Repr, Inhabited

namespace Metrics

/-- What is counted while the items of a file pass by. -/
structure Tally where
  functions : Nat := 0
  classes : Nat := 0
  interfaces : Nat := 0
  typeAliases : Nat := 0
  exports : Nat := 0
  imports : Nat := 0
  branches : Nat := 0
  markup : Bool := false
  typed : Bool := false
  tested : Bool := false
deriving DecidableEq, Repr, Inhabited

/-- Functions that only tests call. -/
def testFunctions : List String := ["describe", "it", "test", "expect"]

/-- Whether what is called begins, up to its first dot, with a function of tests. -/
def callsTest (callee : String) : Bool :=
  testFunctions.contains (String.ofList (callee.toList.takeWhile (· != '.')))

def Tally.add (t : Tally) : Item → Tally
  | .importFrom _ => { t with imports := t.imports + 1 }
  | .exportFrom _ | .exportAll _ | .exportLocal => { t with exports := t.exports + 1 }
  | .function _ => { t with functions := t.functions + 1 }
  | .classLike _ => { t with classes := t.classes + 1 }
  | .interface _ => { t with interfaces := t.interfaces + 1, typed := true }
  | .typeAlias _ => { t with typeAliases := t.typeAliases + 1, typed := true }
  | .typeAscription => { t with typed := true }
  | .call callee => { t with tested := t.tested || callsTest callee }
  | .branch => { t with branches := t.branches + 1 }
  | .markup => { t with markup := true }

def Tally.ofItems (items : List Item) : Tally := items.foldl Tally.add {}

end Metrics

/-- The number of lines that are not blank. -/
def countLines (text : String) : Nat :=
  (Text.linesOf text.toList).countP fun line => !(Text.trim line).isEmpty

/-- The metrics of a text under a name. -/
def measure (verdict : Verdict) (name text : String) : FileMetrics :=
  let hints := Hints.ofName name
  let lines := countLines text
  match Reading.of? verdict (.ofPath (.ofString name)) text with
  | .error fault =>
    { linesOfCode := lines, isComponent := hints.component, isConfig := hints.config,
      isTest := hints.test, usesTypes := hints.typed, fault := some fault }
  | .ok reading =>
    let t := Tally.ofItems reading.items
    { functions := t.functions, classes := t.classes, interfaces := t.interfaces,
      typeAliases := t.typeAliases, exports := t.exports, imports := t.imports,
      complexity := 1 + t.branches, linesOfCode := lines,
      isComponent := t.markup || hints.component, isConfig := hints.config,
      isTest := hints.test || t.tested, usesTypes := t.typed }

end ModuleAtlas
