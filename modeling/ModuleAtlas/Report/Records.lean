import ModuleAtlas.Analysis
import ModuleAtlas.Report.Data

/-!
# Reports as data

What a report says about a graph and about a file. A path that is no text cannot be said.
-/

namespace ModuleAtlas.Report

/-- The failure for a path that is no text. -/
def unspeakable : Failure :=
  .internal "serialize report" "path contains invalid UTF-8 characters"

def ofPath (p : Path) : Except Failure Data :=
  match p.toString? with
  | some t => .ok (.text t)
  | none => .error unspeakable

def ofPosition (p : Position Float) : Data := .record [("x", .number p.x), ("y", .number p.y)]

def ofNode (n : Node Float) : Except Failure Data := do
  let id ← ofPath n.id
  pure (.record [("id", id), ("label", .text n.label), ("relativePath", .text n.relativePath),
    ("dependencyCount", .count n.dependencyCount), ("dependentCount", .count n.dependentCount),
    ("isCircular", .flag n.isCircular), ("role", .text n.role.label),
    ("position", ofPosition n.position)])

def ofEdge (e : Edge) : Except Failure Data := do
  let source ← ofPath e.source
  let target ← ofPath e.target
  pure (.record [("id", .text e.id), ("source", source), ("target", target)])

def ofStats (s : Stats) : Data :=
  .record [("totalFiles", .count s.files), ("totalDependencies", .count s.dependencies),
    ("circularDependencies", .count s.circular)]

def ofWarning (w : Warning) : Except Failure Data := do
  let path ← ofPath w.path
  pure (.record [("path", path), ("kind", .text w.obstacle.kindName),
    ("message", .text w.obstacle.message)])

/-- The report on a directory. -/
def ofAnalysis (a : Analysis Float) : Except Failure Data := do
  let nodes ← a.graph.nodes.mapM ofNode
  let edges ← a.graph.edges.mapM ofEdge
  let warnings ← a.warnings.mapM ofWarning
  pure (.record [("nodes", .list nodes), ("edges", .list edges), ("stats", ofStats a.stats),
    ("warnings", .list warnings)])

/-- The report on a file. -/
def ofMetrics (m : FileMetrics) : Data :=
  .record <| [("functionCount", .count m.functions), ("classCount", .count m.classes),
    ("interfaceCount", .count m.interfaces), ("typeAliasCount", .count m.typeAliases),
    ("exportCount", .count m.exports), ("importCount", .count m.imports),
    ("complexity", .count m.complexity), ("linesOfCode", .count m.linesOfCode),
    ("isComponent", .flag m.isComponent), ("isConfig", .flag m.isConfig),
    ("isTest", .flag m.isTest), ("usesTypes", .flag m.usesTypes)] ++
    match m.fault with
    | some f => [("parseError", .text f.message)]
    | none => []

end ModuleAtlas.Report
