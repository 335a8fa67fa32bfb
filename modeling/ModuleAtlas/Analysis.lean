import ModuleAtlas.Graph.Cycles
import ModuleAtlas.Imports
import ModuleAtlas.Layout.Arrange
import ModuleAtlas.Layout.Focus
import ModuleAtlas.Metrics.Measure
import ModuleAtlas.Resolve
import ModuleAtlas.Scan

/-!
# Analysis of a directory

The files below a root are read one by one, and what they import is resolved; from that the graph is
made, its cycles are marked, its nodes get their roles and their places. A file that cannot be read,
or that makes no sense, is a node without imports and a warning; its warning comes behind those of the
directories that could not be listed.

* `Analysis.loadFile` looks at one file, `Analysis.ofLoaded` makes the graph of all of them;
* `Analysis.run` is the whole analysis;
* `measureFile` measures a single file.
-/

namespace ModuleAtlas

open Source

/-- The graph of a directory, finished and with its nodes in their places. -/
structure Analysis (α : Type) where
  /-- The canonical path of the directory. -/
  root : Path
  graph : Graph α
  stats : Stats
  warnings : List Warning
deriving Repr, Inhabited

namespace Analysis

/-- The canonical path of a directory to analyse. -/
def rootOf (s : Snapshot) (p : Path) : Except Failure Path :=
  if p.text.isEmpty then .error (.input .directoryRequired)
  else if !s.hasEntry p then .error (.notFound .directory p)
  else if !s.isDirectory p then .error (.input (.notADirectory p))
  else
    match s.canonical p with
    | .ok root => .ok root
    | .error t => .error (.internal "canonicalize root" t.message)

/-- A file as the graph knows it, and what was wrong with it. -/
structure Loaded where
  file : SourceFile
  warning : Option Warning
deriving Repr, Inhabited

/-- What a file imports, or why that cannot be said. -/
def importsOf (verdict : Verdict) (s : Snapshot) (extensions : List String) (root p : Path) :
    Except Obstacle (List Path) :=
  match s.readText p with
  | .error t => .error (.unreadable t)
  | .ok text =>
    match localImports verdict p text with
    | .error f => .error (.senseless f)
    | .ok names => .ok (names.filterMap (Resolve.resolve? s extensions root p))

/-- Looks at one file of a root. -/
def loadFile (verdict : Verdict) (s : Snapshot) (extensions : List String) (root p : Path) :
    Loaded :=
  let id := (s.canonical p).toOption.getD p
  let file (dependencies : List Path) : SourceFile :=
    { path := id, displayName := Path.displayName root id, dependencies }
  match importsOf verdict s extensions root p with
  | .ok dependencies => ⟨file dependencies, none⟩
  | .error obstacle => ⟨file [], some ⟨p, obstacle⟩⟩

variable {α γ : Type} [Scalar α]

/-- In the order of paths. -/
def sorted (loaded : List Loaded) : List Loaded :=
  loaded.mergeSort fun a b => (compare a.file.path b.file.path).isLE

/-- The graph of the given files, with its cycles marked and with roles, all in one place. -/
def graphOf (rules : RoleRules) (files : List SourceFile) : Graph α :=
  rules.classify (Graph.ofFiles .origin files).markCycles

/-- The analysis of files that have been looked at in any order. The warnings of the scan that found
them come before theirs. -/
def ofLoaded (settings : Settings α) (r : RandomSource α γ) (root : Path) (warnings : List Warning)
    (loaded : List Loaded) : Except Failure (Analysis α) :=
  let loaded := sorted loaded
  match (graphOf settings.roles (loaded.map (·.file))).arrange? settings.layout r with
  | none => .error .noRoom
  | some graph =>
    .ok { root, graph, stats := graph.stats,
          warnings := warnings ++ loaded.filterMap (·.warning) }

/-- The analysis of a directory. -/
def run (verdict : Verdict) (r : RandomSource α γ) (s : Snapshot) (settings : Settings α)
    (p : Path) : Except Failure (Analysis α) := do
  let root ← rootOf s p
  let found ← Scan.run s settings.scan root
  ofLoaded settings r root found.warnings
    (found.files.map (loadFile verdict s settings.scan.extensions root))

/-- The file that a path names which is read from a root. -/
def focusOf (s : Snapshot) (root p : Path) : Except Failure Path :=
  let p := root.join p
  match s.canonical p with
  | .ok id => .ok id
  | .error _ => .error (.notFound .file p)

/-- The analysis moved so that a file lies in the centre. -/
def focusOn (s : Snapshot) (settings : LayoutSettings α) (p : Path) (a : Analysis α) :
    Except Failure (Analysis α) := do
  let id ← focusOf s a.root p
  match a.graph.centerOn? id settings with
  | some graph => .ok { a with graph }
  | none => .error (.input (.notInGraph p))

end Analysis

/-- The metrics of a file. -/
def measureFile (verdict : Verdict) (s : Snapshot) (p : Path) : Except Failure FileMetrics :=
  if p.text.isEmpty then .error (.input .fileRequired)
  else
    match s.readText p with
    | .error _ => .error (.notFound .file p)
    | .ok text =>
      let name := match p.fileName? with
        | some name => Text.Utf8.decodeLossy name
        | none => p.display
      .ok (measure verdict name text)

end ModuleAtlas
