import ModuleAtlas.Path

/-!
# Dependency graphs

A graph of files: nodes in the order in which the files were given, an index that says where the node
for a file is, and the set of edges in ascending order, each from a file to one that it imports. The
position of a node has coordinates of any type, since the arithmetic of a layout is a parameter.

* `Graph.assemble` makes a graph of any nodes and edges: of several nodes for one file the first is
  entered, edges between other files are dropped, and the edges are counted at the nodes;
* `Graph.annotate` changes the nodes one by one and leaves the index and the edges as they are.
-/

namespace ModuleAtlas

/-- A file with the files that it imports. -/
structure SourceFile where
  path : Path
  /-- What the file is called in reports. -/
  displayName : String
  dependencies : List Path
deriving Repr, Inhabited

/-- What part a file plays in its graph. -/
inductive Role where
  | core
  | utility
  | standalone
deriving DecidableEq, Repr, Inhabited

def Role.label : Role → String
  | core => "core"
  | utility => "utility"
  | standalone => "standalone"

structure Position (α : Type) where
  x : α
  y : α
deriving Repr, Inhabited, DecidableEq

structure Node (α : Type) where
  id : Path
  /-- The file's base name. -/
  label : String
  relativePath : String
  /-- How many edges leave the node. -/
  dependencyCount : Nat
  /-- How many edges enter the node. -/
  dependentCount : Nat
  isCircular : Bool
  role : Role
  position : Position α
deriving Repr, Inhabited

/-- "The source imports the target." -/
structure Edge where
  source : Path
  target : Path
deriving Repr, Inhabited

namespace Edge

/-- The order of edges: by source, then by target. -/
instance : Ord Edge :=
  ⟨fun e f => (compare e.source f.source).then (compare e.target f.target)⟩

instance : BEq Edge := ⟨fun e f => e.source == f.source && e.target == f.target⟩

/-- A name for the edge in reports. -/
def id (e : Edge) : String := s!"e-{e.source.display}-{e.target.display}"

end Edge

@[ext]
structure Graph (α : Type) where
  nodes : List (Node α)
  /-- For each file the place of its node. -/
  index : List (Path × Nat)
  edges : List Edge
  index_lt : ∀ entry ∈ index, entry.2 < nodes.length
deriving Repr

/-- What a report sums a graph up with. -/
structure Stats where
  files : Nat
  dependencies : Nat
  circular : Nat
deriving DecidableEq, Repr, Inhabited

variable {α : Type}

/-- A node for a file, at the given place and without edges. -/
def Node.ofFile (origin : Position α) (f : SourceFile) : Node α where
  id := f.path
  label := match f.path.fileName? with
    | some name => Text.Utf8.decodeLossy name
    | none => f.displayName
  relativePath := f.displayName
  dependencyCount := 0
  dependentCount := 0
  isCircular := false
  role := .core
  position := origin

namespace Graph

def empty : Graph α := ⟨[], [], [], nofun⟩

instance : Inhabited (Graph α) := ⟨empty⟩

/-- The place of the node for a file, in whatever way its path is written. -/
def indexOf? (g : Graph α) (id : Path) : Option Nat := (g.index.find? (·.1 == id)).map (·.2)

/-- The graph with one more node, unless it has a node for the file. -/
def enter (g : Graph α) (n : Node α) : Graph α :=
  if (g.indexOf? n.id).isSome then g
  else
    { g with
      nodes := g.nodes ++ [n]
      index := g.index ++ [(n.id, g.nodes.length)]
      index_lt := by
        intro entry h
        rw [List.length_append, List.length_singleton]
        rcases List.mem_append.1 h with h | h
        · exact Nat.lt_succ_of_lt (g.index_lt entry h)
        · rw [List.mem_singleton.1 h]
          exact Nat.lt_succ_self _ }

/-- The graph with every node changed by a function of its number and the node. -/
def annotate (g : Graph α) (f : Nat → Node α → Node α) : Graph α :=
  { g with
    nodes := g.nodes.mapIdx f
    index_lt := by simpa using g.index_lt }

/-- The graph with the node for a file changed, if there is one. -/
def change (g : Graph α) (id : Path) (f : Node α → Node α) : Graph α :=
  match g.indexOf? id with
  | some i =>
    { g with
      nodes := g.nodes.modify i f
      index_lt := by simpa using g.index_lt }
  | none => g

/-! ### Counts -/

/-- Counts an edge at the nodes that it joins. -/
def count (g : Graph α) (e : Edge) : Graph α :=
  (g.change e.source fun n => { n with dependencyCount := n.dependencyCount + 1 }).change e.target
    fun n => { n with dependentCount := n.dependentCount + 1 }

/-- The graph with its edges counted anew, one after the other. -/
def recount (g : Graph α) : Graph α :=
  g.edges.foldl count (g.annotate fun _ n => { n with dependencyCount := 0, dependentCount := 0 })

/-! ### Assembling -/

/-- Keeps the last of equal edges that stand side by side. -/
def mergeEqual : List Edge → List Edge
  | e :: f :: rest => if e == f then mergeEqual (f :: rest) else e :: mergeEqual (f :: rest)
  | edges => edges

/-- The set of the given edges, in ascending order. -/
def edgeSet (edges : List Edge) : List Edge :=
  mergeEqual (edges.mergeSort fun e f => (compare e f).isLE)

/-- The graph of the given nodes, with those of the given edges that join two of them. -/
def assemble (nodes : List (Node α)) (edges : List Edge) : Graph α :=
  let g := nodes.foldl enter empty
  let present (p : Path) : Bool := (g.indexOf? p).isSome
  recount { g with edges := edgeSet (edges.filter fun e => present e.source && present e.target) }

/-- The edges that the import lists of files stand for. -/
def edgesOf (files : List SourceFile) : List Edge :=
  files.flatMap fun f => f.dependencies.map fun d => ⟨f.path, d⟩

/-- The graph of the given files, all of them at one place. -/
def ofFiles (origin : Position α) (files : List SourceFile) : Graph α :=
  assemble (files.map (Node.ofFile origin)) (edgesOf files)

/-! ### Questions about a graph -/

def size (g : Graph α) : Nat := g.nodes.length

def isEmpty (g : Graph α) : Bool := g.nodes.isEmpty

def node? (g : Graph α) (id : Path) : Option (Node α) := (g.indexOf? id).bind fun i => g.nodes[i]?

def containsEdge (g : Graph α) (source target : Path) : Bool := g.edges.contains ⟨source, target⟩

/-- The files that a file imports. -/
def dependencies (g : Graph α) (id : Path) : List Path :=
  (g.edges.filter (·.source == id)).map (·.target)

/-- The files that import a file. -/
def dependents (g : Graph α) (id : Path) : List Path :=
  (g.edges.filter (·.target == id)).map (·.source)

/-- The numbers of the nodes that each node has an edge to, in the order of their paths. -/
def successors (g : Graph α) : Array (List Nat) :=
  (g.nodes.map fun n => (g.dependencies n.id).filterMap g.indexOf?).toArray

def stats (g : Graph α) : Stats where
  files := g.nodes.length
  dependencies := g.edges.length
  circular := g.nodes.countP (·.isCircular)

end Graph

end ModuleAtlas
