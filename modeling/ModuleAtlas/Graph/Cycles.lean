import ModuleAtlas.Graph.Basic

/-!
# Marking circular imports

A depth-first search through the nodes in the order of the graph. It keeps the path from where it
began to the node that it is at; an edge back to a node of that path closes a cycle, and all nodes
of the path from there on are marked. An edge to a node that the search has left already marks
nothing, even if it closes a cycle.

* `Search.step` is one step of the search, `Search.run` takes steps until the path is empty;
* `circularFlags` is the mark of each node, `Graph.markCycles` the graph with its marks.
-/

namespace ModuleAtlas

/-- A node of the path, with the edges from it that are still to be followed. -/
structure Frame where
  node : Nat
  pending : List Nat
deriving DecidableEq, Repr, Inhabited

/-- The state of a search. -/
structure Search where
  visited : Array Bool
  onPath : Array Bool
  /-- The path, the node that the search is at first. -/
  path : List Frame
  circular : Array Bool
deriving DecidableEq, Repr, Inhabited

namespace Search

/-- A search through so many nodes that has not begun. -/
def fresh (n : Nat) : Search :=
  ⟨.replicate n false, .replicate n false, [], .replicate n false⟩

def isVisited (s : Search) (v : Nat) : Bool := s.visited.getD v true

def isOnPath (s : Search) (v : Nat) : Bool := s.onPath.getD v false

/-- Goes down to a node. -/
def enter (adjacency : Array (List Nat)) (v : Nat) (s : Search) : Search :=
  { s with
    visited := s.visited.setIfInBounds v true
    onPath := s.onPath.setIfInBounds v true
    path := ⟨v, adjacency.getD v []⟩ :: s.path }

/-- The nodes of a path from where it is at up to the given node; none if that is not on it. -/
def upTo? (w : Nat) : List Frame → Option (List Nat)
  | [] => none
  | f :: fs => if f.node = w then some [w] else (upTo? w fs).map (f.node :: ·)

/-- Marks the nodes of the path from the given node on. -/
def mark (w : Nat) (s : Search) : Search :=
  { s with
    circular := ((upTo? w s.path).getD []).foldl (fun c v => c.setIfInBounds v true) s.circular }

/-- Follows one edge, or goes back up from a node without any left. -/
def step (adjacency : Array (List Nat)) (s : Search) : Search :=
  match s.path with
  | [] => s
  | ⟨v, []⟩ :: above => { s with onPath := s.onPath.setIfInBounds v false, path := above }
  | ⟨v, w :: ws⟩ :: above =>
    let s := { s with path := ⟨v, ws⟩ :: above }
    if !s.isVisited w then enter adjacency w s
    else if s.isOnPath w then mark w s
    else s

/-! ### The search ends -/

/-- What the nodes that are still to be visited will cost: one step down, one up, and one for each
edge. -/
def ahead (adjacency : Array (List Nat)) (visited : Array Bool) : Nat → Nat
  | 0 => 0
  | n + 1 =>
    ahead adjacency visited n + if visited.getD n true then 0 else (adjacency.getD n []).length + 2

/-- What the nodes on the path will still cost. -/
def behind (path : List Frame) : Nat := path.foldr (fun f n => f.pending.length + 1 + n) 0

/-- An upper bound of the number of steps that are left. -/
def cost (adjacency : Array (List Nat)) (s : Search) : Nat :=
  ahead adjacency s.visited s.visited.size + behind s.path

theorem ahead_visit (adjacency : Array (List Nat)) {visited : Array Bool} {w : Nat}
    (hw : visited.getD w true = false) (n : Nat) :
    ahead adjacency (visited.setIfInBounds w true) n +
        (if w < n then (adjacency.getD w []).length + 2 else 0) = ahead adjacency visited n := by
  have hw' : w < visited.size := by
    by_cases h : w < visited.size
    · exact h
    · simp [h] at hw
  induction n with
  | zero => simp [ahead]
  | succ n ih =>
    simp only [ahead]
    by_cases h : w = n
    · subst h
      simp only [Nat.lt_irrefl, if_false, Nat.add_zero] at ih
      simp [ih, hw, hw']
    · have hg : (visited.setIfInBounds w true).getD n true = visited.getD n true := by
        simp [h]
      rw [hg, ← ih]
      by_cases hn : w < n
      · simp [hn, Nat.lt_succ_of_lt hn]
        omega
      · have : ¬ w < n + 1 := by omega
        simp [hn, this]

theorem cost_enter {adjacency : Array (List Nat)} {s : Search} {w : Nat}
    (hw : s.isVisited w = false) : cost adjacency (enter adjacency w s) + 1 = cost adjacency s := by
  have hs : w < s.visited.size := by
    by_cases h : w < s.visited.size
    · exact h
    · simp [isVisited, h] at hw
  have := ahead_visit adjacency hw s.visited.size
  simp only [hs, if_true] at this
  simp only [cost, enter, Array.size_setIfInBounds, behind, List.foldr_cons]
  omega

theorem cost_step (adjacency : Array (List Nat)) {s : Search} (h : s.path ≠ []) :
    cost adjacency (step adjacency s) < cost adjacency s := by
  unfold step
  split
  · contradiction
  · next hp => simp [cost, behind, hp]
  · next v w ws above hp =>
    have hc : cost adjacency s = cost adjacency { s with path := ⟨v, ws⟩ :: above } + 1 := by
      simp only [cost, behind, hp, List.foldr_cons, List.length_cons]
      omega
    dsimp only
    split
    · next hv =>
      have := @cost_enter adjacency _ _ (by simpa using hv)
      omega
    · split
      · simp only [mark, cost] at *
        omega
      · omega

/-- Takes steps until the search has left the node that it began with. -/
def run (adjacency : Array (List Nat)) (s : Search) : Search :=
  match _h : s.path with
  | [] => s
  | _ :: _ => run adjacency (step adjacency s)
termination_by cost adjacency s
decreasing_by exact cost_step adjacency (by simp [_h])

/-- Searches from a node, unless it has been visited. -/
def explore (adjacency : Array (List Nat)) (s : Search) (v : Nat) : Search :=
  if s.isVisited v then s else run adjacency (enter adjacency v s)

/-- Searches from every node in turn. -/
def exploreAll (adjacency : Array (List Nat)) : Search :=
  (List.range adjacency.size).foldl (explore adjacency) (fresh adjacency.size)

end Search

/-- Which nodes a search marks. -/
def circularFlags (adjacency : Array (List Nat)) : Array Bool :=
  (Search.exploreAll adjacency).circular

/-- The graph with its circular nodes marked. -/
def Graph.markCycles {α : Type} (g : Graph α) : Graph α :=
  let flags := circularFlags g.successors
  g.annotate fun i n => { n with isCircular := flags.getD i false }

end ModuleAtlas
