/-!
# Ranks

The rank of a node is the length of the longest way to it from a node that nothing points to. Nodes
become ready when all that point to them have been placed, and are placed in the order in which they
became ready. Where only cycles are left, the lowest node that has not been placed is made ready.
Edges from a node to itself do not count.

* `Ranking.step?` places one node or opens one cycle, `Ranking.run` goes on until all are placed;
* `inferRanks` gives the rank of each node.
-/

namespace ModuleAtlas

/-- The state of a ranking. -/
structure Ranking where
  ranks : Array Nat
  /-- How many edges into each node come from nodes not placed. -/
  indegree : Array Nat
  placed : Array Bool
  /-- The nodes to place, the next one first. -/
  ready : List Nat
  /-- How many nodes are not placed. -/
  remaining : Nat
  /-- All nodes below have been placed. -/
  cursor : Nat
deriving DecidableEq, Repr, Inhabited

namespace Ranking

/-- How many edges there are into a node from others. -/
def edgesInto (adjacency : Array (List Nat)) (v : Nat) : Nat :=
  adjacency.toList.zipIdx.foldr (fun (targets, u) n => (if u = v then 0 else targets.count v) + n) 0

/-- The ranking that has placed no node: those without edges into them are ready. -/
def initial (adjacency : Array (List Nat)) : Ranking :=
  let n := adjacency.size
  let indegree := (Array.range n).map (edgesInto adjacency)
  { ranks := .replicate n 0
    indegree
    placed := .replicate n false
    ready := (List.range n).filter fun v => indegree.getD v 0 = 0
    remaining := n
    cursor := 0 }

def isPlaced (s : Ranking) (v : Nat) : Bool := s.placed.getD v true

/-- Takes account of one edge from a node that has just been placed. -/
def release (v : Nat) (s : Ranking) (w : Nat) : Ranking :=
  if w = v || s.isPlaced w then s
  else
    let indegree := s.indegree.getD w 0 - 1
    { s with
      ranks := s.ranks.setIfInBounds w (max (s.ranks.getD w 0) (s.ranks.getD v 0 + 1))
      indegree := s.indegree.setIfInBounds w indegree
      ready := if indegree = 0 then s.ready ++ [w] else s.ready }

/-- Places a node. -/
def place (adjacency : Array (List Nat)) (v : Nat) (s : Ranking) : Ranking :=
  (adjacency.getD v []).foldl (release v)
    { s with placed := s.placed.setIfInBounds v true, remaining := s.remaining - 1 }

/-- The first node from `c` on that has not been placed. -/
def skipPlaced (placed : Array Bool) (c : Nat) : Nat :=
  if h : c < placed.size then if placed[c] then skipPlaced placed (c + 1) else c else c
termination_by placed.size - c

/-- Places the next node that is ready, or opens a cycle; `none` if all nodes have been placed. -/
def step? (adjacency : Array (List Nat)) (s : Ranking) : Option Ranking :=
  match s.ready with
  | v :: rest =>
    let s := { s with ready := rest }
    some (if s.isPlaced v then s else place adjacency v s)
  | [] =>
    if s.remaining = 0 then none
    else
      let c := skipPlaced s.placed s.cursor
      if c < s.placed.size then some { s with cursor := c, ready := [c] } else none

/-! ### The ranking ends -/

/-- How many of the first nodes have not been placed. -/
def unplaced (placed : Array Bool) : Nat → Nat
  | 0 => 0
  | n + 1 => unplaced placed n + if placed.getD n true then 0 else 1

/-- How many steps at the most will be taken before the next node is placed. -/
def stale (s : Ranking) : Nat :=
  s.ready.countP (fun v => s.placed.getD v true) +
    if s.ready.all fun v => s.placed.getD v true then 1 else 0

theorem unplaced_set {placed : Array Bool} {v : Nat} (hv : placed.getD v true = false) (n : Nat) :
    unplaced (placed.setIfInBounds v true) n + (if v < n then 1 else 0) = unplaced placed n := by
  have hs : v < placed.size := by
    by_cases h : v < placed.size
    · exact h
    · simp [h] at hv
  induction n with
  | zero => simp [unplaced]
  | succ n ih =>
    simp only [unplaced]
    by_cases h : v = n
    · subst h
      simp only [Nat.lt_irrefl, if_false, Nat.add_zero] at ih
      simp [ih, hv, hs]
    · have hg : (placed.setIfInBounds v true).getD n true = placed.getD n true := by simp [h]
      rw [hg, ← ih]
      by_cases hn : v < n
      · simp [hn, Nat.lt_succ_of_lt hn]
        omega
      · have : ¬ v < n + 1 := by omega
        simp [hn, this]

theorem placed_release (v : Nat) (s : Ranking) (w : Nat) : (release v s w).placed = s.placed := by
  unfold release
  split <;> rfl

theorem placed_place (adjacency : Array (List Nat)) (v : Nat) (s : Ranking) :
    (place adjacency v s).placed = s.placed.setIfInBounds v true := by
  have (ws : List Nat) (s : Ranking) : (ws.foldl (release v) s).placed = s.placed := by
    induction ws generalizing s with
    | nil => rfl
    | cons w ws ih => rw [List.foldl_cons, ih, placed_release]
  rw [place, this]

theorem skipPlaced_spec (placed : Array Bool) (c : Nat) (h : skipPlaced placed c < placed.size) :
    placed.getD (skipPlaced placed c) true = false := by
  fun_induction skipPlaced placed c with
  | case1 c hc hp ih => exact ih h
  | case2 c hc hp => simpa [hc] using hp
  | case3 c hc => contradiction

theorem step?_decreases {adjacency : Array (List Nat)} {s t : Ranking}
    (h : step? adjacency s = some t) :
    Prod.Lex (· < ·) (· < ·) (unplaced t.placed t.placed.size, stale t)
      (unplaced s.placed s.placed.size, stale s) := by
  unfold step? at h
  split at h
  · next v rest hr =>
    simp only [Option.some.injEq] at h
    split at h
    · next hv =>
      subst h
      refine Prod.Lex.right _ ?_
      simp only [isPlaced, Array.getD_eq_getD_getElem?] at hv
      simp [stale, hr, hv]
    · next hv =>
      subst h
      refine Prod.Lex.left _ _ ?_
      simp only [isPlaced, Bool.not_eq_true] at hv
      have hs : v < s.placed.size := by
        by_cases h : v < s.placed.size
        · exact h
        · simp [h] at hv
      have := unplaced_set hv s.placed.size
      simp only [hs, if_true] at this
      simp only [placed_place, Array.size_setIfInBounds]
      omega
  · next hr =>
    split at h
    · contradiction
    · dsimp only at h
      split at h
      · next hc =>
        simp only [Option.some.injEq] at h
        subst h
        refine Prod.Lex.right _ ?_
        have := skipPlaced_spec s.placed s.cursor hc
        rw [Array.getD_eq_getD_getElem?] at this
        simp [stale, hr, this]
      · contradiction

/-- Goes on until all nodes have been placed. -/
def run (adjacency : Array (List Nat)) (s : Ranking) : Ranking :=
  match _h : step? adjacency s with
  | none => s
  | some t => run adjacency t
termination_by (unplaced s.placed s.placed.size, stale s)
decreasing_by exact step?_decreases _h

end Ranking

/-- The rank of each node. -/
def inferRanks (adjacency : Array (List Nat)) : Array Nat :=
  (Ranking.run adjacency (Ranking.initial adjacency)).ranks

end ModuleAtlas
