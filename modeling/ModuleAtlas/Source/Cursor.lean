import ModuleAtlas.Source.Tree

/-!
# Walking a tree

A cursor stands on one node of a tree and moves to a neighbour: to the first child, to the next
sibling, or to the parent. The walk through a whole tree needs nothing else: down where it can, else
on to the next sibling, else up until there is one.

* `Cursor.walk` lists the nodes in the order in which the walk comes to them.
-/

namespace ModuleAtlas.Source

/-- A node that a cursor has gone down from, with the children on both sides of the way down. -/
structure Level where
  label : Label
  /-- The children to the left, the nearest first. -/
  before : List Tree
  after : List Tree

structure Cursor where
  focus : Tree
  /-- The levels above, the nearest first. -/
  above : List Level

namespace Tree

mutual

/-- How many nodes a tree has. -/
def size : Tree → Nat
  | node _ cs => 1 + sizeAll cs

def sizeAll : List Tree → Nat
  | [] => 0
  | t :: ts => size t + sizeAll ts

end

end Tree

namespace Cursor

/-- A cursor on the root of a tree. -/
def atRoot (t : Tree) : Cursor := ⟨t, []⟩

def firstChild? (c : Cursor) : Option Cursor :=
  match c.focus with
  | .node _ [] => none
  | .node l (t :: ts) => some ⟨t, ⟨l, [], ts⟩ :: c.above⟩

def nextSibling? (c : Cursor) : Option Cursor :=
  match c.above with
  | ⟨l, before, t :: ts⟩ :: up => some ⟨t, ⟨l, c.focus :: before, ts⟩ :: up⟩
  | _ => none

def parent? (c : Cursor) : Option Cursor :=
  match c.above with
  | [] => none
  | ⟨l, before, after⟩ :: up => some ⟨.node l (before.reverse ++ c.focus :: after), up⟩

theorem length_above_of_parent? {c d : Cursor} (h : c.parent? = some d) :
    d.above.length < c.above.length := by
  cases hc : c.above with
  | nil => simp [parent?, hc] at h
  | cons level up =>
    simp only [parent?, hc, Option.some.injEq] at h
    simp [← h]

/-- The next sibling of the node or of the nearest node above that has one. -/
def ascend? (c : Cursor) : Option Cursor :=
  match c.nextSibling? with
  | some d => some d
  | none =>
    match _h : c.parent? with
    | some d => ascend? d
    | none => none
termination_by c.above.length
decreasing_by exact length_above_of_parent? _h

/-- The node that the walk comes to next. -/
def next? (c : Cursor) : Option Cursor :=
  match c.firstChild? with
  | some d => some d
  | none => c.ascend?

/-- How many nodes are to the right of the cursor's way down. -/
def pendingAbove : List Level → Nat
  | [] => 0
  | level :: up => Tree.sizeAll level.after + pendingAbove up

/-- How many nodes the walk has still to come to, the one under the cursor included. -/
def pending (c : Cursor) : Nat := c.focus.size + pendingAbove c.above

theorem pending_nextSibling? {c d : Cursor} (h : c.nextSibling? = some d) :
    d.pending = pendingAbove c.above := by
  unfold nextSibling? at h
  split at h
  · next hc =>
    simp only [Option.some.injEq] at h
    simp only [← h, pending, pendingAbove, hc, Tree.sizeAll]
    omega
  · simp at h

theorem pendingAbove_parent? {c d : Cursor} (h : c.parent? = some d) :
    pendingAbove d.above ≤ pendingAbove c.above := by
  unfold parent? at h
  split at h
  · simp at h
  · next hc =>
    simp only [Option.some.injEq] at h
    simp only [← h, pendingAbove, hc]
    omega

theorem pending_ascend? {c d : Cursor} (h : c.ascend? = some d) :
    d.pending ≤ pendingAbove c.above := by
  fun_induction ascend? c with
  | case1 c e he =>
    cases h
    exact Nat.le_of_eq (pending_nextSibling? he)
  | case2 c he e hp ih => exact Nat.le_trans (ih h) (pendingAbove_parent? hp)
  | case3 => simp at h

/-- The walk comes to every node once. -/
theorem pending_next? {c d : Cursor} (h : c.next? = some d) : d.pending < c.pending := by
  have positive (t : Tree) : 0 < t.size := by cases t; simp only [Tree.size]; omega
  unfold next? at h
  split at h
  · next e he =>
    simp only [Option.some.injEq] at h
    subst h
    unfold firstChild? at he
    split at he
    · simp at he
    · next hf =>
      simp only [Option.some.injEq] at he
      simp only [← he, pending, pendingAbove, hf, Tree.size, Tree.sizeAll]
      omega
  · have := pending_ascend? h
    have := positive c.focus
    simp only [pending] at *
    omega

/-- The nodes from the cursor on, in the order of the walk, behind those already passed. -/
def walkAfter (passed : List Tree) (c : Cursor) : List Tree :=
  match _h : c.next? with
  | some d => walkAfter (c.focus :: passed) d
  | none => (c.focus :: passed).reverse
termination_by c.pending
decreasing_by exact pending_next? _h

/-- The nodes of a tree, in the order of the walk. -/
def walk (t : Tree) : List Tree := walkAfter [] (atRoot t)

end Cursor

end ModuleAtlas.Source
