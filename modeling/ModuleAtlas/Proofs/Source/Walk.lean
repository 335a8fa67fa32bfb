import ModuleAtlas.Source.Cursor

/-!
# The order of the walk

The walk comes to the nodes of a tree in preorder (`Cursor.walk_eq_preorder`). From where a cursor
stands, what is to come is the tree under it and, level by level, the trees to the right of its way
down (`Cursor.rest`); each step of the walk leaves out the node under the cursor and nothing else.
-/

namespace ModuleAtlas.Source.Cursor

open ModuleAtlas.Source.Tree

variable {c : Cursor}

/-- The nodes to the right of a cursor's way down, the nearest level first. -/
def restAbove : List Level → List Tree
  | [] => []
  | level :: up => preorderAll level.after ++ restAbove up

/-- The nodes that the walk has still to come to, the one under the cursor included. -/
def rest (c : Cursor) : List Tree := preorder c.focus ++ restAbove c.above

theorem rest_nextSibling? : ∀ d ∈ c.nextSibling?, d.rest = restAbove c.above := by
  intro d hd
  unfold nextSibling? at hd
  split at hd
  · next habove =>
    obtain rfl := Option.some.inj hd
    simp only [rest, habove, restAbove, preorderAll, List.append_assoc]
  · contradiction

/-- Where there is no sibling left, the level holds nothing to come. -/
theorem restAbove_parent? (hnone : c.nextSibling? = none) :
    ∀ d ∈ c.parent?, restAbove d.above = restAbove c.above := by
  intro d hd
  obtain ⟨focus, above⟩ := c
  match above with
  | [] => contradiction
  | ⟨l, before, t :: ts⟩ :: up => contradiction
  | ⟨l, before, []⟩ :: up =>
    obtain rfl := Option.some.inj hd
    rfl

theorem restAbove_of_parent?_eq_none (h : c.parent? = none) : restAbove c.above = [] := by
  unfold parent? at h
  split at h
  · next habove => rw [habove, restAbove]
  · contradiction

/-- Going up leaves out no node. -/
theorem restAbove_eq (c : Cursor) : restAbove c.above = c.ascend?.elim [] rest := by
  fun_induction ascend? c with
  | case1 c d hd => exact (rest_nextSibling? d hd).symm
  | case2 c hnone d hd ih => rw [← ih, restAbove_parent? hnone d hd]
  | case3 c _ hnone => exact restAbove_of_parent?_eq_none hnone

theorem rest_eq (c : Cursor) : c.rest = c.focus :: c.next?.elim [] rest := by
  obtain ⟨⟨l, children⟩, above⟩ := c
  cases children with
  | nil => rw [rest, restAbove_eq]; rfl
  | cons t ts =>
    show preorder (node l (t :: ts)) ++ restAbove above =
      node l (t :: ts) :: (preorder t ++ (preorderAll ts ++ restAbove above))
    rw [preorder, preorderAll, List.cons_append, List.append_assoc]

theorem walkAfter_eq (passed : List Tree) (c : Cursor) :
    walkAfter passed c = passed.reverse ++ c.rest := by
  fun_induction walkAfter passed c with
  | case1 passed c d hd ih => rw [ih, rest_eq c, hd, List.reverse_cons, List.append_assoc]; rfl
  | case2 passed c hnone => rw [rest_eq, hnone, List.reverse_cons]; rfl

/-- The walk comes to each node once, before the nodes inside it. -/
theorem walk_eq_preorder (t : Tree) : walk t = preorder t := by
  rw [walk, walkAfter_eq, rest]
  exact List.append_nil _

end ModuleAtlas.Source.Cursor
