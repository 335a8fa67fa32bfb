import Mathlib.Data.List.Lex
import ModuleAtlas.Proofs.Source.Walk
import ModuleAtlas.Source.Item

/-!
# Where the walk goes

An address is the way from the root of a tree down to a node; before another address in the
lexicographic order come the nodes around it and those to the left. The walk is followed by its
addresses, and this is independent of the recursion that lists a tree's nodes in preorder.

* The cursor moves as its moves are named (`firstChild?_eq_some`, `nextSibling?_eq_some`,
  `parent?_eq_some`), and never leaves the tree that it is in (`Cursor.tree`).
* A step of the walk goes to the first of all nodes behind the one under the cursor, however many
  levels it has to climb (`isOnFirst_next?`); where it finds none, there is none.
* Hence a walk from the root comes to each node once (`itemsOf_in_order`).
-/

namespace ModuleAtlas.Source

/-- The way from the root of a tree to a node: which child is taken, at each level. -/
abbrev Address := List Nat

/-! ### The order of addresses -/

namespace Address

variable {a b x : Address} {i : Nat}

/-- The two ways part, and the second one goes on further to the right. -/
inductive RightOf : Address → Address → Prop
  | part {i j : Nat} {a x : Address} (h : i < j) : RightOf (i :: a) (j :: x)
  | cons {i : Nat} {a x : Address} (h : RightOf a x) : RightOf (i :: a) (i :: x)

/-- What is to the right of a node comes after all nodes inside it. -/
theorem RightOf.append_lt (h : RightOf a x) (b : Address) : a ++ b < x := by
  induction h with
  | part h => exact .rel h
  | cons _ ih => exact .cons ih

theorem lt_append_cons (a : Address) (i : Nat) (b : Address) : a < a ++ i :: b := by
  induction a with
  | nil => exact .nil
  | cons j a ih => exact .cons ih

/-- What comes after a node is inside it or to its right. -/
theorem rightOf_or_of_lt (h : a < x) : RightOf a x ∨ ∃ j b, x = a ++ j :: b := by
  induction h with
  | nil => exact .inr ⟨_, _, rfl⟩
  | rel h => exact .inl (.part h)
  | cons _ ih =>
    rcases ih with h | ⟨j, b, rfl⟩
    · exact .inl (.cons h)
    · exact .inr ⟨j, b, rfl⟩

/-- What is to the right of a child is inside one of the children behind it, or to the right of the
parent. -/
theorem rightOf_concat_iff :
    RightOf (a ++ [i]) x ↔ RightOf a x ∨ ∃ j b, i < j ∧ x = a ++ j :: b := by
  induction a generalizing x with
  | nil =>
    constructor
    · rintro (⟨h⟩ | ⟨⟨⟩⟩)
      exact .inr ⟨_, _, h, rfl⟩
    · rintro (⟨⟨⟩⟩ | ⟨j, b, h, rfl⟩)
      exact .part h
  | cons k a ih =>
    constructor
    · rintro (⟨h⟩ | ⟨h⟩)
      · exact .inl (.part h)
      · rcases ih.1 h with h | ⟨j, b, hij, rfl⟩
        · exact .inl (.cons h)
        · exact .inr ⟨j, b, hij, rfl⟩
    · rintro ((⟨h⟩ | ⟨h⟩) | ⟨j, b, h, rfl⟩)
      · exact .part h
      · exact .cons (ih.2 (.inl h))
      · exact .cons (ih.2 (.inr ⟨j, b, h, rfl⟩))

/-- Among the children from one on, and what is inside them, that one comes first. -/
theorem eq_or_lt_of_le {j : Nat} (h : i ≤ j) (a b : Address) :
    a ++ j :: b = a ++ [i] ∨ a ++ [i] < a ++ j :: b := by
  rcases Nat.eq_or_lt_of_le h with rfl | h
  · cases b with
    | nil => exact .inl rfl
    | cons => exact .inr (List.Lex.append_left _ (.cons .nil) a)
  · exact .inr (List.Lex.append_left _ (.rel h) a)

end Address

namespace Tree

variable {t u : Tree} {a b : Address} {i : Nat}

/-- The node at an address. -/
def at? : Tree → Address → Option Tree
  | t, [] => some t
  | t, i :: a => (t.children[i]?).bind (·.at? a)

theorem at?_append (t : Tree) (a b : Address) : t.at? (a ++ b) = (t.at? a).bind (·.at? b) := by
  induction a generalizing t with
  | nil => rfl
  | cons i a ih =>
    rw [List.cons_append, at?, at?]
    cases t.children[i]? with
    | none => rfl
    | some u => exact ih u

theorem at?_concat (h : t.at? a = some u) : t.at? (a ++ [i]) = u.children[i]? := by
  rw [at?_append, h, Option.bind_some, at?]
  cases u.children[i]? <;> rfl

/-- A node inside another one is a child of it, or inside a child. -/
theorem isSome_child (hu : t.at? a = some u) (h : (t.at? (a ++ i :: b)).isSome) :
    i < u.children.length := by
  rw [at?_append, hu, Option.bind_some, at?] at h
  obtain ⟨_, hn⟩ := Option.isSome_iff_exists.1 h
  obtain ⟨_, hc, -⟩ := Option.bind_eq_some_iff.1 hn
  exact (List.getElem?_eq_some_iff.1 hc).1

end Tree

namespace Cursor

open ModuleAtlas.Source.Tree

variable {c d : Cursor} {t : Tree} {a x : Address}

/-- The address of the node under the cursor. -/
def address (c : Cursor) : Address := (c.above.map fun level => level.before.length).reverse

/-- The tree that the cursor is in. -/
def tree (c : Cursor) : Tree :=
  c.above.foldl (fun t level => .node level.label (level.before.reverse ++ t :: level.after)) c.focus

theorem at?_address (c : Cursor) : c.tree.at? c.address = some c.focus := by
  obtain ⟨focus, above⟩ := c
  induction above generalizing focus with
  | nil => rfl
  | cons level up ih =>
    rw [tree, List.foldl_cons, address, List.map_cons, List.reverse_cons]
    refine (at?_concat (ih _)).trans ?_
    simp [children]

theorem isSome_at?_address (c : Cursor) : (c.tree.at? c.address).isSome := by
  rw [at?_address, Option.isSome_some]

/-! ### The moves -/

/-- To the first child, if there is one. -/
theorem firstChild?_eq_some (h : c.firstChild? = some d) :
    d.tree = c.tree ∧ d.address = c.address ++ [0] := by
  unfold firstChild? at h
  split at h
  · contradiction
  · next hfocus =>
    obtain rfl := Option.some.inj h
    simp [tree, address, hfocus]

theorem firstChild?_eq_none (h : c.firstChild? = none) : c.focus.children = [] := by
  unfold firstChild? at h
  split at h
  · next hfocus => rw [hfocus, children]
  · contradiction

/-- To the next child of the same parent, if there is one. -/
theorem nextSibling?_eq_some (h : c.nextSibling? = some d) :
    d.tree = c.tree ∧ ∃ a i, c.address = a ++ [i] ∧ d.address = a ++ [i + 1] := by
  unfold nextSibling? at h
  split at h
  · next habove =>
    obtain rfl := Option.some.inj h
    simp [tree, address, habove]
  · contradiction

/-- To the parent, if the cursor is not on the root. -/
theorem parent?_eq_some (h : c.parent? = some d) :
    d.tree = c.tree ∧ ∃ i, c.address = d.address ++ [i] ∧
      (c.nextSibling? = none → d.focus.children.length = i + 1) := by
  obtain ⟨focus, above⟩ := c
  match above with
  | [] => contradiction
  | ⟨l, before, after⟩ :: up =>
    obtain rfl := Option.some.inj h
    refine ⟨rfl, before.length, by simp [address], fun hnone => ?_⟩
    cases after with
    | nil => simp [children]
    | cons => contradiction

theorem parent?_eq_none (h : c.parent? = none) : c.address = [] := by
  unfold parent? at h
  split at h
  · next habove => simp [address, habove]
  · contradiction

/-! ### The next node -/

/-- The cursor is in the tree, on the first of the nodes whose address has the property; without a
cursor there is no such node. -/
def IsOnFirst (t : Tree) (P : Address → Prop) : Option Cursor → Prop
  | some d => d.tree = t ∧ P d.address ∧
      ∀ x, (t.at? x).isSome → P x → x = d.address ∨ d.address < x
  | none => ∀ x, (t.at? x).isSome → ¬P x

theorem IsOnFirst.congr {P Q : Address → Prop} (h : ∀ x, (t.at? x).isSome → (P x ↔ Q x)) :
    ∀ {o}, IsOnFirst t P o → IsOnFirst t Q o
  | some d, ⟨htree, hd, hfirst⟩ => by
    exact ⟨htree, (h _ (htree ▸ isSome_at?_address d)).1 hd, fun x hx hQ => hfirst x hx ((h x hx).2 hQ)⟩
  | none, hnone => fun x hx hQ => hnone x hx ((h x hx).2 hQ)

/-- Climbing ends at the first node to the right. -/
theorem isOnFirst_ascend? (c : Cursor) :
    IsOnFirst c.tree (Address.RightOf c.address) c.ascend? := by
  fun_induction ascend? c with
  | case1 c d hd =>
    obtain ⟨htree, a, i, hc, hd⟩ := nextSibling?_eq_some hd
    rw [hc]
    refine ⟨htree, hd ▸ Address.rightOf_concat_iff.2 (.inr ⟨i + 1, [], i.lt_succ_self, rfl⟩),
      fun x _ hx => hd ▸ ?_⟩
    rcases Address.rightOf_concat_iff.1 hx with hx | ⟨j, b, hij, rfl⟩
    · exact .inr (hx.append_lt _)
    · exact Address.eq_or_lt_of_le hij a b
  | case2 c hnone d hd ih =>
    -- the child that the cursor comes from is the last one
    obtain ⟨htree, i, hc, hlast⟩ := parent?_eq_some hd
    rw [htree] at ih
    refine ih.congr fun x hx => ?_
    rw [hc, Address.rightOf_concat_iff]
    refine ⟨.inl, fun h => h.resolve_right ?_⟩
    rintro ⟨j, b, hij, rfl⟩
    have hj := isSome_child (htree ▸ d.at?_address) hx
    rw [hlast hnone] at hj
    omega
  | case3 c _ hnone =>
    intro x _ hx
    rw [parent?_eq_none hnone] at hx
    contradiction

/-- The walk goes on to the first node that comes after the one under the cursor. -/
theorem isOnFirst_next? (c : Cursor) : IsOnFirst c.tree (c.address < ·) c.next? := by
  unfold next?
  split
  · next d hd =>
    obtain ⟨htree, hd⟩ := firstChild?_eq_some hd
    refine ⟨htree, hd ▸ Address.lt_append_cons c.address 0 [], fun x _ hx => hd ▸ ?_⟩
    rcases Address.rightOf_or_of_lt hx with hx | ⟨j, b, rfl⟩
    · exact .inr (hx.append_lt _)
    · exact Address.eq_or_lt_of_le j.zero_le c.address b
  · next hnone =>
    refine (isOnFirst_ascend? c).congr fun x hx => ⟨fun h => ?_, fun h => ?_⟩
    · exact List.append_nil c.address ▸ h.append_lt []
    · refine (Address.rightOf_or_of_lt h).resolve_right ?_
      rintro ⟨j, b, rfl⟩
      have hj := isSome_child c.at?_address hx
      rw [firstChild?_eq_none hnone] at hj
      contradiction

theorem next?_eq_some (h : c.next? = some d) : d.tree = c.tree ∧ c.address < d.address ∧
    ∀ x, (c.tree.at? x).isSome → c.address < x → x = d.address ∨ d.address < x := by
  have hfirst := isOnFirst_next? c
  rwa [h] at hfirst

theorem next?_eq_none (h : c.next? = none) : ∀ x, (c.tree.at? x).isSome → ¬c.address < x := by
  have hfirst := isOnFirst_next? c
  rwa [h] at hfirst

/-! ### The whole walk -/

/-- The cursors that the walk comes to, from one on. -/
def course (c : Cursor) : List Cursor :=
  match _h : c.next? with
  | some d => c :: course d
  | none => [c]
termination_by c.pending
decreasing_by exact pending_next? _h

theorem walkAfter_eq_course (passed : List Tree) (c : Cursor) :
    walkAfter passed c = passed.reverse ++ c.course.map (·.focus) := by
  fun_induction course c generalizing passed with
  | case1 c d hd ih =>
    rw [walkAfter]
    split
    · next e he =>
      obtain rfl := Option.some.inj (hd.symm.trans he)
      rw [ih, List.reverse_cons, List.append_assoc]
      rfl
    · next hnone => simp [hd] at hnone
  | case2 c hnone =>
    rw [walkAfter]
    split
    · next e he => simp [hnone] at he
    · rw [List.reverse_cons]
      rfl

/-- The walk comes to the node under the cursor and to all nodes after it, and to no others. -/
theorem mem_course_iff (c : Cursor) : x ∈ c.course.map (·.address) ↔
    (c.tree.at? x).isSome ∧ (x = c.address ∨ c.address < x) := by
  fun_induction course c with
  | case1 c d hd ih =>
    obtain ⟨htree, hlt, hfirst⟩ := next?_eq_some hd
    rw [List.map_cons, List.mem_cons, ih, htree]
    constructor
    · rintro (rfl | ⟨hx, rfl | h⟩)
      · exact ⟨isSome_at?_address c, .inl rfl⟩
      · exact ⟨hx, .inr hlt⟩
      · exact ⟨hx, .inr (hlt.trans h)⟩
    · rintro ⟨hx, rfl | h⟩
      · exact .inl rfl
      · exact .inr ⟨hx, hfirst x hx h⟩
  | case2 c hnone =>
    rw [List.map_singleton, List.mem_singleton]
    constructor
    · rintro rfl
      exact ⟨isSome_at?_address c, .inl rfl⟩
    · rintro ⟨hx, rfl | h⟩
      · rfl
      · exact absurd h (next?_eq_none hnone x hx)

theorem ascending_course (c : Cursor) : (c.course.map (·.address)).Pairwise (· < ·) := by
  fun_induction course c with
  | case1 c d hd ih =>
    obtain ⟨-, hlt, -⟩ := next?_eq_some hd
    refine List.pairwise_cons.2 ⟨fun x hx => ?_, ih⟩
    rcases ((mem_course_iff d).1 hx).2 with rfl | h
    · exact hlt
    · exact hlt.trans h
  | case2 c hnone => exact List.pairwise_singleton _ _

theorem tree_of_mem_course (h : d ∈ c.course) : d.tree = c.tree := by
  fun_induction course c with
  | case1 c e he ih =>
    rcases List.mem_cons.1 h with rfl | h
    · rfl
    · exact (ih h).trans (next?_eq_some he).1
  | case2 c hnone => rw [List.mem_singleton.1 h]

/-- The addresses at which the walk through a tree stops, in the order in which it comes to them. -/
def stops (t : Tree) : List Address := (atRoot t).course.map (·.address)

/-- The nodes that the walk comes to are those at its stops. -/
theorem walk_eq_stops (t : Tree) : walk t = (stops t).filterMap t.at? := by
  have hnode : ∀ d ∈ (atRoot t).course, t.at? d.address = some d.focus := fun d hd => by
    have htree : d.tree = t := tree_of_mem_course hd
    rw [← htree, at?_address]
  rw [walk, walkAfter_eq_course, stops, List.filterMap_map, List.reverse_nil, List.nil_append,
    ← List.filterMap_eq_map]
  exact List.filterMap_congr fun d hd => (hnode d hd).symm

end Cursor

open ModuleAtlas.Source.Tree ModuleAtlas.Source.Cursor

/-- The walk through a tree stops at every node, once: the addresses at which it stops are those of
the tree in ascending order. This is the tree's preorder, and the items of the tree are what its
nodes yield in this order. -/
theorem itemsOf_in_order (t : Tree) :
    (stops t).Pairwise (· < ·) ∧ (∀ a, a ∈ stops t ↔ (t.at? a).isSome) ∧
      walk t = (stops t).filterMap t.at? ∧ walk t = preorder t ∧
      ∀ script, itemsOf script t = (preorder t).filterMap (Item.ofTree? script) := by
  refine ⟨ascending_course _, fun a => ?_, walk_eq_stops t, walk_eq_preorder t, fun script => ?_⟩
  · rw [stops, mem_course_iff]
    -- no address comes before the root's
    refine and_iff_left ?_
    cases a with
    | nil => exact .inl rfl
    | cons => exact .inr .nil
  · rw [itemsOf, walk_eq_preorder]

end ModuleAtlas.Source
