import Mathlib
import ModuleAtlas.Proofs.Layout.Acyclic
import ModuleAtlas.Proofs.Layout.RowSpacing

/-!
# Ranks and the turns of nodes

A ranking comes to an end, and what it has found can be said in two ways.

* By the order in which the nodes have had their turns (`placed_in_turn`): the ranks follow from it,
  and it tells in which places circuits have been opened. No rank is left out below the greatest one
  (`exists_rankOf_eq`, from each rank down to the next), so there are no empty rows.
* By the edges alone (`inferRanks_of_joins`): which edges are kept depends on which different nodes
  are joined, and nothing else does.
-/

namespace ModuleAtlas

open Relation

variable {adjacency a b : Array (List Nat)} {rank : Nat → Nat} {order before after : List Nat}
  {k u v : Nat}

/-! ### The end of a ranking -/

theorem Ranking.reaches_run (adjacency : Array (List Nat)) (s : Ranking) :
    ReflTransGen (fun s t => step? adjacency s = some t) s (run adjacency s) ∧
      step? adjacency (run adjacency s) = none := by
  induction s using run.induct adjacency with
  | case1 s hs =>
    rw [run_of_ended hs]
    exact ⟨.refl, hs⟩
  | case2 s t hs ih =>
    rw [run_of_step hs]
    exact ⟨.head hs ih.1, ih.2⟩

/-! ### Turns -/

/-- The node `v` is placed after the nodes `before`, with the nodes `after` still to come. -/
structure InTurn (adjacency : Array (List Nat)) (rank : Nat → Nat) (before : List Nat) (v : Nat)
    (after : List Nat) : Prop where
  /-- One more than the greatest rank of the nodes before it that lead to it, or 0. -/
  rank : IsGreatest (insert 0 {k | ∃ u ∈ before, Joins adjacency u v ∧ k = rank u + 1}) (rank v)
  /-- A node that leads to it is left behind only if all that are left wait for one another, and `v`
  is the lowest of them. -/
  opens : ∀ u ∈ after, Joins adjacency u v →
    ∀ x ∈ v :: after, v ≤ x ∧ ∃ w ∈ v :: after, Joins adjacency w x

theorem Tops.isGreatest (h : Tops adjacency rank before v) :
    IsGreatest (insert 0 {k | ∃ u ∈ before, Joins adjacency u v ∧ k = rank u + 1}) (rank v) := by
  constructor
  · rcases h.attained with h0 | ⟨u, hu, harc, hne, he⟩
    · exact .inl h0
    · exact .inr ⟨u, hu, ⟨harc, hne⟩, he⟩
  · rintro k (rfl | ⟨u, hu, ⟨harc, hne⟩, rfl⟩)
    · exact Nat.zero_le _
    · exact h.lt u hu harc hne

namespace Schedule

variable (h : Schedule adjacency rank (after ++ v :: before))
  (hall : ∀ x < adjacency.size, x ∈ after ++ v :: before)
include h

theorem not_mem_of_mem_after {x : Nat} (hx : x ∈ v :: after) : x ∉ before := by
  obtain ⟨-, hv, hdisjoint⟩ := List.nodup_append.1 h.nodup
  rcases List.mem_cons.1 hx with rfl | hx
  · exact (List.nodup_cons.1 hv).1
  · exact fun hbefore => hdisjoint x hx x (List.mem_cons_of_mem v hbefore) rfl

include hall

theorem inTurn : InTurn adjacency rank before v after where
  rank := (h.tops (List.suffix_append after _)).isGreatest
  opens u hu huv x hx := by
    have hstuck : Stuck adjacency before v := by
      refine (h.turn (List.suffix_append after _)).resolve_left fun hfree => ?_
      exact h.not_mem_of_mem_after (List.mem_cons_of_mem v hu) (hfree u huv.1 huv.2)
    have hxlt : x < adjacency.size := h.lt_size x (by simp at hx ⊢; tauto)
    obtain ⟨hle, hfree⟩ := hstuck x hxlt (h.not_mem_of_mem_after hx)
    obtain ⟨w, hwx, hne, hw⟩ : ∃ w, Arc adjacency w x ∧ w ≠ x ∧ w ∉ before := by
      simpa [Free] using hfree
    have hleft : w ∈ v :: after := by
      have hmem := hall w hwx.lt_size
      simp only [List.mem_append, List.mem_cons] at hmem ⊢
      tauto
    exact ⟨hle, w, hleft, hwx, hne⟩

end Schedule

/-- All nodes are placed in their turns, each of them once. -/
theorem exists_turns (adjacency : Array (List Nat)) : ∃ order : List Nat,
    order.Perm (List.range adjacency.size) ∧ ∀ before v after, order = before ++ v :: after →
      InTurn adjacency (rankOf adjacency) before v after := by
  obtain ⟨order, h, hall⟩ := exists_schedule adjacency
  refine ⟨order.reverse, (List.reverse_perm order).trans ?_, fun before v after hsplit => ?_⟩
  · refine (List.perm_ext_iff_of_nodup h.nodup List.nodup_range).2 fun v => ?_
    rw [List.mem_range]
    exact ⟨h.lt_size v, hall v⟩
  · -- a schedule has the last node first
    obtain rfl : order = after.reverse ++ v :: before.reverse := by
      simpa using congrArg List.reverse hsplit
    obtain ⟨hrank, hopens⟩ := h.inTurn hall
    simp only [List.mem_reverse, List.mem_cons] at hrank hopens
    exact ⟨hrank, by simpa only [List.mem_cons] using hopens⟩

/-! ### Rows -/

/-- Below a rank all others are given to nodes as well. -/
theorem exists_rankOf_eq (hv : v < adjacency.size) (hk : k ≤ rankOf adjacency v) :
    ∃ u < adjacency.size, rankOf adjacency u = k := by
  induction hr : rankOf adjacency v generalizing v with
  | zero => exact ⟨v, hv, by omega⟩
  | succ r ih =>
    rcases Nat.le_succ_iff.1 (hr ▸ hk) with hk | rfl
    · obtain ⟨u, hu, he⟩ := exists_joins_of_rankOf_ne_zero hv (by omega)
      exact ih hu.1.lt_size (by omega) (by omega)
    · exact ⟨v, hv, hr⟩

/-- The rank of the deepest row. -/
def deepest (adjacency : Array (List Nat)) : Nat := (inferRanks adjacency).foldl max 0

theorem rankOf_le_deepest (hv : v < adjacency.size) : rankOf adjacency v ≤ deepest adjacency := by
  have hv : v < (inferRanks adjacency).size := by rwa [size_inferRanks]
  have hmem := Layered.rank_mem_range hv
  rw [List.mem_reverse, List.mem_range] at hmem
  exact Nat.le_of_lt_succ hmem

theorem exists_deepest (hn : 0 < adjacency.size) :
    ∃ v < adjacency.size, rankOf adjacency v = deepest adjacency := by
  have hmem : deepest adjacency ∈ 0 :: (inferRanks adjacency).toList := by
    rw [deepest, ← Array.foldl_toList]
    exact List.max?_mem rfl
  rcases List.mem_cons.1 hmem with h0 | hmem
  · exact ⟨0, hn, by have := rankOf_le_deepest hn; omega⟩
  · obtain ⟨v, hv, he⟩ := List.getElem_of_mem hmem
    rw [Array.length_toList, size_inferRanks] at hv
    exact ⟨v, hv, by simpa [rankOf, size_inferRanks, hv] using he⟩

theorem exists_rankOf_eq_iff (hn : 0 < adjacency.size) :
    (∃ v < adjacency.size, rankOf adjacency v = k) ↔ k ≤ deepest adjacency := by
  constructor
  · rintro ⟨v, hv, rfl⟩
    exact rankOf_le_deepest hv
  · intro hk
    obtain ⟨v, hv, he⟩ := exists_deepest hn
    exact exists_rankOf_eq hv (he ▸ hk)

/-- There are no more rows than nodes. -/
theorem deepest_lt (hn : 0 < adjacency.size) : deepest adjacency < adjacency.size := by
  have hsub : Finset.range (deepest adjacency + 1) ⊆
      (Finset.range adjacency.size).image (rankOf adjacency) := by
    intro k hk
    rw [Finset.mem_range, Nat.lt_succ_iff] at hk
    simpa using (exists_rankOf_eq_iff hn).2 hk
  have hcard := (Finset.card_le_card hsub).trans Finset.card_image_le
  rwa [Finset.card_range, Finset.card_range] at hcard

theorem mem_row_inferRanks : v ∈ Layered.row (inferRanks adjacency) k ↔
    v < adjacency.size ∧ rankOf adjacency v = k := by
  rw [Layered.mem_row, size_inferRanks, rankOf]

theorem row_ne_nil_iff : Layered.row (inferRanks adjacency) k ≠ [] ↔
    ∃ v < adjacency.size, rankOf adjacency v = k := by
  constructor
  · intro hrow
    obtain ⟨v, hv⟩ := List.exists_mem_of_ne_nil _ hrow
    exact ⟨v, mem_row_inferRanks.1 hv⟩
  · rintro ⟨v, hv⟩
    exact List.ne_nil_of_mem (mem_row_inferRanks.2 hv)

/-- A ranking ends. It has placed all nodes then, each of them once and in its turn, and has given
them the ranks from 0 on without a gap, so that no row of a layout is empty. -/
theorem placed_in_turn (adjacency : Array (List Nat)) :
    (∃ last,
      ReflTransGen (fun s t => Ranking.step? adjacency s = some t) (.initial adjacency) last ∧
      Ranking.step? adjacency last = none ∧ last.ranks = inferRanks adjacency) ∧
    (∃ order : List Nat, order.Perm (List.range adjacency.size) ∧
      ∀ before v after, order = before ++ v :: after →
        InTurn adjacency (rankOf adjacency) before v after) ∧
    (0 < adjacency.size → deepest adjacency < adjacency.size ∧ ∀ k,
      ((∃ v < adjacency.size, rankOf adjacency v = k) ↔ k ≤ deepest adjacency) ∧
      (Layered.row (inferRanks adjacency) k ≠ [] ↔ k ≤ deepest adjacency)) := by
  obtain ⟨hreaches, hended⟩ := Ranking.reaches_run adjacency (.initial adjacency)
  refine ⟨⟨_, hreaches, hended, rfl⟩, exists_turns adjacency, fun hn => ?_⟩
  refine ⟨deepest_lt hn, fun k => ?_⟩
  exact ⟨exists_rankOf_eq_iff hn, row_ne_nil_iff.trans (exists_rankOf_eq_iff hn)⟩

/-- Edges 1 ⇄ 2, from 2 to 0 and twice to 3, and from 3 to itself. -/
def knot : Array (List Nat) := #[[], [2], [0, 1, 3, 3], [3]]

/-- The node 0 has its turn though 2, which leads to it, does not come before it. -/
theorem placed_in_turn_knot : 0 < knot.size ∧
    (∃ order : List Nat, order.Perm [0, 1, 2, 3] ∧ ∀ before v after,
      order = before ++ v :: after → InTurn knot (rankOf knot) before v after) ∧
    ∃ m < 4, ∀ k, (∃ v < 4, rankOf knot v = k) ↔ k ≤ m := by
  have hsize : 0 < knot.size := by decide
  obtain ⟨-, horder, hrows⟩ := placed_in_turn knot
  obtain ⟨hlt, hrows⟩ := hrows hsize
  exact ⟨hsize, horder, deepest knot, hlt, fun k => (hrows k).1⟩

/-! ### Edges -/

section Edges

variable (h : ∀ u v, Joins a u v ↔ Joins b u v)
include h

theorem above_congr (v : Nat) : Above a v = Above b v := by
  funext u w
  have hsplit (c : Array (List Nat)) : Above c v u w ↔ Joins c u w ∧ v ≤ u ∧ v ≤ w := and_assoc.symm
  rw [eq_iff_iff, hsplit, hsplit, h]

theorem kept_congr : Kept a u v ↔ Kept b u v := by
  have hsplit (c : Array (List Nat)) : Kept c u v ↔ Joins c u v ∧ ¬ Held c v u := and_assoc.symm
  rw [hsplit, hsplit, h, Held, Held, above_congr h]

theorem KeptWalk.of_joins (hwalk : KeptWalk a k v) : KeptWalk b k v := by
  induction hwalk with
  | nil v => exact .nil v
  | snoc _ hkept ih => exact .snoc ih ((kept_congr h).1 hkept)

end Edges

/-- The ranks depend on which nodes have edges to which other ones, and neither on the order of
edges, nor on how often they are listed, nor on edges from nodes to themselves. -/
theorem inferRanks_of_joins (hsize : a.size = b.size) (h : ∀ u v, Joins a u v ↔ Joins b u v) :
    inferRanks a = inferRanks b := by
  have hrank (v : Nat) (hv : v < a.size) : rankOf a v = rankOf b v := by
    refine eq_of_forall_le_iff fun k => ?_
    rw [← keptWalk_iff_le_rankOf hv, ← keptWalk_iff_le_rankOf (hsize ▸ hv)]
    exact ⟨.of_joins h, .of_joins fun u v => (h u v).symm⟩
  apply Array.ext
  · rw [size_inferRanks, size_inferRanks, hsize]
  · intro v hv hv'
    have hr := hrank v (by rwa [size_inferRanks] at hv)
    simpa [rankOf, hv, hv'] using hr

/-- The same edges in another order, with other edges listed twice, and with another node that has
an edge to itself. -/
def relistedKnot : Array (List Nat) := #[[0], [2, 2], [3, 1, 0], []]

theorem inferRanks_of_joins_knot : (∀ u v, Joins knot u v ↔ Joins relistedKnot u v) ∧
    inferRanks knot = inferRanks relistedKnot := by
  have h (u v : Nat) : Joins knot u v ↔ Joins relistedKnot u v := by
    match u with
    | 1 | u + 4 => simp [Joins, Arc, knot, relistedKnot]
    | 0 | 2 | 3 =>
      simp [Joins, Arc, knot, relistedKnot]
      omega
  exact ⟨h, inferRanks_of_joins rfl h⟩

end ModuleAtlas
