import Mathlib
import ModuleAtlas.Proofs.Layout.Turns

/-!
# Rows as far to the left as they can be

Taken in the order of their wishes, the nodes of a row are `Stacked`: each is where it wants to be, or
the pitch behind the one before it if that is further to the right. So they respect the wishes and the
pitch (`Stacked.respects`), and no places that do so are further to the left for any node
(`Stacked.least`); both are by induction on the row.

* A row is sorted stably, so of two equal wishes the one of the lower node comes first
  (`pairwise_mergeSort_stable`).
* Rows are placed from the lowest one up. When a node is asked for its wish, those below that it points
  to are where they will be in the end (`exists_columns_eq`), so that all wishes can be read off the
  finished layout (`wish`).
-/

namespace ModuleAtlas.Layered

/-- The nodes are, in this order, where they want to be or further to the right, and each is at least
the pitch behind the one before it. -/
structure Respects (pitch : ℝ) (want place : Nat → ℝ) (order : List Nat) : Prop where
  want_le : ∀ v ∈ order, want v ≤ place v
  apart : order.IsChain fun u v => place u + pitch ≤ place v

/-- The places respect wishes and pitch, and others that do so are not to the left of them. -/
structure IsLeastPlacement (pitch : ℝ) (want place : Nat → ℝ) (order : List Nat) : Prop where
  respects : Respects pitch want place order
  least : ∀ other, Respects pitch want other order → ∀ v ∈ order, place v ≤ other v

/-- Each node is put where the one before it, the first one where `previous` lets it go. -/
inductive Stacked (pitch : ℝ) (want place : Nat → ℝ) : Option ℝ → List Nat → Prop
  | nil (previous : Option ℝ) : Stacked pitch want place previous []
  | cons {previous : Option ℝ} {v : Nat} {vs : List Nat}
      (hv : place v = nextPlace pitch previous (want v))
      (hvs : Stacked pitch want place (some (place v)) vs) :
      Stacked pitch want place previous (v :: vs)

variable {pitch x y : ℝ} {previous : Option ℝ} {want want' place place' : Nat → ℝ}
  {order before after : List Nat} {v : Nat}

/-! ### One row -/

theorem le_nextPlace (pitch : ℝ) (previous : Option ℝ) (x : ℝ) : x ≤ nextPlace pitch previous x := by
  cases previous with
  | none => exact le_refl x
  | some p => exact le_max_left x (p + pitch)

theorem add_le_nextPlace {p : ℝ} (hp : p ∈ previous) : p + pitch ≤ nextPlace pitch previous x := by
  obtain rfl := Option.mem_def.1 hp
  exact le_max_right x (p + pitch)

theorem nextPlace_le (hx : x ≤ y) (hprevious : ∀ p ∈ previous, p + pitch ≤ y) :
    nextPlace pitch previous x ≤ y := by
  cases previous with
  | none => exact hx
  | some p => exact max_le hx (hprevious p rfl)

theorem nextPlace_cases (pitch : ℝ) (previous : Option ℝ) (x : ℝ) :
    nextPlace pitch previous x = x ∨ ∃ p ∈ previous, nextPlace pitch previous x = p + pitch := by
  cases previous with
  | none => exact .inl rfl
  | some p =>
    rcases max_choice x (p + pitch) with h | h
    · exact .inl h
    · exact .inr ⟨p, rfl, h⟩

namespace Stacked

theorem congr (h : Stacked pitch want place previous order) (hwant : ∀ v ∈ order, want v = want' v)
    (hplace : ∀ v ∈ order, place v = place' v) : Stacked pitch want' place' previous order := by
  induction h with
  | nil previous => exact .nil previous
  | cons hv hvs ih =>
    rw [List.forall_mem_cons] at hwant hplace
    refine .cons ?_ ?_
    · rw [← hplace.1, ← hwant.1, hv]
    · rw [← hplace.1]
      exact ih hwant.2 hplace.2

theorem want_le (h : Stacked pitch want place previous order) : ∀ v ∈ order, want v ≤ place v := by
  induction h with
  | nil => simp
  | cons hv hvs ih => exact List.forall_mem_cons.2 ⟨hv ▸ le_nextPlace _ _ _, ih⟩

theorem head_le (h : Stacked pitch want place previous order) {p : ℝ} (hp : p ∈ previous) :
    ∀ v ∈ order.head?, p + pitch ≤ place v := by
  cases h with
  | nil => simp
  | cons hv hvs =>
    simp only [List.head?_cons, Option.mem_some_iff, forall_eq']
    exact hv ▸ add_le_nextPlace hp

theorem respects (h : Stacked pitch want place previous order) :
    Respects pitch want place order where
  want_le := h.want_le
  apart := by
    induction h with
    | nil => exact .nil
    | cons hv hvs ih => exact List.isChain_cons.2 ⟨hvs.head_le rfl, ih⟩

/-- Places that respect wishes and pitch cannot be further to the left. -/
theorem least (h : Stacked pitch want place previous order) {other : Nat → ℝ}
    (hother : Respects pitch want other order)
    (hprevious : ∀ p ∈ previous, ∀ v ∈ order.head?, p + pitch ≤ other v) :
    ∀ v ∈ order, place v ≤ other v := by
  induction h with
  | nil => simp
  | @cons previous v vs hv hvs ih =>
    obtain ⟨hwant, hwants⟩ := List.forall_mem_cons.1 hother.want_le
    obtain ⟨hnext, hchain⟩ := List.isChain_cons.1 hother.apart
    have hle : place v ≤ other v := by
      rw [hv]
      exact nextPlace_le hwant fun p hp => hprevious p hp v rfl
    refine List.forall_mem_cons.2 ⟨hle, ih ⟨hwants, hchain⟩ ?_⟩
    intro p hp u hu
    obtain rfl := Option.some.inj hp
    have hu := hnext u hu
    linarith

theorem isLeastPlacement (h : Stacked pitch want place none order) :
    IsLeastPlacement pitch want place order where
  respects := h.respects
  least _ hother := h.least hother (by simp)

theorem eq_nextPlace (h : Stacked pitch want place previous (before ++ v :: after)) :
    place v = nextPlace pitch ((before.getLast?.map place).or previous) (want v) := by
  induction before generalizing previous with
  | nil =>
    cases h with
    | cons hv hvs => exact hv
  | cons b bs ih =>
    cases h with
    | cons hb hbs =>
      rw [ih hbs, List.getLast?_cons]
      cases bs.getLast? <;> rfl

end Stacked

section PlaceWishes

variable {ws : List (ℝ × Nat)} {xs : Array ℝ}

/-- By induction on the wishes, each of which is met or exceeded before the next one is looked at. -/
theorem stacked_placeWishes (hwant : ∀ w ∈ ws, w.1 = want w.2) (hnodup : (ws.map Prod.snd).Nodup)
    (hlt : ∀ v ∈ ws.map Prod.snd, v < xs.size) :
    Stacked pitch want (fun v => (placeWishes pitch previous ws xs).getD v 0) previous
      (ws.map Prod.snd) := by
  induction ws generalizing previous xs with
  | nil => exact .nil previous
  | cons w ws ih =>
    rw [List.map_cons] at hnodup hlt ⊢
    obtain ⟨hw, hnodup⟩ := List.nodup_cons.1 hnodup
    obtain ⟨hwlt, hlt⟩ := List.forall_mem_cons.1 hlt
    obtain ⟨hwwant, hwant⟩ := List.forall_mem_cons.1 hwant
    have hplace : (placeWishes pitch previous (w :: ws) xs).getD w.2 0 =
        nextPlace pitch previous w.1 := by
      rw [Array.getD_eq_getD_getElem?, getElem?_placeWishes_head hw hwlt]
      rfl
    refine .cons ?_ ?_
    · rw [hplace, hwwant]
    · rw [hplace]
      exact ih hwant hnodup (by simpa using hlt)

end PlaceWishes

/-! ### The order of a row -/

/-- Sorting is stable: what the order does not tell apart stays as it was. -/
theorem pairwise_mergeSort_stable {α : Type} (le : α → α → Bool)
    (trans : ∀ a b c, le a b = true → le b c = true → le a c = true)
    (total : ∀ a b, (le a b || le b a) = true) {R : α → α → Prop} {l : List α} (h : l.Pairwise R) :
    (l.mergeSort le).Pairwise fun a b => le a b = true ∧ (le b a = true → R a b) := by
  -- the places of elements in `l` make them different, and say in which order they have been
  have hsorted := List.pairwise_mergeSort (List.zipIdxLE_trans trans) (List.zipIdxLE_total total)
    l.zipIdx
  have hplaces : (l.zipIdx.mergeSort (List.zipIdxLE le)).Pairwise fun a b => a.2 ≠ b.2 := by
    have hperm := (List.mergeSort_perm l.zipIdx (List.zipIdxLE le)).map Prod.snd
    rw [List.zipIdx_map_snd] at hperm
    exact List.pairwise_map.1 (hperm.nodup_iff.2 List.nodup_range')
  rw [← List.mergeSort_zipIdx, List.pairwise_map]
  refine (hsorted.and hplaces).imp_of_mem fun {a b} ha hb ⟨hab, hne⟩ => ?_
  obtain ⟨hi, ha⟩ := List.getElem?_eq_some_iff.1
    (List.mem_zipIdx_iff_getElem?.1 (List.mem_mergeSort.1 ha))
  obtain ⟨hj, hb⟩ := List.getElem?_eq_some_iff.1
    (List.mem_zipIdx_iff_getElem?.1 (List.mem_mergeSort.1 hb))
  rw [List.zipIdxLE] at hab
  split at hab
  · next hle =>
    refine ⟨hle, fun hge => ?_⟩
    rw [if_pos hge, decide_eq_true_iff] at hab
    have hR := List.pairwise_iff_getElem.1 h a.2 b.2 hi hj (by omega)
    rwa [ha, hb] at hR
  · contradiction

section Row

variable {adjacency : Array (List Nat)} {ranks : Array Nat} {xs : Array ℝ} {rank : Nat}

theorem pairwise_lt_row (ranks : Array Nat) (rank : Nat) : (row ranks rank).Pairwise (· < ·) :=
  List.pairwise_lt_range.filter _

theorem range_eq_append {n : Nat} (hv : v < n) :
    List.range n = List.range v ++ v :: List.range' (v + 1) (n - (v + 1)) := by
  have happend := @List.range'_append_1 0 v (n - (v + 1) + 1)
  rw [Nat.zero_add, List.range'_succ, ← List.range_eq_range', ← List.range_eq_range'] at happend
  rw [happend]
  congr 1
  omega

/-- The slot of a node in a row is the number of nodes of the row that are lower. -/
theorem eq_countP_of_getElem? {slot : Nat} (h : (row ranks rank)[slot]? = some v) :
    slot = (List.range v).countP fun u => ranks.getD u 0 = rank := by
  obtain ⟨hslot, hv⟩ := List.getElem?_eq_some_iff.1 h
  have hmem : v ∈ row ranks rank := hv ▸ List.getElem_mem hslot
  obtain ⟨hlt, hrank⟩ := mem_row.1 hmem
  have hsplit : row ranks rank = ((List.range v).filter fun u => ranks.getD u 0 = rank) ++
      v :: ((List.range' (v + 1) (ranks.size - (v + 1))).filter fun u => ranks.getD u 0 = rank) := by
    rw [row, range_eq_append hlt, List.filter_append,
      List.filter_cons_of_pos (by simpa using hrank)]
  have hidx : (row ranks rank).idxOf v = slot := by
    rw [← hv]
    exact (nodup_row ranks rank).idxOf_getElem slot hslot
  have hnot : v ∉ (List.range v).filter fun u => ranks.getD u 0 = rank := by simp
  rw [← hidx, hsplit, List.idxOf_append_of_notMem hnot, List.idxOf_cons_self, Nat.add_zero,
    List.countP_eq_length_filter]

theorem wishes_eq (nodes : List Nat) : wishes adjacency ranks pitch xs nodes =
    (nodes.zipIdx.map fun c => (wanted adjacency ranks pitch xs c.2 c.1, c.1)).mergeSort
      fun a b => Scalar.sortsBefore a.1 b.1 := rfl

/-- The nodes of a row in the order of their wishes, of equal ones the lower node first. -/
theorem pairwise_wishes (hwant : ∀ w ∈ wishes adjacency ranks pitch xs (row ranks rank),
      w.1 = want w.2) :
    ((wishes adjacency ranks pitch xs (row ranks rank)).map Prod.snd).Pairwise fun u v =>
      want u < want v ∨ want u = want v ∧ u < v := by
  have hunsorted : ((row ranks rank).zipIdx.map fun c =>
      (wanted adjacency ranks pitch xs c.2 c.1, c.1)).Pairwise fun a b => a.2 < b.2 := by
    have hnodes : (row ranks rank).zipIdx.Pairwise fun a b => a.1 < b.1 := by
      rw [← List.pairwise_map, List.zipIdx_map_fst]
      exact pairwise_lt_row ranks rank
    exact List.pairwise_map.2 hnodes
  have hsorted := pairwise_mergeSort_stable (fun a b => Scalar.sortsBefore a.1 b.1)
    (fun a b c hab hbc => decide_eq_true (le_trans (of_decide_eq_true hab) (of_decide_eq_true hbc)))
    (fun a b => by simpa [Scalar.sortsBefore] using le_total a.1 b.1) hunsorted
  rw [← wishes_eq] at hsorted
  refine List.pairwise_map.2 (hsorted.imp_of_mem fun {a b} ha hb ⟨hle, hlt⟩ => ?_)
  have hle : a.1 ≤ b.1 := of_decide_eq_true hle
  rw [← hwant a ha, ← hwant b hb]
  rcases hle.lt_or_eq with h | h
  · exact .inl h
  · exact .inr ⟨h, hlt (decide_eq_true h.ge)⟩

theorem sum_eq_sum (l : List ℝ) : Scalar.sum l = l.sum := by
  cases l with
  | nil => exact Nat.cast_zero
  | cons x rest => rw [Scalar.sum, List.sum_eq_foldl, List.foldl_cons, zero_add]

/-- A wish depends on nothing but the places of the nodes below. -/
theorem wanted_congr {ys : Array ℝ} {slot : Nat}
    (h : ∀ w, ranks.getD v 0 < ranks.getD w 0 → xs.getD w 0 = ys.getD w 0) :
    wanted adjacency ranks pitch xs slot v = wanted adjacency ranks pitch ys slot v := by
  have hzero : (Scalar.ofNat 0 : ℝ) = 0 := Nat.cast_zero
  have hmap : (((adjacency.getD v []).filter fun w => ranks.getD v 0 < ranks.getD w 0).map
        fun w => xs.getD w 0) =
      ((adjacency.getD v []).filter fun w => ranks.getD v 0 < ranks.getD w 0).map
        fun w => ys.getD w 0 :=
    List.map_congr_left fun w hw => h w (by simpa using List.of_mem_filter hw)
  simp only [wanted, hzero, hmap]

/-! ### All rows -/

/-- When the row of a rank is placed, the rows below it are as they will be in the end; and what is
done for the row stays. -/
theorem exists_columns_eq (adjacency : Array (List Nat)) (pitch : ℝ)
    (hrank : rank ≤ ranks.foldl max 0) : ∃ xs : Array ℝ,
    xs.size = ranks.size ∧
    (∀ v, ranks.getD v 0 = rank → (columns adjacency ranks pitch).getD v 0 =
      (placeRow adjacency ranks pitch xs rank).getD v 0) ∧
    ∀ w, rank < ranks.getD w 0 → xs.getD w 0 = (columns adjacency ranks pitch).getD w 0 := by
  have hmem : rank ∈ (List.range (ranks.foldl max 0 + 1)).reverse := by
    simpa [Nat.lt_succ_iff] using hrank
  have hsorted : (List.range (ranks.foldl max 0 + 1)).reverse.Pairwise fun a b => b < a :=
    List.pairwise_reverse.2 List.pairwise_lt_range
  obtain ⟨below, above, hsplit⟩ := List.append_of_mem hmem
  rw [hsplit] at hsorted
  have habove : ∀ r ∈ above, r < rank :=
    (List.pairwise_cons.1 (List.pairwise_append.1 hsorted).2.1).1
  refine ⟨below.foldl (placeRow adjacency ranks pitch) (.replicate ranks.size (Scalar.ofNat 0)),
    ?_, fun v hv => ?_, fun w hw => ?_⟩
  · rw [size_foldl_placeRow, Array.size_replicate]
  · rw [columns, hsplit, List.foldl_append, List.foldl_cons, Array.getD_eq_getD_getElem?,
      getElem?_foldl_placeRow, ← Array.getD_eq_getD_getElem?]
    rw [hv]
    exact fun h => lt_irrefl rank (habove rank h)
  · have hnot : ranks.getD w 0 ∉ rank :: above := by
      intro h
      rcases List.mem_cons.1 h with h | h
      · omega
      · have := habove _ h
        omega
    rw [columns, hsplit, List.foldl_append, Array.getD_eq_getD_getElem?,
      Array.getD_eq_getD_getElem?, getElem?_foldl_placeRow hnot]

end Row

/-! ### The finished layout -/

/-- How far to the right a node stands. -/
noncomputable def xOf (g : Graph ℝ) (v : Nat) : ℝ := (g.nodes[v]?.map (·.position.x)).getD 0

/-- The successors of a node that have a greater rank. -/
def lower (g : Graph ℝ) (v : Nat) : List Nat :=
  (g.successors.getD v []).filter fun w => rankOf g.successors v < rankOf g.successors w

/-- How many nodes of its rank come before a node in the order of the graph. -/
def slotOf (g : Graph ℝ) (v : Nat) : Nat :=
  (List.range v).countP fun u => rankOf g.successors u = rankOf g.successors v

/-- Where a node wants to be: at the mean of its lower successors, or in its slot if it has none. -/
noncomputable def wish (g : Graph ℝ) (settings : LayoutSettings ℝ) (v : Nat) : ℝ :=
  if lower g v = [] then slotOf g v * Layered.pitch settings
  else ((lower g v).map (xOf (layout g settings))).sum / (lower g v).length

/-- The nodes of a rank in the order of their wishes, of equal ones the lower node first. -/
structure RowOrder (g : Graph ℝ) (settings : LayoutSettings ℝ) (rank : Nat) (order : List Nat) :
    Prop where
  mem_iff : ∀ v, v ∈ order ↔ v < g.nodes.length ∧ rankOf g.successors v = rank
  sorted : order.Pairwise fun u v =>
    wish g settings u < wish g settings v ∨ wish g settings u = wish g settings v ∧ u < v

section Layout

variable {g : Graph ℝ} {settings : LayoutSettings ℝ} {rank : Nat}

theorem xOf_layout (g : Graph ℝ) (settings : LayoutSettings ℝ) (v : Nat) :
    xOf (layout g settings) v =
      (columns g.successors (inferRanks g.successors) (Layered.pitch settings)).getD v 0 := by
  by_cases hv : v < g.nodes.length
  · have hplaced : (layout g settings).PlacedAt v (placeOf g settings v) := placedAt_layout hv
    obtain ⟨n, hn, hposition⟩ := hplaced
    rw [xOf, hn, Option.map_some, hposition]
    rfl
  · have hsize : (columns g.successors (inferRanks g.successors) (Layered.pitch settings)).size =
        g.nodes.length := by
      rw [columns, size_foldl_placeRow, Array.size_replicate, size_inferRanks,
        Graph.size_successors]
    simp [xOf, layout, Graph.placeAt, Graph.annotate, hv, hsize]

/-- What a node has wanted, with the nodes below where they are in the end. -/
theorem wanted_columns (hv : rankOf g.successors v = rank) :
    wanted g.successors (inferRanks g.successors) (Layered.pitch settings)
      (columns g.successors (inferRanks g.successors) (Layered.pitch settings))
      ((List.range v).countP fun u => rankOf g.successors u = rank) v = wish g settings v := by
  have hzero : (Scalar.ofNat 0 : ℝ) = 0 := Nat.cast_zero
  have hx : xOf (layout g settings) = fun v =>
      (columns g.successors (inferRanks g.successors) (Layered.pitch settings)).getD v 0 :=
    funext (xOf_layout g settings)
  rw [wish, wanted, hx, slotOf, hv, ← sum_eq_sum, hzero]
  simp only [List.isEmpty_iff, Scalar.ofNat_real]
  rfl

/-- With the rows below in place, the wishes are those that can be read off the finished layout. -/
theorem wish_of_mem_wishes {xs : Array ℝ}
    (hbelow : ∀ w, rank < (inferRanks g.successors).getD w 0 → xs.getD w 0 =
      (columns g.successors (inferRanks g.successors) (Layered.pitch settings)).getD w 0) :
    ∀ w ∈ wishes g.successors (inferRanks g.successors) (Layered.pitch settings) xs
      (row (inferRanks g.successors) rank), w.1 = wish g settings w.2 := by
  intro w hw
  rw [wishes_eq, List.mem_mergeSort] at hw
  obtain ⟨⟨v, slot⟩, hslot, rfl⟩ := List.mem_map.1 hw
  have hslot : (row (inferRanks g.successors) rank)[slot]? = some v :=
    List.mem_zipIdx_iff_getElem?.1 hslot
  have hrank := (mem_row.1 (List.mem_of_getElem? hslot)).2
  show wanted _ _ _ xs slot v = wish g settings v
  rw [eq_countP_of_getElem? hslot]
  exact (wanted_congr (hrank ▸ hbelow)).trans (wanted_columns hrank)

/-- The nodes of a row are stacked in the order of their wishes. -/
theorem exists_stacked (g : Graph ℝ) (settings : LayoutSettings ℝ) (rank : Nat) : ∃ order,
    RowOrder g settings rank order ∧
    Stacked (Layered.pitch settings) (wish g settings) (xOf (layout g settings)) none order := by
  by_cases hdeep : rank ≤ deepest g.successors
  · obtain ⟨xs, hsize, hrow, hbelow⟩ := exists_columns_eq g.successors (Layered.pitch settings) hdeep
    have hperm := perm_wishes g.successors (inferRanks g.successors) (Layered.pitch settings) xs
      (row (inferRanks g.successors) rank)
    have hwant := wish_of_mem_wishes hbelow
    have hlt : ∀ v ∈ (wishes g.successors (inferRanks g.successors) (Layered.pitch settings) xs
        (row (inferRanks g.successors) rank)).map Prod.snd, v < xs.size :=
      fun v hv => hsize ▸ (mem_row.1 (hperm.mem_iff.1 hv)).1
    refine ⟨_, ⟨fun v => ?_, pairwise_wishes hwant⟩, ?_⟩
    · rw [hperm.mem_iff, mem_row_inferRanks, Graph.size_successors]
    refine (stacked_placeWishes hwant (hperm.nodup_iff.2 (nodup_row _ _)) hlt).congr
      (fun _ _ => rfl) fun v hv => ?_
    rw [xOf_layout, hrow v (mem_row.1 (hperm.mem_iff.1 hv)).2]
    rfl
  · refine ⟨[], ⟨fun v => iff_of_false List.not_mem_nil fun ⟨hv, hr⟩ => hdeep ?_, .nil⟩, .nil none⟩
    rw [← Graph.size_successors] at hv
    exact hr ▸ rankOf_le_deepest hv

end Layout

/-- In the order of their wishes, the nodes of a row are the pitch apart from one to the next, none of
them to the left of where it wants to be, and no places that fulfil this are to the left of theirs.
So each is exactly where it wants to be, or exactly the pitch to the right of its neighbour. -/
theorem rows_least (g : Graph ℝ) (settings : LayoutSettings ℝ) (rank : Nat) : ∃ order,
    RowOrder g settings rank order ∧
    IsLeastPlacement (settings.nodeWidth + settings.nodeSeparation) (wish g settings)
      (xOf (layout g settings)) order ∧
    ∀ before v after, order = before ++ v :: after →
      xOf (layout g settings) v = wish g settings v ∨
      ∃ u, before.getLast? = some u ∧ xOf (layout g settings) v =
        xOf (layout g settings) u + (settings.nodeWidth + settings.nodeSeparation) := by
  obtain ⟨order, horder, hstacked⟩ := exists_stacked g settings rank
  refine ⟨order, horder, hstacked.isLeastPlacement, ?_⟩
  rintro before v after rfl
  rw [hstacked.eq_nextPlace, Option.or_none]
  rcases nextPlace_cases (Layered.pitch settings) (before.getLast?.map (xOf (layout g settings)))
    (wish g settings v) with h | ⟨p, hp, h⟩
  · exact .inl h
  · obtain ⟨u, hu, rfl⟩ := Option.map_eq_some_iff.1 hp
    exact .inr ⟨u, hu, h⟩

end ModuleAtlas.Layered
