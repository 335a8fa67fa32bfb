import Mathlib
import ModuleAtlas.Proofs.Layout.FixedPlaces
import ModuleAtlas.Proofs.Layout.Rows

/-!
# Nodes in rows do not overlap

Two nodes of a layered graph are in different rows, or far enough apart in one row
(`rows_apart`). In a row each node comes at least the pitch behind the one placed before it
(`pairwise_placeWishes`, by induction on the wishes), and a node stays where its row has put it, as the
other rows place other nodes (`rowApart_foldl`, by induction on the rows).
-/

namespace ModuleAtlas.Layered

/-! ### What a row places -/

section Kept

variable {α : Type} [Scalar α] {adjacency : Array (List Nat)} {ranks : Array Nat} {pitch : α}
  {previous : Option α} {ws : List (α × Nat)} {xs : Array α} {rank v : Nat} {rs : List Nat}

/-- Where a node goes that wants to be at `x`, behind the one that was placed last. -/
def nextPlace (pitch : α) (previous : Option α) (x : α) : α :=
  match previous with
  | none => Scalar.rowStart pitch x
  | some p => Scalar.max x (p + pitch)

theorem placeWishes_cons (pitch : α) (previous : Option α) (w : α × Nat) (ws : List (α × Nat))
    (xs : Array α) : placeWishes pitch previous (w :: ws) xs =
      placeWishes pitch (some (nextPlace pitch previous w.1)) ws
        (xs.setIfInBounds w.2 (nextPlace pitch previous w.1)) := rfl

theorem size_placeWishes : (placeWishes pitch previous ws xs).size = xs.size := by
  induction ws generalizing previous xs with
  | nil => rfl
  | cons w ws ih => rw [placeWishes_cons, ih, Array.size_setIfInBounds]

theorem getElem?_placeWishes_of_not_mem (h : v ∉ ws.map Prod.snd) :
    (placeWishes pitch previous ws xs)[v]? = xs[v]? := by
  induction ws generalizing previous xs with
  | nil => rfl
  | cons w ws ih =>
    rw [List.map_cons, List.mem_cons, not_or] at h
    rw [placeWishes_cons, ih h.2, Array.getElem?_setIfInBounds_ne (Ne.symm h.1)]

theorem mem_row : v ∈ row ranks rank ↔ v < ranks.size ∧ ranks.getD v 0 = rank := by
  simp [row]

theorem nodup_row (ranks : Array Nat) (rank : Nat) : (row ranks rank).Nodup :=
  List.nodup_range.filter _

/-- The nodes of a row are placed in some order. -/
theorem perm_wishes (adjacency : Array (List Nat)) (ranks : Array Nat) (pitch : α) (xs : Array α)
    (nodes : List Nat) : ((wishes adjacency ranks pitch xs nodes).map Prod.snd).Perm nodes := by
  refine ((List.mergeSort_perm _ _).map Prod.snd).trans ?_
  rw [List.map_map]
  show (nodes.zipIdx.map Prod.fst).Perm nodes
  rw [List.zipIdx_map_fst]

theorem size_placeRow : (placeRow adjacency ranks pitch xs rank).size = xs.size := size_placeWishes

theorem getElem?_placeRow_of_not_mem (h : v ∉ row ranks rank) :
    (placeRow adjacency ranks pitch xs rank)[v]? = xs[v]? :=
  getElem?_placeWishes_of_not_mem fun hv => h ((perm_wishes ..).mem_iff.1 hv)

theorem size_foldl_placeRow : (rs.foldl (placeRow adjacency ranks pitch) xs).size = xs.size := by
  induction rs generalizing xs with
  | nil => rfl
  | cons r rs ih => rw [List.foldl_cons, ih, size_placeRow]

/-- Other rows leave a node where it is. -/
theorem getElem?_foldl_placeRow (h : ranks.getD v 0 ∉ rs) :
    (rs.foldl (placeRow adjacency ranks pitch) xs)[v]? = xs[v]? := by
  induction rs generalizing xs with
  | nil => rfl
  | cons r rs ih =>
    rw [List.mem_cons, not_or] at h
    rw [List.foldl_cons, ih h.2, getElem?_placeRow_of_not_mem]
    exact fun hv => h.1 (mem_row.1 hv).2

end Kept

/-! ### Distances in a row -/

variable {adjacency : Array (List Nat)} {ranks : Array Nat} {pitch p : ℝ} {previous : Option ℝ}
  {w : ℝ × Nat} {ws : List (ℝ × Nat)} {xs : Array ℝ} {rank u v : Nat} {rs : List Nat}

/-- A node has the place that was found for it. -/
theorem getElem?_placeWishes_head (hw : w.2 ∉ ws.map Prod.snd) (hlt : w.2 < xs.size) :
    (placeWishes pitch previous (w :: ws) xs)[w.2]? = some (nextPlace pitch previous w.1) := by
  rw [placeWishes_cons, getElem?_placeWishes_of_not_mem hw,
    Array.getElem?_setIfInBounds_self_of_lt hlt]

section Wishes

variable (hpitch : 0 ≤ pitch)
include hpitch

/-- All come behind the node that was placed before them. -/
theorem add_le_placeWishes (hnodup : (ws.map Prod.snd).Nodup)
    (hlt : ∀ v ∈ ws.map Prod.snd, v < xs.size) (hv : v ∈ ws.map Prod.snd) :
    p + pitch ≤ (placeWishes pitch (some p) ws xs).getD v 0 := by
  induction ws generalizing p xs with
  | nil => simp at hv
  | cons w ws ih =>
    rw [List.map_cons] at hnodup hlt hv
    obtain ⟨hw, hnodup⟩ := List.nodup_cons.1 hnodup
    obtain ⟨hwlt, hlt⟩ := List.forall_mem_cons.1 hlt
    have hnext : p + pitch ≤ nextPlace pitch (some p) w.1 := le_max_right _ _
    rcases List.mem_cons.1 hv with rfl | hv
    · rwa [Array.getD_eq_getD_getElem?, getElem?_placeWishes_head hw hwlt]
    · rw [placeWishes_cons]
      refine le_trans ?_ (ih hnodup (by simpa using hlt) hv)
      linarith

/-- Each comes behind all that are placed before it. -/
theorem pairwise_placeWishes (hnodup : (ws.map Prod.snd).Nodup)
    (hlt : ∀ v ∈ ws.map Prod.snd, v < xs.size) : (ws.map Prod.snd).Pairwise fun u v =>
      (placeWishes pitch previous ws xs).getD u 0 + pitch ≤
        (placeWishes pitch previous ws xs).getD v 0 := by
  induction ws generalizing previous xs with
  | nil => exact .nil
  | cons w ws ih =>
    rw [List.map_cons] at hnodup hlt ⊢
    obtain ⟨hw, hnodup⟩ := List.nodup_cons.1 hnodup
    obtain ⟨hwlt, hlt⟩ := List.forall_mem_cons.1 hlt
    have hlt : ∀ v ∈ ws.map Prod.snd,
        v < (xs.setIfInBounds w.2 (nextPlace pitch previous w.1)).size := by simpa using hlt
    refine List.pairwise_cons.2 ⟨fun v hv => ?_, ih hnodup hlt⟩
    rw [Array.getD_eq_getD_getElem?, getElem?_placeWishes_head hw hwlt]
    exact add_le_placeWishes hpitch hnodup hlt hv

end Wishes

/-- Any two nodes of the row are that far apart. -/
def RowApart (pitch : ℝ) (ranks : Array Nat) (rank : Nat) (xs : Array ℝ) : Prop :=
  ∀ u ∈ row ranks rank, ∀ v ∈ row ranks rank, u ≠ v → pitch ≤ |xs.getD u 0 - xs.getD v 0|

theorem rowApart_placeRow (hpitch : 0 ≤ pitch) (hsize : xs.size = ranks.size) :
    RowApart pitch ranks rank (placeRow adjacency ranks pitch xs rank) := by
  have hperm := perm_wishes adjacency ranks pitch xs (row ranks rank)
  have hnodup := hperm.nodup_iff.2 (nodup_row ranks rank)
  have hlt : ∀ v ∈ (wishes adjacency ranks pitch xs (row ranks rank)).map Prod.snd, v < xs.size :=
    fun v hv => hsize ▸ (mem_row.1 (hperm.mem_iff.1 hv)).1
  have hpairwise : ((wishes adjacency ranks pitch xs (row ranks rank)).map Prod.snd).Pairwise
      fun u v => (placeRow adjacency ranks pitch xs rank).getD u 0 + pitch ≤
        (placeRow adjacency ranks pitch xs rank).getD v 0 := pairwise_placeWishes hpitch hnodup hlt
  have happart : ((wishes adjacency ranks pitch xs (row ranks rank)).map Prod.snd).Pairwise
      fun u v => pitch ≤ |(placeRow adjacency ranks pitch xs rank).getD u 0 -
        (placeRow adjacency ranks pitch xs rank).getD v 0| :=
    hpairwise.imp fun hle => le_abs.2 (.inr (by rw [neg_sub]; exact le_sub_iff_add_le'.2 hle))
  intro u hu v hv hne
  have hsymm : Std.Symm fun u v => pitch ≤ |(placeRow adjacency ranks pitch xs rank).getD u 0 -
      (placeRow adjacency ranks pitch xs rank).getD v 0| := ⟨fun u v h => by rwa [abs_sub_comm]⟩
  exact happart.forall (hperm.mem_iff.2 hu) (hperm.mem_iff.2 hv) hne

/-- With all rows placed, in whatever order, each is so. -/
theorem rowApart_foldl (hpitch : 0 ≤ pitch) (hsize : xs.size = ranks.size) (hnodup : rs.Nodup)
    (hrank : rank ∈ rs) :
    RowApart pitch ranks rank (rs.foldl (placeRow adjacency ranks pitch) xs) := by
  induction rs generalizing xs with
  | nil => simp at hrank
  | cons r rs ih =>
    obtain ⟨hr, hnodup⟩ := List.nodup_cons.1 hnodup
    rw [List.foldl_cons]
    rcases List.mem_cons.1 hrank with rfl | hrank
    · have hkept (v : Nat) (hv : v ∈ row ranks rank) (xs : Array ℝ) :
          (rs.foldl (placeRow adjacency ranks pitch) xs).getD v 0 = xs.getD v 0 := by
        rw [Array.getD_eq_getD_getElem?, Array.getD_eq_getD_getElem?, getElem?_foldl_placeRow]
        rwa [(mem_row.1 hv).2]
      intro u hu v hv hne
      rw [hkept u hu, hkept v hv]
      exact rowApart_placeRow hpitch hsize u hu v hv hne
    · exact ih (size_placeRow.trans hsize) hnodup hrank

theorem le_foldl_max {ns : List Nat} {m n : Nat} (h : n ≤ m ∨ n ∈ ns) : n ≤ ns.foldl max m := by
  induction ns generalizing m with
  | nil => simpa using h
  | cons k ns ih =>
    refine ih ?_
    rw [List.mem_cons] at h
    rcases h with h | rfl | h
    · exact .inl (le_max_of_le_left h)
    · exact .inl (le_max_right _ _)
    · exact .inr h

/-- The deepest row is behind no other one. -/
theorem rank_mem_range (hv : v < ranks.size) :
    ranks.getD v 0 ∈ (List.range (ranks.foldl max 0 + 1)).reverse := by
  rw [List.mem_reverse, List.mem_range, Nat.lt_succ_iff, ← Array.foldl_toList]
  refine le_foldl_max (.inr ?_)
  simp [hv]

theorem rowApart_columns (hpitch : 0 ≤ pitch) (hv : v < ranks.size) :
    RowApart pitch ranks (ranks.getD v 0) (columns adjacency ranks pitch) :=
  rowApart_foldl hpitch (Array.size_replicate ..) (List.nodup_reverse.2 List.nodup_range)
    (rank_mem_range hv)

/-! ### Nodes of a graph -/

variable {g : Graph ℝ} {settings : LayoutSettings ℝ}

/-- Where a node is placed. -/
noncomputable def placeOf (g : Graph ℝ) (settings : LayoutSettings ℝ) (v : Nat) : Position ℝ :=
  ⟨(columns g.successors (inferRanks g.successors) (Layered.pitch settings)).getD v 0,
    rankOf g.successors v * rowHeight settings⟩

theorem placedAt_layout (hv : v < g.nodes.length) :
    (layout g settings).PlacedAt v (placeOf g settings v) := by
  have hr : v < (inferRanks g.successors).size := by rwa [size_inferRanks, Graph.size_successors]
  refine ⟨{ g.nodes[v] with position := placeOf g settings v }, ?_, rfl⟩
  have hposition : (positions g.successors (inferRanks g.successors) settings).getD v .origin =
      placeOf g settings v := by
    simp [positions, hr, placeOf, rankOf, Scalar.ofNat_real]
  rw [layout, Graph.placeAt, Graph.annotate, List.getElem?_mapIdx, List.getElem?_eq_getElem hv,
    Option.map_some, hposition]

/-- Rows are at least their distance apart. -/
theorem rowHeight_le (hheight : 0 ≤ rowHeight settings)
    (hne : rankOf g.successors u ≠ rankOf g.successors v) :
    rowHeight settings ≤ |(placeOf g settings u).y - (placeOf g settings v).y| := by
  have hone : (1 : ℝ) ≤ |(rankOf g.successors u : ℝ) - rankOf g.successors v| := by
    exact_mod_cast Int.one_le_abs (sub_ne_zero.2 (Nat.cast_injective.ne hne))
  calc rowHeight settings
      = 1 * rowHeight settings := (one_mul _).symm
    _ ≤ |(rankOf g.successors u : ℝ) - rankOf g.successors v| * rowHeight settings := by gcongr
    _ = |(placeOf g settings u).y - (placeOf g settings v).y| := by
      rw [placeOf, placeOf, ← sub_mul, abs_mul, abs_of_nonneg hheight]

/-- Nodes of one row are at least the pitch apart. -/
theorem pitch_le (hpitch : 0 ≤ Layered.pitch settings) (hu : u < g.nodes.length)
    (hv : v < g.nodes.length) (hne : u ≠ v)
    (hrank : rankOf g.successors u = rankOf g.successors v) :
    Layered.pitch settings ≤ |(placeOf g settings u).x - (placeOf g settings v).x| := by
  rw [← Graph.size_successors, ← size_inferRanks] at hu hv
  exact rowApart_columns hpitch hv u (mem_row.2 ⟨hu, hrank⟩) v (mem_row.2 ⟨hv, rfl⟩) hne

/-- Any two nodes of a layered graph are in rows of different ranks, which are at least the height of a
node and the separation of ranks apart, or in one row, where they are at least the width of a node and
the separation of nodes apart. -/
theorem rows_apart (g : Graph ℝ) (settings : LayoutSettings ℝ) (hwidth : 0 ≤ settings.nodeWidth)
    (hheight : 0 ≤ settings.nodeHeight) (hnodes : 0 ≤ settings.nodeSeparation)
    (hranks : 0 ≤ settings.rankSeparation) {u v : Nat} (hu : u < g.nodes.length)
    (hv : v < g.nodes.length) (hne : u ≠ v) :
    ∃ p q, (layout g settings).PlacedAt u p ∧ (layout g settings).PlacedAt v q ∧
      (rankOf g.successors u ≠ rankOf g.successors v ∧
          settings.nodeHeight + settings.rankSeparation ≤ |p.y - q.y| ∨
        rankOf g.successors u = rankOf g.successors v ∧ p.y = q.y ∧
          settings.nodeWidth + settings.nodeSeparation ≤ |p.x - q.x|) := by
  refine ⟨_, _, placedAt_layout hu, placedAt_layout hv, ?_⟩
  by_cases hrank : rankOf g.successors u = rankOf g.successors v
  · refine .inr ⟨hrank, ?_, pitch_le (add_nonneg hwidth hnodes) hu hv hne hrank⟩
    rw [placeOf, placeOf, hrank]
  · exact .inl ⟨hrank, rowHeight_le (add_nonneg hheight hranks) hrank⟩

/-- The two nodes of the circuit b ⇄ c are in rows of different ranks. -/
theorem rows_apart_tangle : ∃ p q, (layout tangle .standard).PlacedAt 1 p ∧
    (layout tangle .standard).PlacedAt 2 q ∧ 124 ≤ |p.y - q.y| := by
  have hsize : tangle.successors.size = 4 := by
    rw [successors_tangle]
    rfl
  have hlength : tangle.nodes.length = 4 := by rw [← Graph.size_successors, hsize]
  have hkept : Kept tangle.successors 1 2 := by
    refine ⟨?_, by decide, fun h => absurd h.le (by decide)⟩
    rw [successors_tangle]
    decide
  have hrank := (rankOf_lt_of_kept (by omega) hkept).ne
  obtain ⟨p, q, hp, hq, ⟨-, hy⟩ | ⟨heq, -⟩⟩ := rows_apart tangle .standard
    (by norm_num [LayoutSettings.standard]) (by norm_num [LayoutSettings.standard])
    (by norm_num [LayoutSettings.standard]) (by norm_num [LayoutSettings.standard])
    (show 1 < tangle.nodes.length by omega) (show 2 < tangle.nodes.length by omega) (by decide)
  · refine ⟨p, q, hp, hq, le_trans ?_ hy⟩
    norm_num [LayoutSettings.standard]
  · exact absurd heq hrank

end ModuleAtlas.Layered
