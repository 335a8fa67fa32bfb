import Mathlib.Tactic.ByContra
import Mathlib.Tactic.Tauto
import ModuleAtlas.Layout.Ranks
import ModuleAtlas.Proofs.Graph.Links

/-!
# What placing a node does

`place` takes account of the edges from a node one by one, and so do the proofs: what `release` does
for one edge, then what a list of edges does, by induction on the list, then `place` itself, one
statement for each field (`rank_place`, `due_place`, `mem_ready_place`, ...). After that nothing
needs to look into these functions.
-/

namespace ModuleAtlas.Ranking

variable {adjacency : Array (List Nat)} {n v w x : Nat} {s t : Ranking} {order : List Nat}

def rank (s : Ranking) (v : Nat) : Nat := s.ranks.getD v 0

/-- How many edges into a node are still to be taken account of. -/
def due (s : Ranking) (v : Nat) : Nat := s.indegree.getD v 0

/-- There is an entry for each of `n` nodes. -/
structure Sized (n : Nat) (s : Ranking) : Prop where
  ranks : s.ranks.size = n
  indegree : s.indegree.size = n
  placed : s.placed.size = n

theorem Sized.lt_of_unplaced (h : Sized n s) (hv : s.isPlaced v = false) : v < n := by
  by_contra hlt
  simp [isPlaced, h.placed, hlt] at hv

/-! ### What placing a node does -/

@[simp]
theorem isPlaced_release : (release v s w).isPlaced x = s.isPlaced x := by
  rw [isPlaced, placed_release, isPlaced]

theorem Sized.release (h : Sized n s) : Sized n (release v s w) := by
  unfold Ranking.release
  split
  · exact h
  · exact ⟨by simp [h.ranks], by simp [h.indegree], h.placed⟩

theorem release_of_unplaced (hw : w ≠ v) (hp : s.isPlaced w = false) : release v s w =
    { s with
      ranks := s.ranks.setIfInBounds w (max (s.rank w) (s.rank v + 1))
      indegree := s.indegree.setIfInBounds w (s.due w - 1)
      ready := if s.due w - 1 = 0 then s.ready ++ [w] else s.ready } := by
  simp [release, hw, hp, rank, due]

theorem release_of_not (h : ¬ (w ≠ v ∧ s.isPlaced w = false)) : release v s w = s := by
  rw [release, if_pos]
  simpa [or_iff_not_imp_left] using h

theorem rank_release (h : Sized n s) : (release v s w).rank x =
    if x = w ∧ x ≠ v ∧ s.isPlaced x = false then max (s.rank x) (s.rank v + 1) else s.rank x := by
  by_cases hw : w ≠ v ∧ s.isPlaced w = false
  · have hlt : w < s.ranks.size := h.ranks ▸ h.lt_of_unplaced hw.2
    rw [release_of_unplaced hw.1 hw.2]
    by_cases hx : x = w
    · subst hx
      simp [hw, rank, hlt]
    · simp [hx, Ne.symm hx, rank]
  · rw [release_of_not hw, if_neg]
    rintro ⟨rfl, hx⟩
    exact hw hx

theorem due_release (h : Sized n s) : (release v s w).due x =
    if x = w ∧ x ≠ v ∧ s.isPlaced x = false then s.due x - 1 else s.due x := by
  by_cases hw : w ≠ v ∧ s.isPlaced w = false
  · have hlt : w < s.indegree.size := h.indegree ▸ h.lt_of_unplaced hw.2
    rw [release_of_unplaced hw.1 hw.2]
    by_cases hx : x = w
    · subst hx
      simp [hw, due, hlt]
    · simp [hx, Ne.symm hx, due]
  · rw [release_of_not hw, if_neg]
    rintro ⟨rfl, hx⟩
    exact hw hx

theorem mem_ready_release : x ∈ (release v s w).ready ↔
    x ∈ s.ready ∨ (x = w ∧ x ≠ v ∧ s.isPlaced x = false ∧ s.due x ≤ 1) := by
  by_cases hw : w ≠ v ∧ s.isPlaced w = false
  · rw [release_of_unplaced hw.1 hw.2]
    by_cases hx : x = w
    · subst hx
      by_cases hd : s.due x - 1 = 0
      · simp [hw, hd, show s.due x ≤ 1 by omega]
      · simp [hd, show ¬ s.due x ≤ 1 by omega]
    · by_cases hd : s.due w - 1 = 0 <;> simp [hx, hd]
  · rw [release_of_not hw]
    refine ⟨.inl, ?_⟩
    rintro (hx | ⟨rfl, hx, hx', -⟩)
    · exact hx
    · exact absurd ⟨hx, hx'⟩ hw

section Releases

variable {ws : List Nat}

/-- What no edge changes stays as it is. -/
theorem releases_keep {β : Type} (f : Ranking → β) (hf : ∀ s w, f (release v s w) = f s) :
    f (ws.foldl (release v) s) = f s := by
  induction ws generalizing s with
  | nil => rfl
  | cons w ws ih => rw [List.foldl_cons, ih, hf]

theorem isPlaced_releases : (ws.foldl (release v) s).isPlaced x = s.isPlaced x :=
  releases_keep (·.isPlaced x) fun _ _ => isPlaced_release

theorem Sized.releases (h : Sized n s) : Sized n (ws.foldl (Ranking.release v) s) := by
  induction ws generalizing s with
  | nil => exact h
  | cons w ws ih => exact ih h.release

theorem rank_releases (h : Sized n s) : (ws.foldl (release v) s).rank x =
    if x ∈ ws ∧ x ≠ v ∧ s.isPlaced x = false then max (s.rank x) (s.rank v + 1) else s.rank x := by
  induction ws generalizing s with
  | nil => simp
  | cons w ws ih =>
    have hv : (release v s w).rank v = s.rank v := by simp [rank_release h]
    rw [List.foldl_cons, ih h.release, hv, rank_release h, isPlaced_release]
    by_cases hx : x ≠ v ∧ s.isPlaced x = false
    · by_cases hw : x = w
      · subst hw
        by_cases hws : x ∈ ws <;> simp [hx.1, hx.2, hws]
      · simp [hw]
    · rw [if_neg (fun h => hx h.2), if_neg (fun h => hx h.2), if_neg (fun h => hx h.2)]

theorem due_releases (h : Sized n s) : (ws.foldl (release v) s).due x =
    if x ≠ v ∧ s.isPlaced x = false then s.due x - ws.count x else s.due x := by
  induction ws generalizing s with
  | nil => simp
  | cons w ws ih =>
    rw [List.foldl_cons, ih h.release, due_release h, isPlaced_release]
    by_cases hx : x ≠ v ∧ s.isPlaced x = false
    · by_cases hw : x = w
      · subst hw
        rw [if_pos hx, if_pos hx, if_pos ⟨rfl, hx⟩, List.count_cons_self]
        omega
      · rw [if_pos hx, if_pos hx, if_neg (fun h => hw h.1), List.count_cons_of_ne (Ne.symm hw)]
    · rw [if_neg hx, if_neg hx, if_neg (fun h => hx h.2)]

theorem mem_ready_releases (h : Sized n s) : x ∈ (ws.foldl (release v) s).ready ↔
    x ∈ s.ready ∨ (x ∈ ws ∧ x ≠ v ∧ s.isPlaced x = false ∧ s.due x ≤ ws.count x) := by
  induction ws generalizing s with
  | nil => simp
  | cons w ws ih =>
    rw [List.foldl_cons, ih h.release, mem_ready_release, isPlaced_release, due_release h]
    by_cases hx : x ≠ v ∧ s.isPlaced x = false
    · by_cases hw : x = w
      · subst hw
        have hcount : x ∈ ws ↔ 0 < ws.count x := List.count_pos_iff.symm
        rw [if_pos ⟨rfl, hx⟩, List.count_cons_self]
        by_cases hr : x ∈ s.ready
        · simp [hr]
        · simp only [hr, hx, hcount, List.mem_cons, true_or, true_and, false_or, ne_eq,
            not_false_eq_true]
          omega
      · rw [if_neg (fun h => hw h.1), List.count_cons_of_ne (Ne.symm hw)]
        simp [hw]
    · have hnot (P Q : Prop) : ¬ (P ∧ x ≠ v ∧ s.isPlaced x = false ∧ Q) :=
        fun h => hx ⟨h.2.1, h.2.2.1⟩
      simp only [hnot, or_false]

end Releases

section Place

/-- The state with a node taken as placed, its edges not yet taken account of. -/
def take (v : Nat) (s : Ranking) : Ranking :=
  { s with placed := s.placed.setIfInBounds v true, remaining := s.remaining - 1 }

theorem place_eq : place adjacency v s = (adjacency.getD v []).foldl (release v) (take v s) := rfl

theorem Sized.take (h : Sized n s) : Sized n (take v s) :=
  ⟨h.ranks, h.indegree, by simp [Ranking.take, h.placed]⟩

theorem Sized.place (h : Sized n s) : Sized n (place adjacency v s) := h.take.releases

variable (h : Sized n s) (hv : s.isPlaced v = false)
include h hv

theorem unplaced_take : (take v s).isPlaced x = false ↔ x ≠ v ∧ s.isPlaced x = false := by
  have hlt : v < s.placed.size := h.placed ▸ h.lt_of_unplaced hv
  simp only [take, isPlaced, Array.getD_eq_getD_getElem?, Array.getElem?_setIfInBounds]
  by_cases hx : v = x
  · subst hx
    simp [hlt]
  · simp [hx, Ne.symm hx]

theorem unplaced_place :
    (place adjacency v s).isPlaced x = false ↔ x ≠ v ∧ s.isPlaced x = false := by
  rw [place_eq, isPlaced_releases, unplaced_take h hv]

theorem isPlaced_place :
    (place adjacency v s).isPlaced x = true ↔ x = v ∨ s.isPlaced x = true := by
  rw [← Bool.not_eq_false, unplaced_place h hv, not_and_or, not_not, Bool.not_eq_false]

theorem rank_place : (place adjacency v s).rank x =
    if Arc adjacency v x ∧ x ≠ v ∧ s.isPlaced x = false then max (s.rank x) (s.rank v + 1)
    else s.rank x := by
  rw [place_eq, rank_releases h.take]
  simp only [unplaced_take h hv, and_self_left]
  rfl

theorem due_place : (place adjacency v s).due x =
    if x ≠ v ∧ s.isPlaced x = false then s.due x - (adjacency.getD v []).count x else s.due x := by
  rw [place_eq, due_releases h.take]
  simp only [unplaced_take h hv, and_self_left]
  rfl

theorem mem_ready_place : x ∈ (place adjacency v s).ready ↔
    x ∈ s.ready ∨ (Arc adjacency v x ∧ x ≠ v ∧ s.isPlaced x = false ∧
      s.due x ≤ (adjacency.getD v []).count x) := by
  rw [place_eq, mem_ready_releases h.take]
  simp only [unplaced_take h hv, and_assoc, and_self_left]
  rfl

end Place

theorem remaining_place : (place adjacency v s).remaining = s.remaining - 1 :=
  releases_keep (·.remaining) fun s w => by unfold release; split <;> rfl

theorem cursor_place : (place adjacency v s).cursor = s.cursor :=
  releases_keep (·.cursor) fun s w => by unfold release; split <;> rfl

end ModuleAtlas.Ranking
