import Mathlib.Algebra.BigOperators.Group.Finset.Piecewise
import Mathlib.Algebra.Order.BigOperators.Group.Finset
import Mathlib.Data.List.Infix
import Mathlib.Data.List.Perm.Subperm
import ModuleAtlas.Proofs.Layout.Placing

/-!
# The order in which nodes are placed

A ranking places the nodes one by one. `Schedule` says what is true of the order in which it does,
and of the ranks:

* a node has its turn when all other nodes that point to it have been placed (`Free`), or else as
  the lowest of the nodes not placed when none of these is free (`Stuck`);
* its rank is one more than the highest rank of the nodes that point to it and were placed before it
  (`Tops`), and 0 if there are none.

`Inv` ties the fields of a state to the nodes placed so far; it holds at the beginning
(`inv_initial`) and after every step (`Inv.step`), and at the end of the run it is the schedule of
all nodes (`exists_schedule`).
-/

namespace ModuleAtlas

variable {adjacency : Array (List Nat)} {order pre : List Nat} {u v w x : Nat} {s t : Ranking}

/-- All other nodes that point to `v` are among the given ones. -/
def Free (adjacency : Array (List Nat)) (pre : List Nat) (v : Nat) : Prop :=
  ∀ u, Arc adjacency u v → u ≠ v → u ∈ pre

/-- Beside the given nodes none is free, and none is lower than `v`. -/
def Stuck (adjacency : Array (List Nat)) (pre : List Nat) (v : Nat) : Prop :=
  ∀ x < adjacency.size, x ∉ pre → v ≤ x ∧ ¬ Free adjacency pre x

/-- The rank of `v` is one more than the highest one of the given nodes that point to it. -/
structure Tops (adjacency : Array (List Nat)) (rank : Nat → Nat) (pre : List Nat) (v : Nat) :
    Prop where
  lt : ∀ u ∈ pre, Arc adjacency u v → u ≠ v → rank u < rank v
  attained : rank v = 0 ∨ ∃ u ∈ pre, Arc adjacency u v ∧ u ≠ v ∧ rank v = rank u + 1

/-- Nodes in the order in which they are placed, the last one first, and the ranks they get. -/
structure Schedule (adjacency : Array (List Nat)) (rank : Nat → Nat) (order : List Nat) :
    Prop where
  nodup : order.Nodup
  lt_size : ∀ v ∈ order, v < adjacency.size
  turn : ∀ {v pre}, v :: pre <:+ order → Free adjacency pre v ∨ Stuck adjacency pre v
  tops : ∀ {v pre}, v :: pre <:+ order → Tops adjacency rank pre v

theorem Free.cons (h : Free adjacency pre v) : Free adjacency (w :: pre) v :=
  fun u hu hne => List.mem_cons_of_mem w (h u hu hne)

/-- The rank of a node depends on the ranks of nodes placed before it only. -/
theorem Tops.congr {r r' : Nat → Nat} (h : Tops adjacency r pre v)
    (hr : ∀ u ∈ v :: pre, r' u = r u) : Tops adjacency r' pre v := by
  have hv : r' v = r v := hr v List.mem_cons_self
  have hpre {u : Nat} (hu : u ∈ pre) : r' u = r u := hr u (List.mem_cons_of_mem v hu)
  constructor
  · intro u hu harc hne
    rw [hv, hpre hu]
    exact h.lt u hu harc hne
  · rw [hv]
    rcases h.attained with h0 | ⟨u, hu, harc, hne, he⟩
    · exact .inl h0
    · exact .inr ⟨u, hu, harc, hne, by rw [he, hpre hu]⟩

/-- When a node is placed, the nodes that it points to come to top it. -/
theorem Tops.cons {r r' : Nat → Nat} (h : Tops adjacency r pre x) (hne : v ≠ x)
    (hr : ∀ u ∈ v :: pre, r' u = r u)
    (hx : r' x = if Arc adjacency v x then max (r x) (r v + 1) else r x) :
    Tops adjacency r' (v :: pre) x := by
  constructor
  · intro u hu harc hux
    rw [hr u hu, hx]
    rcases List.mem_cons.1 hu with rfl | hu
    · rw [if_pos harc]
      omega
    · have := h.lt u hu harc hux
      split <;> omega
  · by_cases hmax : Arc adjacency v x ∧ r x ≤ r v + 1
    · refine .inr ⟨v, List.mem_cons_self, hmax.1, hne, ?_⟩
      rw [hx, if_pos hmax.1, hr v List.mem_cons_self]
      omega
    · have hold : r' x = r x := by
        rw [hx]
        split
        · next harc =>
          have := mt (And.intro harc) hmax
          omega
        · rfl
      rcases h.attained with h0 | ⟨u, hu, harc, hux, he⟩
      · exact .inl (hold.trans h0)
      · have hu' : u ∈ v :: pre := List.mem_cons_of_mem v hu
        exact .inr ⟨u, hu', harc, hux, by rw [hold, he, hr u hu']⟩

/-! ### Edges that wait -/

/-- How many edges lead to a node from others that are not among the given ones. -/
def waiting (adjacency : Array (List Nat)) (order : List Nat) (w : Nat) : Nat :=
  ∑ u ∈ Finset.range adjacency.size, if u = w ∨ u ∈ order then 0 else (adjacency.getD u []).count w

theorem waiting_eq_zero : waiting adjacency order w = 0 ↔ Free adjacency order w := by
  simp only [waiting, Finset.sum_eq_zero_iff, Finset.mem_range]
  constructor
  · intro h u harc hne
    by_contra hu
    have h0 := h u harc.lt_size
    rw [if_neg (by simp [hne, hu]), List.count_eq_zero] at h0
    exact h0 harc
  · intro h u _
    by_cases hu : u = w ∨ u ∈ order
    · exact if_pos hu
    · rw [if_neg hu, List.count_eq_zero]
      rw [not_or] at hu
      exact fun harc => hu.2 (h u harc hu.1)

theorem waiting_cons (hv : v < adjacency.size) (hnot : v ∉ order) (hne : v ≠ w) :
    waiting adjacency order w =
      waiting adjacency (v :: order) w + (adjacency.getD v []).count w := by
  have hsplit (u : Nat) : (if u = w ∨ u ∈ order then 0 else (adjacency.getD u []).count w) =
      (if u = w ∨ u ∈ v :: order then 0 else (adjacency.getD u []).count w) +
        if u = v then (adjacency.getD v []).count w else 0 := by
    by_cases huv : u = v
    · subst huv
      simp [hnot, hne]
    · simp [huv]
  rw [waiting, Finset.sum_congr rfl fun u _ => hsplit u, Finset.sum_add_distrib,
    Finset.sum_ite_eq' (Finset.range adjacency.size) v, if_pos (Finset.mem_range.2 hv), waiting]

namespace Ranking

theorem foldr_zipIdx (f : List Nat × Nat → Nat) (l : List (List Nat)) (k : Nat) :
    (l.zipIdx k).foldr (fun p n => f p + n) 0 =
      ∑ i ∈ Finset.range l.length, f (l.getD i [], k + i) := by
  induction l generalizing k with
  | nil => rfl
  | cons a l ih =>
    rw [List.zipIdx_cons, List.foldr_cons, ih, List.length_cons, Finset.sum_range_succ',
      Nat.add_comm]
    simp [Nat.add_assoc, Nat.add_comm 1]

theorem edgesInto_eq (adjacency : Array (List Nat)) (w : Nat) :
    edgesInto adjacency w = waiting adjacency [] w := by
  rw [edgesInto, foldr_zipIdx fun p => if p.2 = w then 0 else p.1.count w]
  simp [waiting, List.getD_eq_getElem?_getD, Array.getD_eq_getD_getElem?]

theorem skipPlaced_below {placed : Array Bool} {c : Nat}
    (h : ∀ u < c, placed.getD u true = true) :
    ∀ u < skipPlaced placed c, placed.getD u true = true := by
  fun_induction skipPlaced placed c with
  | case1 c hc hp ih =>
    refine ih fun u hu => ?_
    rcases Nat.lt_succ_iff_lt_or_eq.1 hu with hu | rfl
    · exact h u hu
    · simpa [hc] using hp
  | case2 c hc hp => exact h
  | case3 c hc => exact h

/-! ### The invariant -/

/-- The state of a ranking that has placed the given nodes. -/
structure Inv (adjacency : Array (List Nat)) (order : List Nat) (s : Ranking) : Prop where
  sized : Sized adjacency.size s
  schedule : Schedule adjacency s.rank order
  unplaced_iff : ∀ v, s.isPlaced v = false ↔ v < adjacency.size ∧ v ∉ order
  tops : ∀ v, s.isPlaced v = false → Tops adjacency s.rank order v
  due : ∀ v, s.isPlaced v = false → s.due v = waiting adjacency order v
  ready_of_free : ∀ v, s.isPlaced v = false → Free adjacency order v → v ∈ s.ready
  turn_of_ready : ∀ v ∈ s.ready, s.isPlaced v = false →
    Free adjacency order v ∨ Stuck adjacency order v
  remaining : s.remaining + order.length = adjacency.size
  cursor : ∀ u < s.cursor, s.isPlaced u = true

theorem inv_initial (adjacency : Array (List Nat)) : Inv adjacency [] (initial adjacency) := by
  have hun (v : Nat) : (initial adjacency).isPlaced v = false ↔ v < adjacency.size := by
    by_cases hv : v < adjacency.size <;> simp [initial, isPlaced, hv]
  have hrank (v : Nat) : (initial adjacency).rank v = 0 := by
    by_cases hv : v < adjacency.size <;> simp [initial, rank, hv]
  have hdue {v : Nat} (hv : v < adjacency.size) :
      (initial adjacency).due v = waiting adjacency [] v := by
    simp [initial, due, hv, edgesInto_eq]
  have hready (v : Nat) : v ∈ (initial adjacency).ready ↔
      v < adjacency.size ∧ Free adjacency [] v := by
    rw [← waiting_eq_zero]
    by_cases hv : v < adjacency.size
    · rw [← hdue hv]
      simp [initial, due, hv]
    · simp [initial, hv]
  refine ⟨⟨by simp [initial], by simp [initial], by simp [initial]⟩,
    ⟨List.nodup_nil, by simp, fun h => ?_, fun h => ?_⟩, fun v => by simp [hun],
    fun v _ => ⟨by simp, .inl (hrank v)⟩, fun v hv => hdue ((hun v).1 hv), fun v hv hfree => ?_,
    fun v hv _ => .inl ((hready v).1 hv).2, by simp [initial], by simp [initial]⟩
  · simp at h
  · simp at h
  · exact (hready v).2 ⟨(hun v).1 hv, hfree⟩

namespace Inv

theorem isPlaced_of_mem (h : Inv adjacency order s) (hv : v ∈ order) : s.isPlaced v = true := by
  rw [← Bool.not_eq_false, h.unplaced_iff]
  exact fun hn => hn.2 hv

theorem sized_rest (h : Inv adjacency order s) (rest : List Nat) :
    Sized adjacency.size { s with ready := rest } :=
  ⟨h.sized.ranks, h.sized.indegree, h.sized.placed⟩

/-- A ready node that has been placed is passed over. -/
theorem skip {rest : List Nat} (h : Inv adjacency order s) (hr : s.ready = v :: rest)
    (hv : s.isPlaced v = true) : Inv adjacency order { s with ready := rest } := by
  refine ⟨h.sized_rest rest, h.schedule, h.unplaced_iff, h.tops,
    h.due, fun x hx hfree => ?_, fun x hx => h.turn_of_ready x (hr ▸ List.mem_cons_of_mem v hx),
    h.remaining, h.cursor⟩
  have hmem : x ∈ v :: rest := hr ▸ h.ready_of_free x hx hfree
  rcases List.mem_cons.1 hmem with rfl | hmem
  · exact absurd (hv.symm.trans hx) (by decide)
  · exact hmem

/-- Nodes that are placed keep their ranks, and so does the one that is being placed. -/
theorem rank_place_of_mem {rest : List Nat} (h : Inv adjacency order s)
    (hv : s.isPlaced v = false) (hx : x ∈ v :: order) :
    (Ranking.place adjacency v { s with ready := rest }).rank x = s.rank x := by
  rw [rank_place (h.sized_rest rest) hv, if_neg]
  · rfl
  · rintro ⟨-, hne, hx'⟩
    have hx : x ∈ order := (List.mem_cons.1 hx).resolve_left hne
    exact absurd ((h.isPlaced_of_mem hx).symm.trans hx') (by decide)

theorem schedule_place {rest : List Nat} (h : Inv adjacency order s) (hr : s.ready = v :: rest)
    (hv : s.isPlaced v = false) :
    Schedule adjacency (Ranking.place adjacency v { s with ready := rest }).rank (v :: order) := by
  obtain ⟨hlt, hnot⟩ := (h.unplaced_iff v).1 hv
  refine ⟨List.nodup_cons.2 ⟨hnot, h.schedule.nodup⟩, List.forall_mem_cons.2
    ⟨hlt, h.schedule.lt_size⟩, fun {x pre} hx => ?_, fun {x pre} hx => ?_⟩
  · rcases List.suffix_cons_iff.1 hx with he | hx
    · obtain ⟨rfl, rfl⟩ := List.cons.inj he
      exact h.turn_of_ready x (hr ▸ List.mem_cons_self) hv
    · exact h.schedule.turn hx
  · refine Tops.congr ?_ fun u hu => h.rank_place_of_mem hv (hx.subset hu)
    rcases List.suffix_cons_iff.1 hx with he | hx
    · obtain ⟨rfl, rfl⟩ := List.cons.inj he
      exact h.tops x hv
    · exact h.schedule.tops hx

theorem tops_place {rest : List Nat} (h : Inv adjacency order s) (hv : s.isPlaced v = false)
    (hx : s.isPlaced x = false) (hne : x ≠ v) :
    Tops adjacency (Ranking.place adjacency v { s with ready := rest }).rank (v :: order) x := by
  refine (h.tops x hx).cons (Ne.symm hne) (fun u hu => h.rank_place_of_mem hv hu) ?_
  rw [rank_place (h.sized_rest rest) hv]
  have hx : { s with ready := rest }.isPlaced x = false := hx
  simp only [hne, hx, ne_eq, not_false_eq_true, and_true]
  rfl

/-- After the next node has been placed, those are ready that are free now. -/
theorem mem_ready_place {rest : List Nat} (h : Inv adjacency order s) (hr : s.ready = v :: rest)
    (hv : s.isPlaced v = false) (hx : s.isPlaced x = false) (hne : x ≠ v) :
    x ∈ (Ranking.place adjacency v { s with ready := rest }).ready ↔
      Free adjacency (v :: order) x := by
  obtain ⟨hlt, hnot⟩ := (h.unplaced_iff v).1 hv
  have hdue := (h.due x hx).trans (waiting_cons hlt hnot (Ne.symm hne))
  have hmem {y : Nat} : y ∈ s.ready ↔ y = v ∨ y ∈ rest := by rw [hr, List.mem_cons]
  rw [Ranking.mem_ready_place (h.sized_rest rest) hv]
  constructor
  · rintro (hrest | ⟨-, -, -, hle⟩)
    · rcases h.turn_of_ready x (hmem.2 (.inr hrest)) hx with hfree | hstuck
      · exact hfree.cons
      · -- a stuck node is alone in being ready
        have hvx : v ≤ x := by
          obtain ⟨hxlt, hxnot⟩ := (h.unplaced_iff x).1 hx
          have hturn := h.turn_of_ready v (hmem.2 (.inl rfl)) hv
          exact (hturn.resolve_left (hstuck v hlt hnot).2 x hxlt hxnot).1
        exact absurd (Nat.le_antisymm (hstuck v hlt hnot).1 hvx) hne
    · refine waiting_eq_zero.1 ?_
      have hle : s.due x ≤ (adjacency.getD v []).count x := hle
      omega
  · intro hfree
    by_cases hold : Free adjacency order x
    · exact .inl ((hmem.1 (h.ready_of_free x hx hold)).resolve_left hne)
    · -- the edge from `v` is the one that was missing
      have harc : Arc adjacency v x := by
        by_contra harc
        refine hold fun u hu hux => (List.mem_cons.1 (hfree u hu hux)).resolve_left ?_
        rintro rfl
        exact harc hu
      have hzero := waiting_eq_zero.2 hfree
      exact .inr ⟨harc, hne, hx, (show s.due x ≤ _ by omega)⟩

theorem length_lt (h : Inv adjacency order s) (hv : s.isPlaced v = false) :
    order.length < adjacency.size := by
  obtain ⟨hlt, hnot⟩ := (h.unplaced_iff v).1 hv
  have hsub : v :: order ⊆ List.range adjacency.size := fun x hx => by
    rcases List.mem_cons.1 hx with rfl | hx
    · exact List.mem_range.2 hlt
    · exact List.mem_range.2 (h.schedule.lt_size x hx)
  have hlen := (List.subperm_of_subset (List.nodup_cons.2 ⟨hnot, h.schedule.nodup⟩) hsub).length_le
  rw [List.length_cons, List.length_range] at hlen
  omega

/-- A ready node that has not been placed is placed. -/
theorem place {rest : List Nat} (h : Inv adjacency order s) (hr : s.ready = v :: rest)
    (hv : s.isPlaced v = false) :
    Inv adjacency (v :: order) (Ranking.place adjacency v { s with ready := rest }) := by
  have hs := h.sized_rest rest
  obtain ⟨hlt, hnot⟩ := (h.unplaced_iff v).1 hv
  have hun {x : Nat} : (Ranking.place adjacency v { s with ready := rest }).isPlaced x = false ↔
      x ≠ v ∧ s.isPlaced x = false := unplaced_place hs hv
  refine ⟨hs.place, h.schedule_place hr hv, fun x => ?_,
    fun x hx => h.tops_place hv (hun.1 hx).2 (hun.1 hx).1, fun x hx => ?_,
    fun x hx => (h.mem_ready_place hr hv (hun.1 hx).2 (hun.1 hx).1).2,
    fun x hmem hx => .inl ((h.mem_ready_place hr hv (hun.1 hx).2 (hun.1 hx).1).1 hmem), ?_,
    fun u hu => ?_⟩
  · rw [hun, h.unplaced_iff, List.mem_cons]
    tauto
  · obtain ⟨hne, hx⟩ := hun.1 hx
    have hdue := (h.due x hx).trans (waiting_cons hlt hnot (Ne.symm hne))
    rw [due_place hs hv, if_pos ⟨hne, hx⟩]
    show s.due x - _ = _
    omega
  · have hlen := h.length_lt hv
    have hrem := h.remaining
    rw [remaining_place, List.length_cons]
    show s.remaining - 1 + _ = _
    omega
  · rw [cursor_place] at hu
    rw [isPlaced_place hs hv]
    exact .inr (h.cursor u hu)

/-- Where no node is ready, the lowest one that has not been placed is made ready. -/
theorem opens (h : Inv adjacency order s) (hr : s.ready = []) : Inv adjacency order
    { s with
      cursor := skipPlaced s.placed s.cursor
      ready := [skipPlaced s.placed s.cursor] } := by
  have hbelow : ∀ u < skipPlaced s.placed s.cursor, s.isPlaced u = true := skipPlaced_below h.cursor
  have hnone {x : Nat} (hx : s.isPlaced x = false) : ¬ Free adjacency order x := fun hfree => by
    have hmem := h.ready_of_free x hx hfree
    rw [hr] at hmem
    simp at hmem
  have hstuck : Stuck adjacency order (skipPlaced s.placed s.cursor) := by
    intro x hlt hnot
    have hx : s.isPlaced x = false := (h.unplaced_iff x).2 ⟨hlt, hnot⟩
    refine ⟨Nat.le_of_not_lt fun hlow => ?_, hnone hx⟩
    exact absurd ((hbelow x hlow).symm.trans hx) (by decide)
  refine ⟨⟨h.sized.ranks, h.sized.indegree, h.sized.placed⟩, h.schedule, h.unplaced_iff, h.tops,
    h.due, fun x hx hfree => absurd hfree (hnone hx), fun x hmem _ => ?_, h.remaining, hbelow⟩
  rw [List.mem_singleton.1 hmem]
  exact .inr hstuck

end Inv

/-! ### The whole run -/

/-- What one step can do. -/
inductive Turn (adjacency : Array (List Nat)) (s : Ranking) : Ranking → Prop
  | skips {v rest} : s.ready = v :: rest → s.isPlaced v = true →
      Turn adjacency s { s with ready := rest }
  | places {v rest} : s.ready = v :: rest → s.isPlaced v = false →
      Turn adjacency s (place adjacency v { s with ready := rest })
  | opens : s.ready = [] → Turn adjacency s
      { s with
        cursor := skipPlaced s.placed s.cursor
        ready := [skipPlaced s.placed s.cursor] }

theorem turn_of_step (h : step? adjacency s = some t) : Turn adjacency s t := by
  unfold step? at h
  split at h
  · next v rest hr =>
    rw [Option.some.injEq] at h
    subst h
    split
    · next hv => exact .skips hr hv
    · next hv => exact .places hr (Bool.not_eq_true _ ▸ hv)
  · next hr =>
    split at h
    · contradiction
    · dsimp only at h
      split at h
      · rw [Option.some.injEq] at h
        exact h ▸ .opens hr
      · contradiction

theorem ended_of_step (h : step? adjacency s = none) :
    s.remaining = 0 ∨ s.placed.size ≤ skipPlaced s.placed s.cursor := by
  unfold step? at h
  split at h
  · contradiction
  · split at h
    · next h0 => exact .inl h0
    · dsimp only at h
      split at h
      · contradiction
      · next hc => exact .inr (Nat.le_of_not_lt hc)

theorem Inv.step (h : Inv adjacency order s) (hs : step? adjacency s = some t) :
    ∃ order, Inv adjacency order t := by
  cases turn_of_step hs with
  | skips hr hv => exact ⟨_, h.skip hr hv⟩
  | places hr hv => exact ⟨_, h.place hr hv⟩
  | opens hr => exact ⟨_, h.opens hr⟩

theorem run_of_ended (hs : step? adjacency s = none) : run adjacency s = s := by
  rw [run]
  split
  · rfl
  · next hs' => simp [hs] at hs'

theorem run_of_step (hs : step? adjacency s = some t) : run adjacency s = run adjacency t := by
  rw [run]
  split
  · next hs' => simp [hs] at hs'
  · next t' hs' =>
    rw [hs, Option.some.injEq] at hs'
    rw [hs']

/-- By induction on the run. -/
theorem Inv.run (h : Inv adjacency order s) : ∃ order, Inv adjacency order (run adjacency s) ∧
    step? adjacency (Ranking.run adjacency s) = none := by
  induction s using run.induct adjacency generalizing order with
  | case1 s hs =>
    rw [run_of_ended hs]
    exact ⟨order, h, hs⟩
  | case2 s t hs ih =>
    rw [run_of_step hs]
    obtain ⟨order, h⟩ := h.step hs
    exact ih h

/-- When nothing is left to do, all nodes are placed. -/
theorem Inv.mem_of_ended (h : Inv adjacency order s) (hs : step? adjacency s = none)
    (hv : v < adjacency.size) : v ∈ order := by
  by_contra hnot
  have hun : s.isPlaced v = false := (h.unplaced_iff v).2 ⟨hv, hnot⟩
  have hlen := h.length_lt hun
  have hrem := h.remaining
  rcases ended_of_step hs with h0 | hc
  · omega
  · have hlow : v < skipPlaced s.placed s.cursor := by
      rw [h.sized.placed] at hc
      omega
    exact absurd ((skipPlaced_below h.cursor v hlow).symm.trans hun) (by decide)

end Ranking

/-- The rank of a node, 0 if there is no such node. -/
def rankOf (adjacency : Array (List Nat)) (v : Nat) : Nat := (inferRanks adjacency).getD v 0

theorem size_inferRanks (adjacency : Array (List Nat)) :
    (inferRanks adjacency).size = adjacency.size := by
  obtain ⟨order, h, -⟩ := (Ranking.inv_initial adjacency).run
  exact h.sized.ranks

/-- The nodes are placed in some order, each of them once. -/
theorem exists_schedule (adjacency : Array (List Nat)) : ∃ order,
    Schedule adjacency (rankOf adjacency) order ∧ ∀ v < adjacency.size, v ∈ order := by
  obtain ⟨order, h, hs⟩ := (Ranking.inv_initial adjacency).run
  exact ⟨order, h.schedule, fun v hv => h.mem_of_ended hs hv⟩

end ModuleAtlas
