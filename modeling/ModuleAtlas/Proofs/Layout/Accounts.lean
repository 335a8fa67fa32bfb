import ModuleAtlas.Proofs.Layout.Turns

/-!
# The accounts of a ranking

A ranking counts down: how many edges into a node are still to come, how many nodes are left, and
from where on to look for the next one. `Balanced` says what these numbers are in a state, in terms
of the nodes placed so far alone. They are so in every state that a ranking comes through
(`Ranking.accounts_balance`), for which three facts more are carried from step to step beside the
order of the nodes (`Tidy`): no node is ready twice or after it has been placed, and one that is not
free is ready only if the last step has opened a cycle there.

Nothing is ever taken from 0 then, no node is taken up again, and the search for a node that is left
passes each node once in a whole run (`Spends.eq_cursor`).
-/

namespace ModuleAtlas.Ranking

open Relation

variable {adjacency : Array (List Nat)} {order rest ws : List Nat} {k n v w x : Nat} {s t : Ranking}

/-- The ranking comes through this state. -/
def Reached (adjacency : Array (List Nat)) (s : Ranking) : Prop :=
  ReflTransGen (fun s t => step? adjacency s = some t) (initial adjacency) s

theorem Reached.step (h : Reached adjacency s) (hs : step? adjacency s = some t) :
    Reached adjacency t := h.tail hs

/-- How many entries list `v` as the target of another node that has not been placed. -/
def openEntries (adjacency : Array (List Nat)) (s : Ranking) (v : Nat) : Nat :=
  ∑ u ∈ Finset.range adjacency.size,
    if u ≠ v ∧ s.isPlaced u = false then (adjacency.getD u []).count v else 0

/-- The last step has found no node ready and has opened a cycle at `v`. -/
def JustOpened (adjacency : Array (List Nat)) (s : Ranking) (v : Nat) : Prop :=
  ∃ r, Reached adjacency r ∧ r.ready = [] ∧ step? adjacency r = some s ∧ s.ready = [v]

/-- The numbers in a state are right. -/
structure Balanced (adjacency : Array (List Nat)) (s : Ranking) : Prop where
  due : ∀ v, s.isPlaced v = false → s.due v = openEntries adjacency s v
  ready_iff : ∀ v, s.isPlaced v = false →
    (v ∈ s.ready ↔ s.due v = 0 ∨ JustOpened adjacency s v)
  nodup : s.ready.Nodup
  remaining : s.remaining = {v ∈ Finset.range adjacency.size | s.isPlaced v = false}.card
  cursor : ∀ v < s.cursor, s.isPlaced v = true

/-- Nothing is taken from 0 when `v` is placed, and it has not been placed before. -/
structure Deducts (adjacency : Array (List Nat)) (v : Nat) (s : Ranking) : Prop where
  unplaced : s.isPlaced v = false
  remaining : 0 < s.remaining
  due : ∀ {front w back}, adjacency.getD v [] = front ++ w :: back → w ≠ v →
    s.isPlaced w = false → 0 < (front.foldl (release v) (take v s)).due w

/-! ### Opening a cycle -/

/-- Where no node is ready, a cycle is opened if a node is left. -/
theorem opens_of_step (hr : s.ready = []) (h : step? adjacency s = some t) :
    skipPlaced s.placed s.cursor < s.placed.size ∧ t =
      { s with
        cursor := skipPlaced s.placed s.cursor
        ready := [skipPlaced s.placed s.cursor] } := by
  rw [step?, hr] at h
  dsimp only at h
  split at h
  · contradiction
  · split at h
    · next hc => exact ⟨hc, (Option.some.inj h).symm⟩
    · contradiction

theorem isPlaced_skipPlaced (h : skipPlaced s.placed s.cursor < s.placed.size) :
    s.isPlaced (skipPlaced s.placed s.cursor) = false :=
  skipPlaced_spec s.placed s.cursor h

/-! ### Releasing the targets of a node -/

/-- Where there are as many edges to come as are taken account of, a node becomes ready once. -/
theorem nodup_releases (hs : Sized n s) (hn : s.ready.Nodup)
    (hmany : ∀ x, x ≠ v → s.isPlaced x = false → ws.count x ≤ s.due x)
    (hnone : ∀ x ∈ s.ready, s.due x = 0) : (ws.foldl (release v) s).ready.Nodup := by
  induction ws generalizing s with
  | nil => exact hn
  | cons w ws ih =>
    rw [List.foldl_cons]
    by_cases hw : w ≠ v ∧ s.isPlaced w = false
    · have hcount := hmany w hw.1 hw.2
      rw [List.count_cons_self] at hcount
      have hnot : w ∉ s.ready := fun hmem => by
        have hdue := hnone w hmem
        omega
      refine ih hs.release ?_ (fun x hx hxp => ?_) fun x hx => ?_
      · rw [release_of_unplaced hw.1 hw.2]
        dsimp only
        split
        · rw [← List.concat_eq_append]
          exact hn.concat hnot
        · exact hn
      · rw [isPlaced_release] at hxp
        have hle := hmany x hx hxp
        rw [due_release hs]
        by_cases hxw : x = w
        · subst hxw
          rw [if_pos ⟨rfl, hx, hxp⟩]
          omega
        · rwa [if_neg fun h => hxw h.1, ← List.count_cons_of_ne (Ne.symm hxw)]
      · rw [due_release hs]
        rcases mem_ready_release.1 hx with hx | ⟨rfl, hne, hxp, hle⟩
        · have hdue := hnone x hx
          split <;> omega
        · rw [if_pos ⟨rfl, hne, hxp⟩]
          omega
    · rw [release_of_not hw]
      refine ih hs hn (fun x hx hxp => ?_) hnone
      exact (List.count_le_count_cons).trans (hmany x hx hxp)

/-- The entries of a node that is being placed are among those that are still to come. -/
theorem Inv.count_le_due (h : Inv adjacency order s) (hv : s.isPlaced v = false)
    (hx : s.isPlaced x = false) (hne : x ≠ v) : (adjacency.getD v []).count x ≤ s.due x := by
  obtain ⟨hlt, hnot⟩ := (h.unplaced_iff v).1 hv
  have hdue := (h.due x hx).trans (waiting_cons hlt hnot (Ne.symm hne))
  omega

/-! ### The invariant -/

/-- The state of a ranking that has placed the given nodes, with an orderly queue. -/
structure Tidy (adjacency : Array (List Nat)) (order : List Nat) (s : Ranking) : Prop where
  inv : Inv adjacency order s
  nodup : s.ready.Nodup
  unplaced : ∀ v ∈ s.ready, s.isPlaced v = false
  opened : ∀ v ∈ s.ready, Free adjacency order v ∨ JustOpened adjacency s v

theorem tidy_initial (adjacency : Array (List Nat)) : Tidy adjacency [] (initial adjacency) := by
  have hready {v : Nat} (hv : v ∈ (initial adjacency).ready) :
      v < adjacency.size ∧ edgesInto adjacency v = 0 := by
    simp only [initial, List.mem_filter, List.mem_range] at hv
    simpa [hv.1] using hv
  refine ⟨inv_initial adjacency, ?_, fun v hv => ?_, fun v hv => .inl ?_⟩
  · exact List.nodup_range.filter _
  · simp [initial, isPlaced, (hready hv).1]
  · rw [← waiting_eq_zero, ← edgesInto_eq]
    exact (hready hv).2

namespace Tidy

theorem due_eq_zero (h : Tidy adjacency order s) (hr : s.ready = v :: rest) (hx : x ∈ rest) :
    s.due x = 0 := by
  have hmem : x ∈ s.ready := by simp [hr, hx]
  rcases h.opened x hmem with hfree | ⟨r, -, -, -, hopened⟩
  · rw [h.inv.due x (h.unplaced x hmem)]
    exact waiting_eq_zero.2 hfree
  · -- the node where a cycle has been opened is alone in being ready
    simp [(List.cons.inj (hr.symm.trans hopened)).2] at hx

/-- The next node is placed. -/
theorem place (h : Tidy adjacency order s) (hr : s.ready = v :: rest) :
    Tidy adjacency (v :: order) (Ranking.place adjacency v { s with ready := rest }) := by
  have hv : s.isPlaced v = false := h.unplaced v (by simp [hr])
  have hs := h.inv.sized_rest rest
  have hn : v ∉ rest ∧ rest.Nodup := List.nodup_cons.1 (hr ▸ h.nodup)
  have hmem (x : Nat) (hx : x ∈ (Ranking.place adjacency v { s with ready := rest }).ready) :
      x ≠ v ∧ s.isPlaced x = false := by
    rcases (Ranking.mem_ready_place hs hv).1 hx with hx | ⟨-, hne, hxp, -⟩
    · exact ⟨fun he => hn.1 (he ▸ hx), h.unplaced x (by simp [hr, show x ∈ rest from hx])⟩
    · exact ⟨hne, hxp⟩
  refine ⟨h.inv.place hr hv, ?_, fun x hx => (unplaced_place hs hv).2 (hmem x hx),
    fun x hx => .inl ?_⟩
  · rw [place_eq]
    refine nodup_releases hs.take hn.2 (fun x hne hxp => ?_) fun x hx => h.due_eq_zero hr hx
    exact h.inv.count_le_due hv ((unplaced_take hs hv).1 hxp).2 hne
  · exact (h.inv.mem_ready_place hr hv (hmem x hx).2 (hmem x hx).1).1 hx

theorem step?_eq (h : Tidy adjacency order s) (hr : s.ready = v :: rest) :
    step? adjacency s = some (Ranking.place adjacency v { s with ready := rest }) := by
  have hv : Ranking.isPlaced { s with ready := rest } v = false := h.unplaced v (by simp [hr])
  rw [step?, hr]
  simp [hv]

theorem step (h : Tidy adjacency order s) (hreached : Reached adjacency s)
    (hs : step? adjacency s = some t) : ∃ order, Tidy adjacency order t := by
  cases hr : s.ready with
  | cons v rest =>
    obtain rfl := Option.some.inj ((h.step?_eq hr).symm.trans hs)
    exact ⟨v :: order, h.place hr⟩
  | nil =>
    obtain ⟨hc, rfl⟩ := opens_of_step hr hs
    refine ⟨order, h.inv.opens hr, List.nodup_singleton _, fun v hv => ?_, fun v hv => .inr ?_⟩
    · rw [List.mem_singleton.1 hv]
      exact isPlaced_skipPlaced hc
    · exact ⟨s, hreached, hr, hs, by rw [List.mem_singleton.1 hv]⟩

theorem openEntries_eq (h : Tidy adjacency order s) (v : Nat) :
    openEntries adjacency s v = waiting adjacency order v := by
  refine Finset.sum_congr rfl fun u hu => ?_
  have hun := h.inv.unplaced_iff u
  rw [Finset.mem_range] at hu
  by_cases hne : u = v <;> by_cases hmem : u ∈ order <;> simp_all

theorem remaining_eq (h : Tidy adjacency order s) :
    s.remaining = {v ∈ Finset.range adjacency.size | s.isPlaced v = false}.card := by
  have hsub : order.toFinset ⊆ Finset.range adjacency.size := fun v hv =>
    Finset.mem_range.2 (h.inv.schedule.lt_size v (List.mem_toFinset.1 hv))
  have hleft : {v ∈ Finset.range adjacency.size | s.isPlaced v = false} =
      Finset.range adjacency.size \ order.toFinset := by
    ext v
    simp [h.inv.unplaced_iff]
  have hlength := h.inv.remaining
  rw [hleft, Finset.card_sdiff_of_subset hsub, Finset.card_range,
    List.toFinset_card_of_nodup h.inv.schedule.nodup]
  omega

theorem balanced (h : Tidy adjacency order s) : Balanced adjacency s where
  due v hv := (h.inv.due v hv).trans (h.openEntries_eq v).symm
  ready_iff v hv := by
    have hfree : s.due v = 0 ↔ Free adjacency order v := by
      rw [h.inv.due v hv, waiting_eq_zero]
    rw [hfree]
    refine ⟨h.opened v, ?_⟩
    rintro (hfree | ⟨r, -, -, -, hopened⟩)
    · exact h.inv.ready_of_free v hv hfree
    · simp [hopened]
  nodup := h.nodup
  remaining := h.remaining_eq
  cursor := h.inv.cursor

theorem deducts (h : Tidy adjacency order s) (hr : s.ready = v :: rest) :
    Deducts adjacency v { s with ready := rest } where
  unplaced := h.unplaced v (by simp [hr])
  remaining := by
    have hlength := h.inv.length_lt (h.unplaced v (by simp [hr]))
    have hremaining := h.inv.remaining
    show 0 < s.remaining
    omega
  due {front w back} hsplit hne hw := by
    have hv : s.isPlaced v = false := h.unplaced v (by simp [hr])
    have hs := h.inv.sized_rest rest
    have hcount := h.inv.count_le_due hv hw hne
    rw [due_releases hs.take, if_pos ⟨hne, (unplaced_take hs hv).2 ⟨hne, hw⟩⟩]
    rw [hsplit, List.count_append, List.count_cons_self] at hcount
    show 0 < s.due w - front.count w
    omega

end Tidy

/-- By induction on the steps. -/
theorem exists_tidy (h : Reached adjacency s) : ∃ order, Tidy adjacency order s := by
  induction h with
  | refl => exact ⟨[], tidy_initial adjacency⟩
  | tail hreached hs ih =>
    obtain ⟨order, htidy⟩ := ih
    exact htidy.step hreached hs

/-! ### The end -/

/-- As long as nodes are left, one is found. -/
theorem Balanced.skipPlaced_lt (h : Balanced adjacency s) (hleft : s.remaining ≠ 0) :
    skipPlaced s.placed s.cursor < adjacency.size := by
  rw [h.remaining, Finset.card_ne_zero] at hleft
  obtain ⟨v, hv⟩ := hleft
  rw [Finset.mem_filter, Finset.mem_range] at hv
  refine Nat.lt_of_not_le fun hle => ?_
  have hplaced := skipPlaced_below h.cursor v (by omega)
  exact absurd (hplaced.symm.trans hv.2) (by decide)

theorem reached_run (adjacency : Array (List Nat)) :
    Reached adjacency (run adjacency (initial adjacency)) :=
  (reaches_run adjacency (initial adjacency)).1

/-- A ranking ends because no node is left. -/
theorem remaining_run (adjacency : Array (List Nat)) :
    (run adjacency (initial adjacency)).remaining = 0 := by
  obtain ⟨order, h⟩ := exists_tidy (reached_run adjacency)
  rcases ended_of_step (reaches_run adjacency (initial adjacency)).2 with h0 | hc
  · exact h0
  · by_contra hleft
    have hlt := h.balanced.skipPlaced_lt hleft
    rw [h.inv.sized.placed] at hc
    omega

/-! ### What the search for nodes costs -/

/-- How many nodes are passed on the way to the first one from `c` on that has not been placed. -/
def passed (placed : Array Bool) (c : Nat) : Nat :=
  if h : c < placed.size then if placed[c] then passed placed (c + 1) + 1 else 0 else 0
termination_by placed.size - c

/-- The ranking comes to this state, and has passed so many nodes on its searches until then. -/
inductive Spends (adjacency : Array (List Nat)) : Nat → Ranking → Prop
  | initial : Spends adjacency 0 (initial adjacency)
  | pop {k v : Nat} {rest : List Nat} {s t : Ranking} (h : Spends adjacency k s)
    (hr : s.ready = v :: rest) (hs : step? adjacency s = some t) : Spends adjacency k t
  | opens {k : Nat} {s t : Ranking} (h : Spends adjacency k s) (hr : s.ready = [])
    (hs : step? adjacency s = some t) : Spends adjacency (k + passed s.placed s.cursor) t

theorem add_passed (placed : Array Bool) (c : Nat) : c + passed placed c = skipPlaced placed c := by
  fun_induction passed placed c with
  | case1 c hc hp ih =>
    rw [skipPlaced, dif_pos hc, if_pos hp, ← ih]
    omega
  | case2 c hc hp => rw [skipPlaced, dif_pos hc, if_neg hp, Nat.add_zero]
  | case3 c hc => rw [skipPlaced, dif_neg hc, Nat.add_zero]

theorem exists_spends (h : Reached adjacency s) : ∃ k, Spends adjacency k s := by
  induction h with
  | refl => exact ⟨0, .initial⟩
  | @tail s t _ hs ih =>
    obtain ⟨k, hk⟩ := ih
    cases hr : s.ready with
    | nil => exact ⟨_, hk.opens hr hs⟩
    | cons v rest => exact ⟨k, hk.pop hr hs⟩

theorem cursor_of_pop (hr : s.ready = v :: rest) (hs : step? adjacency s = some t) :
    t.cursor = s.cursor := by
  cases turn_of_step hs with
  | skips => rfl
  | places => exact cursor_place
  | opens hnil => simp [hnil] at hr

namespace Spends

theorem reached (h : Spends adjacency k s) : Reached adjacency s := by
  induction h with
  | initial => exact .refl
  | pop _ _ hs ih | opens _ _ hs ih => exact ih.step hs

/-- A search begins where the last one has ended, so all of them together pass the nodes below the
cursor. -/
theorem eq_cursor (h : Spends adjacency k s) : k = s.cursor := by
  induction h with
  | initial => rfl
  | pop _ hr hs ih => rw [cursor_of_pop hr hs, ih]
  | opens _ hr hs ih =>
    obtain ⟨-, rfl⟩ := opens_of_step hr hs
    rw [ih, add_passed]

theorem le_size (h : Spends adjacency k s) : k ≤ adjacency.size := by
  rw [h.eq_cursor]
  induction h with
  | initial => exact Nat.zero_le _
  | pop _ hr hs ih => rwa [cursor_of_pop hr hs]
  | opens h hr hs ih =>
    obtain ⟨hc, rfl⟩ := opens_of_step hr hs
    obtain ⟨order, htidy⟩ := exists_tidy h.reached
    rw [htidy.inv.sized.placed] at hc
    exact hc.le

end Spends

/-- In every state that a ranking comes through, its numbers are right, so that a node that is ready
has not been placed, placing it takes nothing from 0, and where no node is ready but some are left,
one of them is found. It ends with no node left, after searches that have passed no more nodes than
there are. -/
theorem accounts_balance (adjacency : Array (List Nat)) :
    (∀ s, Reached adjacency s → Balanced adjacency s ∧
      (∀ v rest, s.ready = v :: rest → Deducts adjacency v { s with ready := rest } ∧
        step? adjacency s = some (place adjacency v { s with ready := rest })) ∧
      (s.ready = [] → s.remaining ≠ 0 → skipPlaced s.placed s.cursor < adjacency.size) ∧
      (∃ k, Spends adjacency k s) ∧ ∀ k, Spends adjacency k s → k ≤ adjacency.size) ∧
    Reached adjacency (run adjacency (initial adjacency)) ∧
    (run adjacency (initial adjacency)).remaining = 0 := by
  refine ⟨fun s hreached => ?_, reached_run adjacency, remaining_run adjacency⟩
  obtain ⟨order, htidy⟩ := exists_tidy hreached
  refine ⟨htidy.balanced, fun v rest hr => ⟨htidy.deducts hr, htidy.step?_eq hr⟩,
    fun _ hleft => htidy.balanced.skipPlaced_lt hleft, exists_spends hreached,
    fun k hk => hk.le_size⟩

/-- The state in which a cycle has been opened at 0. -/
def knotBeforeOne : Ranking :=
  { initial knot with placed := #[true, false, false, false], remaining := 3 }

/-- The state in which one has also been opened at 1, and 2 has become ready. -/
def knotBeforeTwo : Ranking where
  ranks := #[0, 0, 1, 0]
  indegree := #[1, 1, 0, 2]
  placed := #[true, true, false, false]
  ready := [2]
  remaining := 2
  cursor := 1

theorem reached_knotBeforeTwo : Reached knot knotBeforeTwo := by
  have hopen : step? knot (initial knot) = some { initial knot with ready := [0] } := by cbv
  have hplace : step? knot { initial knot with ready := [0] } = some knotBeforeOne := by cbv
  have hopen' : step? knot knotBeforeOne =
      some { knotBeforeOne with ready := [1], cursor := 1 } := by cbv
  have hplace' : step? knot { knotBeforeOne with ready := [1], cursor := 1 } =
      some knotBeforeTwo := by cbv
  have hinitial : Reached knot (initial knot) := .refl
  exact (((hinitial.step hopen).step hplace).step hopen').step hplace'

/-- Two edges into 3 are to come, both of them from 2, and there are as many for the second
one. -/
theorem accounts_balance_knot : Reached knot knotBeforeTwo ∧ Balanced knot knotBeforeTwo ∧
    knotBeforeTwo.due 3 = 2 ∧
    0 < ([0, 1, 3].foldl (release 2) (take 2 { knotBeforeTwo with ready := [] })).due 3 ∧
    (∃ k ≤ 4, Spends knot k knotBeforeTwo) ∧ (run knot (initial knot)).remaining = 0 := by
  obtain ⟨hstates, -, hend⟩ := accounts_balance knot
  obtain ⟨hbalanced, hpop, -, ⟨k, hk⟩, hle⟩ := hstates knotBeforeTwo reached_knotBeforeTwo
  obtain ⟨hdeducts, -⟩ := hpop 2 [] rfl
  have htwo : knot.getD 2 [] = [0, 1, 3] ++ 3 :: [] := rfl
  have hdue := hdeducts.due htwo (by decide) rfl
  exact ⟨reached_knotBeforeTwo, hbalanced, rfl, hdue, ⟨k, hle k hk, hk⟩, hend⟩

end ModuleAtlas.Ranking
