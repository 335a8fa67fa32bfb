import ModuleAtlas.Proofs.Graph.Marking

/-!
# Visits of the search for circular imports

The search goes down to a node that it has not visited (`Calls`), and the visit of the node is over
as soon as the path is no longer than it was before (`Visit`). Visits are nested as the path is:
while one is going on, the path of the state that it began in lies at the end of the path
(`Visit.suffix_path`), so it is the whole path when the visit is over. The rest of what a visit
leaves behind (`Visit.returned`) follows from what holds of every state: an edge from a visited node
that has not been followed is one from a node of the path, and the nodes of that path have been
visited before the visit began.

Each node is visited once in the whole search (`Enters.mem_iff`). `visits_return` puts this
together.
-/

namespace ModuleAtlas.Search

open Relation

variable {adjacency : Array (List Nat)} {r s t t' : Search} {l : List Nat} {n v w : Nat}

/-- In the state `r` the search is about to go down to `v`; `s` is the state without the edge to
it. -/
inductive Calls (adjacency : Array (List Nat)) (r : Search) : Nat → Search → Prop
  | start {v : Nat} (hp : r.path = []) (hv : r.isVisited v = false)
    (hall : ∀ u < v, r.isVisited u = true) : Calls adjacency r v r
  | descend {u v : Nat} {ws : List Nat} {above : List Frame} (hp : r.path = ⟨u, v :: ws⟩ :: above)
    (hv : r.isVisited v = false) : Calls adjacency r v { r with path := ⟨u, ws⟩ :: above }

/-- A move made with more than `n` nodes on the path. -/
def MovesBeyond (adjacency : Array (List Nat)) (n : Nat) (s t : Search) : Prop :=
  n < s.path.length ∧ Moves adjacency s t

/-- The visit of `v` that begins in `s` with going down to `v` is over in `t`: the path has become
no longer than it was in `s`, for the first time. -/
structure Visit (adjacency : Array (List Nat)) (v : Nat) (s t : Search) : Prop where
  moves : ReflTransGen (MovesBeyond adjacency s.path.length) (enter adjacency v s) t
  ended : t.path.length ≤ s.path.length

/-- What the visit of `v` that began in `s` leaves behind. -/
structure Returned (adjacency : Array (List Nat)) (v : Nat) (s t : Search) : Prop where
  path : t.path = s.path
  onPath : t.onPath = s.onPath
  /-- All that can be reached by nodes not visited before has been visited. -/
  visited : ∀ w, ReflTransGen (fun a b => Arc adjacency a b ∧ s.isVisited b = false) v w →
    t.isVisited w = true
  marked : ∀ w, s.isMarked w = true → t.isMarked w = true

/-! ### Where a visit begins -/

namespace Calls

theorem moves (h : Calls adjacency r v s) : Moves adjacency r (enter adjacency v s) := by
  cases h with
  | start hp hv hall => exact .start hp hv hall
  | @descend u _ ws above hp hv =>
    have hstep : step adjacency r = enter adjacency v { r with path := ⟨u, ws⟩ :: above } := by
      have hv : isVisited { r with path := ⟨u, ws⟩ :: above } v = false := hv
      simp [step, hp, hv]
    exact hstep ▸ .step (by simp [hp])

theorem isVisited_eq (h : Calls adjacency r v s) : s.isVisited w = r.isVisited w := by
  cases h <;> rfl

theorem unvisited (h : Calls adjacency r v s) : s.isVisited v = false := by
  cases h with
  | start _ hv | descend _ hv => exact hv

theorem shaped (h : Calls adjacency r v s) (hr : Shaped adjacency r) : Shaped adjacency s := by
  cases h with
  | start => exact hr
  | descend hp => exact hr.drop hp

end Calls

/-- A move that is no call visits nothing. -/
theorem isVisited_of_not_calls (hm : Moves adjacency r t) (h : ∀ v s, ¬ Calls adjacency r v s) :
    t.isVisited w = r.isVisited w := by
  cases hm.kind with
  | start hp hv hall => exact absurd (.start hp hv hall) (h _ _)
  | descend hp hv => exact absurd (.descend hp hv) (h _ _)
  | leave | close | skip => rfl

/-! ### Where a visit ends -/

theorem movesBeyond_rightUnique : Relator.RightUnique (MovesBeyond adjacency n) :=
  fun _ _ _ h h' => moves_rightUnique h.2 h'.2

/-- By induction on the run of the search. -/
theorem exists_ended (adjacency : Array (List Nat)) (n : Nat) (s : Search) :
    ∃ t, ReflTransGen (MovesBeyond adjacency n) s t ∧ t.path.length ≤ n := by
  induction s using run.induct adjacency with
  | case1 s hp => exact ⟨s, .refl, by simp [hp]⟩
  | case2 s f fs hp ih =>
    by_cases hn : n < s.path.length
    · obtain ⟨t, ht, hle⟩ := ih
      exact ⟨t, .head ⟨hn, .step (by simp [hp])⟩ ht, hle⟩
    · exact ⟨s, .refl, Nat.le_of_not_lt hn⟩

theorem exists_visit (adjacency : Array (List Nat)) (v : Nat) (s : Search) :
    ∃ t, Visit adjacency v s t := by
  obtain ⟨t, ht, hle⟩ := exists_ended adjacency s.path.length (enter adjacency v s)
  exact ⟨t, ht, hle⟩

/-- Beyond a path the search goes on with that path at the end of its own. -/
theorem suffix_path_of_movesBeyond {path : List Frame}
    (hm : MovesBeyond adjacency path.length s t) (h : path <:+ s.path) : path <:+ t.path := by
  have habove {f : Frame} {above : List Frame} (hp : s.path = f :: above) : path <:+ above := by
    have hlt := hm.1
    rw [hp] at h hlt
    rcases List.suffix_cons_iff.1 h with rfl | h
    · exact absurd hlt (Nat.lt_irrefl _)
    · exact h
  cases hm.2.kind with
  | start hp => exact absurd hm.1 (by simp [hp])
  | leave hp => exact habove hp
  | descend hp => exact ((habove hp).trans (List.suffix_cons _ _)).trans (List.suffix_cons _ _)
  | close hp | skip hp => exact (habove hp).trans (List.suffix_cons _ _)

namespace Visit

theorem unique (h : Visit adjacency v s t) (h' : Visit adjacency v s t') : t = t' := by
  have hstops {a b : Search} (ha : a.path.length ≤ s.path.length)
      (hab : ReflTransGen (MovesBeyond adjacency s.path.length) a b) : a = b := by
    rcases ReflTransGen.cases_head hab with rfl | ⟨c, hac, -⟩
    · rfl
    · exact absurd hac.1 (Nat.not_lt.2 ha)
  rcases ReflTransGen.total_of_right_unique movesBeyond_rightUnique h.moves h'.moves with ht | ht
  · exact hstops h.ended ht
  · exact (hstops h'.ended ht).symm

theorem reaches (h : Visit adjacency v s t) :
    ReflTransGen (Moves adjacency) (enter adjacency v s) t :=
  ReflTransGen.mono (fun _ _ hm => hm.2) _ _ h.moves

/-- By induction on the moves. -/
theorem suffix_path
    (h : ReflTransGen (MovesBeyond adjacency s.path.length) (enter adjacency v s) t) :
    s.path <:+ t.path := by
  induction h with
  | refl => exact List.suffix_cons _ _
  | tail _ hm ih => exact suffix_path_of_movesBeyond hm ih

theorem path_eq (h : Visit adjacency v s t) : t.path = s.path :=
  ((suffix_path h.moves).eq_of_length_le h.ended).symm

end Visit

/-- Which nodes are on the path says what the flags are. -/
theorem Shaped.onPath_eq (hs : Shaped adjacency s) (ht : Shaped adjacency t)
    (h : t.pathNodes = s.pathNodes) : t.onPath = s.onPath := by
  apply Array.ext
  · rw [ht.onPath_size, hs.onPath_size]
  · intro i hi hi'
    have hiff : t.isOnPath i = true ↔ s.isOnPath i = true := by
      rw [ht.onPath_iff, hs.onPath_iff, h]
    simpa [isOnPath, hi, hi'] using hiff

theorem isMarked_reaches (h : ReflTransGen (Moves adjacency) s t) (hv : s.isMarked v = true) :
    t.isMarked v = true := by
  induction h with
  | refl => exact hv
  | tail _ hm ih => exact isMarked_moves hm ih

theorem Visit.returned (hr : Reached adjacency r) (hc : Calls adjacency r v s)
    (h : Visit adjacency v s t) : Returned adjacency v s t := by
  have hs : Shaped adjacency s := hc.shaped (shaped_of_reached hr)
  have ht : Reached adjacency t := (hr.tail hc.moves).trans h.reaches
  have hpath := h.path_eq
  refine ⟨hpath, hs.onPath_eq (shaped_of_reached ht) (by rw [pathNodes, hpath, pathNodes]),
    fun w hw => ?_, fun w hw => isMarked_reaches h.reaches hw⟩
  have hboth : s.isVisited w = false ∧ t.isVisited w = true := by
    induction hw with
    | refl => exact ⟨hc.unvisited, isVisited_reaches h.reaches (isVisited_enter.2 (.inl rfl))⟩
    | @tail w x _ hwx ih =>
      refine ⟨hwx.2, (explored_of_reached ht w x ih.2 hwx.1).resolve_right ?_⟩
      -- edges that are still to be followed are from nodes visited before
      rintro ⟨f, hf, rfl, -⟩
      rw [hpath] at hf
      have hvisited := (hs.visited_of_mem f.node (List.mem_map_of_mem hf)).2
      exact absurd (hvisited.symm.trans ih.1) (by decide)
  exact hboth.2

/-! ### Each node once -/

/-- The search comes from its beginning to this state, and goes down to these nodes on the way, one
after the other. -/
inductive Enters (adjacency : Array (List Nat)) : List Nat → Search → Prop
  | fresh : Enters adjacency [] (fresh adjacency.size)
  | call {l : List Nat} {v : Nat} {r s : Search} (h : Enters adjacency l r)
    (hc : Calls adjacency r v s) : Enters adjacency (l ++ [v]) (enter adjacency v s)
  | other {l : List Nat} {r t : Search} (h : Enters adjacency l r) (hm : Moves adjacency r t)
    (hnone : ∀ v s, ¬ Calls adjacency r v s) : Enters adjacency l t

theorem exists_enters (h : Reached adjacency s) : ∃ l, Enters adjacency l s := by
  induction h with
  | refl => exact ⟨[], .fresh⟩
  | @tail r t _ hm ih =>
    obtain ⟨l, hl⟩ := ih
    by_cases hcall : ∃ v s, Calls adjacency r v s
    · obtain ⟨v, s, hc⟩ := hcall
      obtain rfl := moves_rightUnique hc.moves hm
      exact ⟨l ++ [v], hl.call hc⟩
    · exact ⟨l, hl.other hm fun v s hc => hcall ⟨v, s, hc⟩⟩

namespace Enters

theorem reached (h : Enters adjacency l s) : Reached adjacency s := by
  induction h with
  | fresh => exact .refl
  | call _ hc ih => exact ih.tail hc.moves
  | other _ hm _ ih => exact ih.tail hm

/-- The nodes that the search has gone down to are those that it has visited. -/
theorem mem_iff (h : Enters adjacency l s) :
    v ∈ l ↔ v < adjacency.size ∧ s.isVisited v = true := by
  induction h with
  | fresh =>
    by_cases hv : v < adjacency.size <;> simp [Search.fresh, isVisited, hv]
  | @call l u r s h hc ih =>
    have hu : u < adjacency.size := by
      have hs := hc.shaped (shaped_of_reached h.reached)
      exact hs.visited_size ▸ lt_size_of_unvisited hc.unvisited
    rw [List.mem_append, List.mem_singleton, ih, isVisited_enter, hc.isVisited_eq]
    constructor
    · rintro (⟨hv, hvisited⟩ | rfl)
      · exact ⟨hv, .inr hvisited⟩
      · exact ⟨hu, .inl rfl⟩
    · rintro ⟨hv, rfl | hvisited⟩
      · exact .inr rfl
      · exact .inl ⟨hv, hvisited⟩
  | other _ hm hnone ih => rw [ih, isVisited_of_not_calls hm hnone]

theorem nodup (h : Enters adjacency l s) : l.Nodup := by
  induction h with
  | fresh => exact List.nodup_nil
  | @call l v r s h hc ih =>
    rw [← List.concat_eq_append]
    refine ih.concat fun hv => ?_
    have hvisited := (h.mem_iff.1 hv).2
    rw [← hc.isVisited_eq, hc.unvisited] at hvisited
    contradiction
  | other _ _ _ ih => exact ih

theorem perm_range (h : Enters adjacency l (exploreAll adjacency)) :
    l.Perm (List.range adjacency.size) := by
  refine (List.perm_ext_iff_of_nodup h.nodup List.nodup_range).2 fun v => ?_
  rw [h.mem_iff, List.mem_range]
  simp [isVisited_exploreAll]

end Enters

/-- A node that an edge leads back to is found on the path. -/
theorem exists_upTo {ws : List Nat} {above : List Frame} (hs : Shaped adjacency s)
    (hp : s.path = ⟨v, w :: ws⟩ :: above) (hon : s.isOnPath w = true) :
    ∃ l, upTo? w (⟨v, ws⟩ :: above) = some l := by
  have hon : w ∈ s.pathNodes := (hs.onPath_iff w).1 hon
  have hw : w ∈ (⟨v, ws⟩ :: above : List Frame).map (·.node) := by simpa [pathNodes, hp] using hon
  obtain ⟨l, -, hl, -⟩ := upTo?_eq_some hw
  exact ⟨_, hl⟩

/-- In the search for the circular imports of a graph, every state has a path that is a chain of
edges without repetition, with flags that agree with it, and no number in it is too large for the
graph. A node that an edge leads back to is found on the path. Every visit comes to an end, with the
path and the flags as they were, with all visited that could be reached by nodes not visited before,
and with no mark taken away. Each node is gone down to once. -/
theorem visits_return {α : Type} (g : Graph α) :
    (∀ s, Reached g.successors s → Shaped g.successors s ∧
      (∀ u w, s.Awaits u w → u < g.successors.size ∧ w < g.successors.size) ∧
      (∀ v w ws above, s.path = ⟨v, w :: ws⟩ :: above → s.isOnPath w = true →
        ∃ l, upTo? w (⟨v, ws⟩ :: above) = some l)) ∧
    (∀ r v s, Reached g.successors r → Calls g.successors r v s → ∃ t,
      Visit g.successors v s t ∧ (∀ t', Visit g.successors v s t' → t' = t) ∧
        Returned g.successors v s t) ∧
    (∃ l, Enters g.successors l (exploreAll g.successors)) ∧
    ∀ l, Enters g.successors l (exploreAll g.successors) →
      l.Perm (List.range g.successors.size) := by
  refine ⟨fun s hr => ⟨shaped_of_reached hr, fun u w hw => ?_, fun v w ws above hp hon => ?_⟩,
    fun r v s hr hc => ?_, exists_enters (reached_exploreAll _), fun l hl => hl.perm_range⟩
  · have harc := (shaped_of_reached hr).pending hw
    rw [Graph.arc_successors] at harc
    rw [Graph.size_successors]
    exact harc.lt_length
  · exact exists_upTo (shaped_of_reached hr) hp hon
  · obtain ⟨t, ht⟩ := exists_visit g.successors v s
    exact ⟨t, ht, fun t' ht' => ht'.unique ht, Visit.returned hr hc ht⟩

/-- From a the search goes down to b, finds the circuit back to a, goes on to c, and is back at a
then without any edge left to follow. -/
theorem visits_return_eight : ∃ s t,
    Calls Graph.eight.successors (enter Graph.eight.successors 0 (fresh 4)) 1 s ∧
    Visit Graph.eight.successors 1 s t ∧ t.path = [⟨0, []⟩] ∧ t.isVisited 2 = true ∧
    ∃ l, Enters Graph.eight.successors l (exploreAll Graph.eight.successors) ∧
      l.Perm [0, 1, 2, 3] := by
  obtain ⟨-, hvisits, ⟨l, hl⟩, honce⟩ := visits_return Graph.eight
  have hperm := honce l hl
  rw [Graph.successors_eight] at hvisits hl hperm ⊢
  have hreached : Reached #[[1], [0, 2], [1], [0]]
      (enter #[[1], [0, 2], [1], [0]] 0 (fresh 4)) := .single (.start rfl rfl (by simp))
  have hcalls : Calls #[[1], [0, 2], [1], [0]] (enter #[[1], [0, 2], [1], [0]] 0 (fresh 4)) 1
      { enter #[[1], [0, 2], [1], [0]] 0 (fresh 4) with path := [⟨0, []⟩] } := .descend rfl rfl
  obtain ⟨t, ht, -, hreturned⟩ := hvisits _ 1 _ hreached hcalls
  have hvisited := hreturned.visited 2 (.single ⟨by decide, rfl⟩)
  exact ⟨_, t, hcalls, ht, hreturned.path, hvisited, l, hl, hperm⟩

end ModuleAtlas.Search
