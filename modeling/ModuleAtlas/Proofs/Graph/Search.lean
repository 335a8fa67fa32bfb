import ModuleAtlas.Graph.Cycles
import ModuleAtlas.Proofs.Graph.Circuit
import ModuleAtlas.Proofs.Graph.Links

/-!
# States of the search for circular imports

The whole search is a sequence of moves (`Moves`): steps along its path and, where the path is
empty, the start at the next node that has not been visited. What holds of every state on the way
(`Reached`) is proved move by move, from a list of what one step can do (`Kind`):

* `Shaped`: the path is a chain of edges without repetition, the flags agree with it, and what is
  pending are edges;
* `Explored`: an edge from a visited node leads to a visited node or is still to be followed;
* `Sound`: a marked node lies on a simple circuit of marked nodes.

A mark covers exactly one simple circuit (`exists_circuit_mark`). The search goes through such
states only (`reached_exploreAll`), and in the end it has visited every node
(`isVisited_exploreAll`).
-/

namespace ModuleAtlas.Search

open Relation

variable {adjacency : Array (List Nat)} {s t : Search}

def isMarked (s : Search) (v : Nat) : Bool := s.circular.getD v false

/-- The nodes of the path, the one that the search is at first. -/
def pathNodes (s : Search) : List Nat := s.path.map (·.node)

/-- The edge from `u` to `w` is still to be followed. -/
def Awaits (s : Search) (u w : Nat) : Prop := ∃ f ∈ s.path, f.node = u ∧ w ∈ f.pending

/-! ### What a move can do -/

/-- One move of the whole search. -/
inductive Moves (adjacency : Array (List Nat)) : Search → Search → Prop
  | step {s : Search} (hp : s.path ≠ []) : Moves adjacency s (step adjacency s)
  | start {s : Search} {v : Nat} (hp : s.path = []) (hv : s.isVisited v = false)
    (hall : ∀ u < v, s.isVisited u = true) : Moves adjacency s (enter adjacency v s)

/-- The kinds of move, by what is at the end of the path. -/
inductive Kind (adjacency : Array (List Nat)) (s : Search) : Search → Prop
  | start {v : Nat} (hp : s.path = []) (hv : s.isVisited v = false)
    (hall : ∀ u < v, s.isVisited u = true) : Kind adjacency s (enter adjacency v s)
  | leave {v : Nat} {above : List Frame} (hp : s.path = ⟨v, []⟩ :: above) :
    Kind adjacency s { s with onPath := s.onPath.setIfInBounds v false, path := above }
  | descend {v w : Nat} {ws : List Nat} {above : List Frame} (hp : s.path = ⟨v, w :: ws⟩ :: above)
    (hw : s.isVisited w = false) :
    Kind adjacency s (enter adjacency w { s with path := ⟨v, ws⟩ :: above })
  | close {v w : Nat} {ws : List Nat} {above : List Frame} (hp : s.path = ⟨v, w :: ws⟩ :: above)
    (hw : s.isVisited w = true) (hon : s.isOnPath w = true) :
    Kind adjacency s (mark w { s with path := ⟨v, ws⟩ :: above })
  | skip {v w : Nat} {ws : List Nat} {above : List Frame} (hp : s.path = ⟨v, w :: ws⟩ :: above)
    (hw : s.isVisited w = true) (hon : s.isOnPath w = false) :
    Kind adjacency s { s with path := ⟨v, ws⟩ :: above }

theorem kind_step (h : s.path ≠ []) : Kind adjacency s (step adjacency s) := by
  unfold step
  split
  · contradiction
  · next v above hp => exact .leave hp
  · next v w ws above hp =>
    dsimp only
    split
    · next hw => exact .descend hp (by simpa [isVisited] using hw)
    · next hw =>
      have hw : s.isVisited w = true := by simpa [isVisited] using hw
      split
      · next hon => exact .close hp hw hon
      · next hon => exact .skip hp hw (by simpa [isOnPath] using hon)

theorem Moves.kind (h : Moves adjacency s t) : Kind adjacency s t := by
  cases h with
  | step hp => exact kind_step hp
  | start hp hv hall => exact .start hp hv hall

/-- The search comes through this state. -/
def Reached (adjacency : Array (List Nat)) (s : Search) : Prop :=
  ReflTransGen (Moves adjacency) (fresh adjacency.size) s

/-! ### Flags and edges after a move -/

theorem isVisited_enter {w v : Nat} :
    (enter adjacency w s).isVisited v = true ↔ v = w ∨ s.isVisited v = true := by
  simp only [isVisited, enter, Array.getD_eq_getD_getElem?, Array.getElem?_setIfInBounds]
  by_cases h : w = v
  · subst h
    by_cases hw : w < s.visited.size <;> simp [hw]
  · simp [h, Ne.symm h]

theorem isOnPath_enter {w v : Nat} (hw : w < s.onPath.size) :
    (enter adjacency w s).isOnPath v = true ↔ v = w ∨ s.isOnPath v = true := by
  simp only [isOnPath, enter, Array.getD_eq_getD_getElem?, Array.getElem?_setIfInBounds]
  by_cases h : w = v
  · subst h
    simp [hw]
  · simp [h, Ne.symm h]

theorem pathNodes_enter {w : Nat} : (enter adjacency w s).pathNodes = w :: s.pathNodes := rfl

theorem awaits_enter {w u x : Nat} :
    (enter adjacency w s).Awaits u x ↔ (u = w ∧ Arc adjacency w x) ∨ s.Awaits u x := by
  simp [Awaits, enter, Arc, eq_comm]

theorem awaits_drop {v w u x : Nat} {ws : List Nat} {above : List Frame}
    (hp : s.path = ⟨v, w :: ws⟩ :: above) :
    s.Awaits u x ↔ (u = v ∧ x = w) ∨ { s with path := ⟨v, ws⟩ :: above }.Awaits u x := by
  simp only [Awaits, hp, List.mem_cons, exists_eq_or_imp, eq_comm (a := u)]
  tauto

theorem awaits_leave {v u x : Nat} {above : List Frame} {onPath : Array Bool}
    (hp : s.path = ⟨v, []⟩ :: above) :
    s.Awaits u x ↔ { s with onPath, path := above }.Awaits u x := by
  simp [Awaits, hp]

theorem isVisited_moves (h : Moves adjacency s t) {v : Nat} (hv : s.isVisited v = true) :
    t.isVisited v = true := by
  cases h.kind with
  | leave | close | skip => exact hv
  | start | descend => exact isVisited_enter.2 (.inr hv)

theorem isVisited_reaches (h : ReflTransGen (Moves adjacency) s t) {v : Nat}
    (hv : s.isVisited v = true) : t.isVisited v = true := by
  induction h with
  | refl => exact hv
  | tail _ hm ih => exact isVisited_moves hm ih

/-! ### The shape of a state -/

/-- The path is a chain of edges that passes no node twice; the flags agree with it. -/
structure Shaped (adjacency : Array (List Nat)) (s : Search) : Prop where
  visited_size : s.visited.size = adjacency.size
  onPath_size : s.onPath.size = adjacency.size
  circular_size : s.circular.size = adjacency.size
  nodup : s.pathNodes.Nodup
  onPath_iff : ∀ v, s.isOnPath v = true ↔ v ∈ s.pathNodes
  visited_of_mem : ∀ v ∈ s.pathNodes, v < adjacency.size ∧ s.isVisited v = true
  chain : s.pathNodes.IsChain fun child parent => Arc adjacency parent child
  pending : ∀ {u w}, s.Awaits u w → Arc adjacency u w

theorem lt_size_of_unvisited {v : Nat} (h : s.isVisited v = false) : v < s.visited.size := by
  by_contra hv
  simp [isVisited, hv] at h

theorem shaped_fresh : Shaped adjacency (fresh adjacency.size) where
  visited_size := by simp [fresh]
  onPath_size := by simp [fresh]
  circular_size := by simp [fresh]
  nodup := by simp [fresh, pathNodes]
  onPath_iff v := by
    by_cases hv : v < adjacency.size <;> simp [fresh, isOnPath, pathNodes, hv]
  visited_of_mem := by simp [fresh, pathNodes]
  chain := by simp [fresh, pathNodes]
  pending := by simp [fresh, Awaits]

namespace Shaped

/-- What is not pending on the path need not be remembered. -/
theorem drop {v w : Nat} {ws : List Nat} {above : List Frame} (h : Shaped adjacency s)
    (hp : s.path = ⟨v, w :: ws⟩ :: above) :
    Shaped adjacency { s with path := ⟨v, ws⟩ :: above } := by
  have hn : { s with path := ⟨v, ws⟩ :: above }.pathNodes = s.pathNodes := by simp [pathNodes, hp]
  exact ⟨h.visited_size, h.onPath_size, h.circular_size, hn ▸ h.nodup,
    fun x => hn ▸ h.onPath_iff x, fun x hx => h.visited_of_mem x (hn ▸ hx), hn ▸ h.chain,
    fun ha => h.pending ((awaits_drop hp).2 (.inr ha))⟩

theorem enter {w : Nat} (h : Shaped adjacency s) (hw : s.isVisited w = false)
    (harc : ∀ v ∈ s.pathNodes.head?, Arc adjacency v w) :
    Shaped adjacency (enter adjacency w s) := by
  have hlt : w < adjacency.size := h.visited_size ▸ lt_size_of_unvisited hw
  have hnot : w ∉ s.pathNodes := fun hm => by simp [(h.visited_of_mem w hm).2] at hw
  refine ⟨by simp [Search.enter, h.visited_size], by simp [Search.enter, h.onPath_size],
    h.circular_size, ?_, fun x => ?_, fun x hx => ?_, ?_, fun ha => ?_⟩
  · rw [pathNodes_enter]
    exact List.nodup_cons.2 ⟨hnot, h.nodup⟩
  · rw [isOnPath_enter (h.onPath_size ▸ hlt), pathNodes_enter, List.mem_cons, h.onPath_iff]
  · rw [pathNodes_enter] at hx
    rcases List.mem_cons.1 hx with rfl | hx
    · exact ⟨hlt, isVisited_enter.2 (.inl rfl)⟩
    · exact ⟨(h.visited_of_mem x hx).1, isVisited_enter.2 (.inr (h.visited_of_mem x hx).2)⟩
  · rw [pathNodes_enter]
    exact List.isChain_cons.2 ⟨harc, h.chain⟩
  · rcases awaits_enter.1 ha with ⟨rfl, harc⟩ | ha
    · exact harc
    · exact h.pending ha

theorem leave {v : Nat} {above : List Frame} (h : Shaped adjacency s)
    (hp : s.path = ⟨v, []⟩ :: above) :
    Shaped adjacency { s with onPath := s.onPath.setIfInBounds v false, path := above } := by
  have hn : s.pathNodes = v :: above.map (·.node) := by simp [pathNodes, hp]
  have hnd := h.nodup
  rw [hn, List.nodup_cons] at hnd
  refine ⟨h.visited_size, by simp [h.onPath_size], h.circular_size, hnd.2, fun x => ?_,
    fun x hx => h.visited_of_mem x (hn ▸ List.mem_cons_of_mem _ hx), ?_,
    fun ha => h.pending ((awaits_leave hp).2 ha)⟩
  · have hx := h.onPath_iff x
    rw [hn, List.mem_cons] at hx
    simp only [isOnPath, Array.getD_eq_getD_getElem?, Array.getElem?_setIfInBounds, pathNodes]
      at hx ⊢
    by_cases hv : v = x
    · subst hv
      by_cases hlt : v < s.onPath.size <;> simp [hlt, hnd.1]
    · simpa [hv, Ne.symm hv] using hx
  · have hc := h.chain
    rw [hn] at hc
    exact hc.tail

theorem mark {w : Nat} (h : Shaped adjacency s) : Shaped adjacency (mark w s) := by
  have hsize (l : List Nat) (a : Array Bool) :
      (l.foldl (fun c v => c.setIfInBounds v true) a).size = a.size := by
    induction l generalizing a with
    | nil => rfl
    | cons v l ih => rw [List.foldl_cons, ih, Array.size_setIfInBounds]
  exact ⟨h.visited_size, h.onPath_size, (hsize _ _).trans h.circular_size, h.nodup, h.onPath_iff,
    h.visited_of_mem, h.chain, h.pending⟩

theorem moves (h : Shaped adjacency s) (hm : Moves adjacency s t) : Shaped adjacency t := by
  cases hm.kind with
  | start hp hv => exact h.enter hv (by simp [pathNodes, hp])
  | leave hp => exact h.leave hp
  | @descend v w _ _ hp hw =>
    refine (h.drop hp).enter (by simpa [isVisited] using hw) fun x hx => ?_
    have hx : v = x := by simpa [pathNodes] using hx
    exact hx ▸ h.pending ((awaits_drop hp).2 (.inl ⟨rfl, rfl⟩))
  | close hp => exact (h.drop hp).mark
  | skip hp => exact h.drop hp

end Shaped

theorem shaped_of_reached (h : Reached adjacency s) : Shaped adjacency s := by
  induction h with
  | refl => exact shaped_fresh
  | tail _ hm ih => exact ih.moves hm

/-- An edge from a visited node leads to one, or is still to be followed. -/
def Explored (adjacency : Array (List Nat)) (s : Search) : Prop :=
  ∀ u w, s.isVisited u = true → Arc adjacency u w → s.isVisited w = true ∨ s.Awaits u w

theorem explored_fresh : Explored adjacency (fresh adjacency.size) := by
  intro u w hu harc
  simp [fresh, isVisited, harc.lt_size] at hu

theorem Explored.moves (h : Explored adjacency s) (hm : Moves adjacency s t) :
    Explored adjacency t := by
  intro u x hu harc
  cases hm.kind with
  | start =>
    rw [isVisited_enter] at hu ⊢
    rw [awaits_enter]
    rcases hu with rfl | hu
    · exact .inr (.inl ⟨rfl, harc⟩)
    · exact (h u x hu harc).imp .inr .inr
  | leave hp => exact (h u x hu harc).imp_right (awaits_leave hp).1
  | descend hp =>
    rw [isVisited_enter] at hu ⊢
    rw [awaits_enter]
    rcases hu with rfl | hu
    · exact .inr (.inl ⟨rfl, harc⟩)
    · rcases h u x hu harc with hx | hx
      · exact .inl (.inr hx)
      · rcases (awaits_drop hp).1 hx with ⟨-, rfl⟩ | hx
        · exact .inl (.inl rfl)
        · exact .inr (.inr hx)
  | close hp hw | skip hp hw =>
    rcases h u x hu harc with hx | hx
    · exact .inl hx
    · rcases (awaits_drop hp).1 hx with ⟨-, rfl⟩ | hx
      · exact .inl hw
      · exact .inr hx

theorem explored_of_reached (h : Reached adjacency s) : Explored adjacency s := by
  induction h with
  | refl => exact explored_fresh
  | tail _ hm ih => exact ih.moves hm

/-! ### Marks -/

theorem upTo?_eq_some {w : Nat} {path : List Frame} (h : w ∈ path.map (·.node)) :
    ∃ l rest, upTo? w path = some (l ++ [w]) ∧ path.map (·.node) = l ++ w :: rest := by
  induction path with
  | nil => simp at h
  | cons f fs ih =>
    by_cases hf : f.node = w
    · exact ⟨[], fs.map (·.node), by simp [upTo?, hf]⟩
    · have hw : w ∈ fs.map (·.node) := by simpa [Ne.symm hf] using h
      obtain ⟨l, rest, hl, hr⟩ := ih hw
      exact ⟨f.node :: l, rest, by simp [upTo?, hf, hl], by simp [hr]⟩

theorem getD_foldl_set (l : List Nat) (a : Array Bool) (x : Nat) :
    (l.foldl (fun c v => c.setIfInBounds v true) a).getD x false = true ↔
      a.getD x false = true ∨ (x ∈ l ∧ x < a.size) := by
  induction l generalizing a with
  | nil => simp
  | cons v l ih =>
    rw [List.foldl_cons, ih]
    simp only [Array.getD_eq_getD_getElem?, Array.getElem?_setIfInBounds, Array.size_setIfInBounds,
      List.mem_cons]
    by_cases hv : v = x
    · subst hv
      by_cases hlt : v < a.size <;> simp [hlt]
    · simp [hv, Ne.symm hv]

theorem isMarked_mark {w x : Nat} (h : s.isMarked x = true) : (mark w s).isMarked x = true :=
  (getD_foldl_set _ _ _).2 (.inl h)

/-- An edge back to a node of the path marks exactly the simple circuit that it closes. -/
theorem exists_circuit_mark {v w : Nat} {ws : List Nat} {above : List Frame}
    (hs : Shaped adjacency s) (hp : s.path = ⟨v, ws⟩ :: above) (harc : Arc adjacency v w)
    (hw : w ∈ s.pathNodes) :
    ∃ c : Circuit (Arc adjacency), c.IsSimple ∧ (v, w) ∈ c.arcs ∧
      ∀ x, (mark w s).isMarked x = true ↔ s.isMarked x = true ∨ x ∈ c := by
  obtain ⟨l, rest, hup, hl⟩ := upTo?_eq_some hw
  have hnodes : s.pathNodes = (l ++ [w]) ++ rest := by simp [pathNodes, hl]
  have hrev : (l ++ [w]).reverse = w :: l.reverse := by simp
  have hchain : (w :: l.reverse).IsChain (Arc adjacency) := by
    have hc := hs.chain
    rw [hnodes] at hc
    rw [← hrev, List.isChain_reverse]
    exact hc.left_of_append
  have hnodup : (w :: l.reverse).Nodup := by
    have hn := hs.nodup
    rw [hnodes] at hn
    rw [← hrev, List.nodup_reverse]
    exact hn.of_append_left
  have hlast : (w :: l.reverse).getLast (List.cons_ne_nil _ _) = v := by
    have hhead : s.pathNodes.head? = some v := by simp [pathNodes, hp]
    rw [hnodes, List.head?_append_of_ne_nil _ (by simp)] at hhead
    rw [← Option.some_inj, ← List.getLast?_eq_some_getLast, ← hrev, List.getLast?_reverse, hhead]
  have hback : Arc adjacency ((w :: l.reverse).getLast (List.cons_ne_nil _ _)) w := hlast ▸ harc
  refine ⟨.ofList w l.reverse hchain hback, Circuit.isSimple_ofList hchain hback hnodup,
    hlast ▸ Circuit.back_mem_arcs hchain hback, fun x => ?_⟩
  have hmem : x ∈ l ++ [w] → x < s.circular.size := fun hx => by
    rw [hs.circular_size]
    exact (hs.visited_of_mem x (hnodes ▸ List.mem_append_left _ hx)).1
  rw [Circuit.mem_ofList, ← hrev, List.mem_reverse]
  simp only [isMarked, mark, hup, Option.getD_some, getD_foldl_set]
  tauto

/-- The edge lies on a simple circuit of marked nodes. -/
def Closed (adjacency : Array (List Nat)) (s : Search) (u v : Nat) : Prop :=
  ∃ c : Circuit (Arc adjacency), c.IsSimple ∧ (u, v) ∈ c.arcs ∧ ∀ w ∈ c, s.isMarked w = true

theorem isMarked_moves (h : Moves adjacency s t) {v : Nat} (hv : s.isMarked v = true) :
    t.isMarked v = true := by
  cases h.kind with
  | start | leave | descend | skip => exact hv
  | close => exact isMarked_mark hv

theorem Closed.moves {u v : Nat} (h : Closed adjacency s u v) (hm : Moves adjacency s t) :
    Closed adjacency t u v := by
  obtain ⟨c, hc, ha, hall⟩ := h
  exact ⟨c, hc, ha, fun w hw => isMarked_moves hm (hall w hw)⟩

/-- Marks are made along circuits of marked nodes only. -/
def Sound (adjacency : Array (List Nat)) (s : Search) : Prop :=
  ∀ v, s.isMarked v = true → ∃ w, Closed adjacency s v w

theorem Sound.moves (h : Sound adjacency s) (hs : Shaped adjacency s) (hm : Moves adjacency s t) :
    Sound adjacency t := by
  intro x hx
  have hold (hx : s.isMarked x = true) : ∃ w, Closed adjacency t x w :=
    (h x hx).imp fun _ hc => hc.moves hm
  cases hm.kind with
  | start | leave | descend | skip => exact hold hx
  | @close v w ws above hp _ hon =>
    obtain ⟨c, hc, -, hmark⟩ := exists_circuit_mark (hs.drop hp) rfl
      (hs.pending ((awaits_drop hp).2 (.inl ⟨rfl, rfl⟩)))
      (((hs.drop hp).onPath_iff w).1 (by simpa [isOnPath] using hon))
    rcases (hmark x).1 hx with hx | hx
    · exact hold hx
    · obtain ⟨y, hy⟩ := Circuit.exists_arc hx
      exact ⟨y, c, hc, hy, fun z hz => (hmark z).2 (.inr hz)⟩

theorem sound_of_reached (h : Reached adjacency s) : Sound adjacency s := by
  induction h with
  | refl =>
    intro v hv
    by_cases hlt : v < adjacency.size <;> simp [fresh, isMarked, hlt] at hv
  | tail hr hm ih => exact ih.moves (shaped_of_reached hr) hm

/-! ### The whole search -/

theorem reaches_run (adjacency : Array (List Nat)) (s : Search) :
    ReflTransGen (Moves adjacency) s (run adjacency s) ∧ (run adjacency s).path = [] := by
  induction s using run.induct adjacency with
  | case1 s hp =>
    rw [run, hp]
    exact ⟨.refl, hp⟩
  | case2 s f fs hp ih =>
    rw [run, hp]
    exact ⟨.head (.step (by simp [hp])) ih.1, ih.2⟩

/-- The search from the first `k` nodes comes through the states of the whole search, and visits
these nodes. -/
theorem reached_explore (adjacency : Array (List Nat)) (k : Nat) :
    let s := (List.range k).foldl (explore adjacency) (fresh adjacency.size)
    Reached adjacency s ∧ s.path = [] ∧ ∀ v < k, s.isVisited v = true := by
  induction k with
  | zero => exact ⟨.refl, rfl, by simp⟩
  | succ k ih =>
    obtain ⟨hr, hp, hall⟩ := ih
    simp only [List.range_succ, List.foldl_append, List.foldl_cons, List.foldl_nil]
    generalize (List.range k).foldl (explore adjacency) (fresh adjacency.size) = s at hr hp hall ⊢
    unfold explore
    split
    · next hk =>
      refine ⟨hr, hp, fun v hv => ?_⟩
      rcases Nat.lt_succ_iff_lt_or_eq.1 hv with hv | rfl
      · exact hall v hv
      · exact hk
    · next hk =>
      have hm : Moves adjacency s (enter adjacency k s) := .start hp (by simpa using hk) hall
      obtain ⟨hrun, hpath⟩ := reaches_run adjacency (enter adjacency k s)
      refine ⟨(hr.tail hm).trans hrun, hpath, fun v hv => isVisited_reaches hrun ?_⟩
      rw [isVisited_enter]
      rcases Nat.lt_succ_iff_lt_or_eq.1 hv with hv | rfl
      · exact .inr (hall v hv)
      · exact .inl rfl

theorem reached_exploreAll (adjacency : Array (List Nat)) :
    Reached adjacency (exploreAll adjacency) :=
  (reached_explore adjacency adjacency.size).1

theorem path_exploreAll (adjacency : Array (List Nat)) : (exploreAll adjacency).path = [] :=
  (reached_explore adjacency adjacency.size).2.1

theorem isVisited_exploreAll (adjacency : Array (List Nat)) (v : Nat) :
    (exploreAll adjacency).isVisited v = true := by
  by_cases hv : v < adjacency.size
  · exact (reached_explore adjacency adjacency.size).2.2 v hv
  · simp [isVisited, (shaped_of_reached (reached_exploreAll adjacency)).visited_size, hv]

end ModuleAtlas.Search
