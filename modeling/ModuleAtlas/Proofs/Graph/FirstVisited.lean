import ModuleAtlas.Proofs.Graph.Search

/-!
# What the search finds from the first node of a circuit

Of a set of nodes, one is the first that the search visits (`existsUnique_visitsFirst`). While the
search is below this node `r`, it stays so until it has come through all that can be reached from
`r` in the set, and it follows the edges from there back to `r` while `r` is on its path. So each of
these edges closes a simple circuit, whose nodes are marked (`closed_of_visitsFirst`).

Two facts carry this from move to move: `Rooted` (the path goes through `r`, and what it passes
before `r` is not in the set) and `Attended` (an edge from a visited node of the set to `r` has
closed a circuit or is still to be followed).
-/

namespace ModuleAtlas.Search

open Relation

variable {adjacency : Array (List Nat)} {s t : Search} {S : Set Nat} {r : Nat}

/-- Of the nodes of `S`, the search visits `v` first: it moves there when it has visited none. -/
def VisitsFirst (adjacency : Array (List Nat)) (S : Set Nat) (v : Nat) : Prop :=
  v ∈ S ∧ ∃ s t, Reached adjacency s ∧ Moves adjacency s t ∧ (∀ u ∈ S, s.isVisited u = false) ∧
    t.isVisited v = true

/-! ### The order of the moves -/

theorem moves_rightUnique : Relator.RightUnique (Moves adjacency) := by
  intro s t t' h h'
  cases h with
  | step hp =>
    cases h' with
    | step => rfl
    | start hp' => contradiction
  | @start v hp hv hall =>
    cases h' with
    | step hp' => contradiction
    | @start v' _ hv' hall' =>
      rcases Nat.lt_trichotomy v v' with hlt | rfl | hlt
      · simp [hall' v hlt] at hv
      · rfl
      · simp [hall v' hlt] at hv'

/-- A move visits at most one node. -/
theorem visited_eq_of_moves (h : Moves adjacency s t) {v w : Nat} (hv : s.isVisited v = false)
    (hv' : t.isVisited v = true) (hw : s.isVisited w = false) (hw' : t.isVisited w = true) :
    v = w := by
  cases h.kind with
  | leave | close | skip => exact absurd (hv.symm.trans hv') Bool.false_ne_true
  | start | descend =>
    rw [isVisited_enter] at hv' hw'
    rcases hv' with rfl | hv'
    · rcases hw' with rfl | hw'
      · rfl
      · exact absurd (hw.symm.trans hw') Bool.false_ne_true
    · exact absurd (hv.symm.trans hv') Bool.false_ne_true

/-- Every state on the way leads to the end of the search. -/
theorem reaches_exploreAll (h : Reached adjacency s) :
    ReflTransGen (Moves adjacency) s (exploreAll adjacency) := by
  rcases ReflTransGen.total_of_right_unique moves_rightUnique h
    (reached_exploreAll adjacency) with hs | hs
  · exact hs
  · rcases ReflTransGen.cases_head hs with rfl | ⟨t, hm, -⟩
    · exact .refl
    · cases hm with
      | step hp => exact absurd (path_exploreAll adjacency) hp
      | start _ hv => simp [isVisited_exploreAll] at hv

theorem VisitsFirst.unique {v w : Nat} (hv : VisitsFirst adjacency S v)
    (hw : VisitsFirst adjacency S w) : v = w := by
  obtain ⟨hvS, s, t, hs, hst, hnone, hvt⟩ := hv
  obtain ⟨hwS, s', t', hs', hst', hnone', hwt⟩ := hw
  -- of two such moves at different states, the later one would find its node visited
  have later {a b a' : Search} {x : Nat} (hab : Moves adjacency a b)
      (haa : ReflTransGen (Moves adjacency) a a') (hx : b.isVisited x = true)
      (hnot : a'.isVisited x = false) : a = a' := by
    rcases ReflTransGen.cases_head haa with rfl | ⟨c, hac, hca⟩
    · rfl
    · obtain rfl := moves_rightUnique hab hac
      simp [isVisited_reaches hca hx] at hnot
  have hss : s = s' := by
    rcases ReflTransGen.total_of_right_unique moves_rightUnique hs hs' with h | h
    · exact later hst h hvt (hnone' v hvS)
    · exact (later hst' h hwt (hnone w hwS)).symm
  subst hss
  obtain rfl := moves_rightUnique hst hst'
  exact visited_eq_of_moves hst (hnone v hvS) hvt (hnone w hwS) hwt

theorem exists_visitsFirst (hne : S.Nonempty) (hlt : ∀ u ∈ S, u < adjacency.size) :
    ∃ v, VisitsFirst adjacency S v := by
  have hrun {s : Search} (h : Reached adjacency s) :
      (∀ u ∈ S, s.isVisited u = false) ∨ ∃ v, VisitsFirst adjacency S v := by
    induction h with
    | refl => exact .inl fun u hu => by simp [fresh, isVisited, hlt u hu]
    | @tail s t hr hm ih =>
      rcases ih with hnone | hv
      · by_cases hv : ∃ v ∈ S, t.isVisited v = true
        · obtain ⟨v, hvS, hv⟩ := hv
          exact .inr ⟨v, hvS, s, t, hr, hm, hnone, hv⟩
        · exact .inl fun u hu => by simpa using fun h => hv ⟨u, hu, h⟩
      · exact .inr hv
  rcases hrun (reached_exploreAll adjacency) with hnone | hv
  · obtain ⟨u, hu⟩ := hne
    simpa [isVisited_exploreAll] using hnone u hu
  · exact hv

theorem existsUnique_visitsFirst (hne : S.Nonempty) (hlt : ∀ u ∈ S, u < adjacency.size) :
    ∃ v ∈ S, ∀ w, VisitsFirst adjacency S w ↔ w = v := by
  obtain ⟨v, hv⟩ := exists_visitsFirst hne hlt
  exact ⟨v, hv.1, fun w => ⟨fun hw => hw.unique hv, fun hw => hw ▸ hv⟩⟩

/-! ### Below the first node -/

/-- The path goes through `r`, and passes no node of the set before. -/
def Rooted (S : Set Nat) (r : Nat) (s : Search) : Prop :=
  ∃ front above, s.pathNodes = front ++ r :: above ∧ ∀ x ∈ above, x ∉ S

/-- An edge from a visited node of the set to `r` has closed a circuit, or is to be followed. -/
def Attended (adjacency : Array (List Nat)) (S : Set Nat) (r : Nat) (s : Search) : Prop :=
  ∀ u ∈ S, s.isVisited u = true → Arc adjacency u r → Closed adjacency s u r ∨ s.Awaits u r

/-- All edges to `r` from what can be reached from it in the set have closed a circuit. -/
def Settled (adjacency : Array (List Nat)) (S : Set Nat) (r : Nat) (s : Search) : Prop :=
  ∀ u, ReflTransGen (fun a b => Arc adjacency a b ∧ b ∈ S) r u → Arc adjacency u r →
    Closed adjacency s u r

theorem Rooted.mem (h : Rooted S r s) : r ∈ s.pathNodes := by
  obtain ⟨front, above, hp, -⟩ := h
  simp [hp]

/-- A rooted path stays rooted until the search leaves `r`. -/
theorem Rooted.moves (h : Rooted S r s) (hm : Moves adjacency s t) :
    Rooted S r t ∨ ∃ above, s.path = ⟨r, []⟩ :: above ∧ ∀ f ∈ above, f.node ∉ S := by
  obtain ⟨front, above, hn, hS⟩ := h
  cases hm.kind with
  | start hp => simp [pathNodes, hp] at hn
  | @leave v rest hp =>
    have hv : v :: rest.map (·.node) = front ++ r :: above := by simpa [pathNodes, hp] using hn
    cases front with
    | nil =>
      obtain ⟨rfl, rfl⟩ := List.cons.inj hv
      exact .inr ⟨rest, hp, fun f hf => hS _ (List.mem_map_of_mem hf)⟩
    | cons x front => exact .inl ⟨front, above, (List.cons.inj hv).2, hS⟩
  | @descend v w _ _ hp =>
    refine .inl ⟨w :: front, above, ?_, hS⟩
    rw [pathNodes_enter, List.cons_append, ← hn]
    simp [pathNodes, hp]
  | close hp | skip hp =>
    refine .inl ⟨front, above, ?_, hS⟩
    rw [← hn]
    simp [pathNodes, mark, hp]

theorem Attended.moves (h : Attended adjacency S r s) (hs : Shaped adjacency s)
    (hr : r ∈ s.pathNodes) (hm : Moves adjacency s t) : Attended adjacency S r t := by
  intro u hu hvis harc
  have hold (hvis : s.isVisited u = true) : Closed adjacency t u r ∨ s.Awaits u r :=
    (h u hu hvis harc).imp_left fun hc => hc.moves hm
  cases hm.kind with
  | start hp => simp [pathNodes, hp] at hr
  | leave hp => exact (hold hvis).imp_right (awaits_leave hp).1
  | @descend v w _ _ hp hw =>
    rw [awaits_enter]
    rcases isVisited_enter.1 hvis with rfl | hvis
    · exact .inr (.inl ⟨rfl, harc⟩)
    · rcases hold hvis with hc | ha
      · exact .inl hc
      · rcases (awaits_drop hp).1 ha with ⟨-, rfl⟩ | ha
        · simp [(hs.visited_of_mem r hr).2] at hw
        · exact .inr (.inr ha)
  | @close v w _ _ hp _ hon =>
    rcases hold hvis with hc | ha
    · exact .inl hc
    · rcases (awaits_drop hp).1 ha with ⟨rfl, rfl⟩ | ha
      · obtain ⟨c, hc, hback, hmark⟩ := exists_circuit_mark (hs.drop hp) rfl harc
          (((hs.drop hp).onPath_iff r).1 (by simpa [isOnPath] using hon))
        exact .inl ⟨c, hc, hback, fun x hx => (hmark x).2 (.inr hx)⟩
      · exact .inr ha
  | skip hp _ hon =>
    rcases hold hvis with hc | ha
    · exact .inl hc
    · rcases (awaits_drop hp).1 ha with ⟨-, rfl⟩ | ha
      · simp [(hs.onPath_iff r).2 hr] at hon
      · exact .inr ha

/-- When the search is about to leave `r`, it has come through all that can be reached from `r` in
the set, and no edge from there is still to be followed. -/
theorem settled_of_leave {above : List Frame} (hr : r ∈ S) (hs : Shaped adjacency s)
    (he : Explored adjacency s) (ha : Attended adjacency S r s) (hp : s.path = ⟨r, []⟩ :: above)
    (hS : ∀ f ∈ above, f.node ∉ S) : Settled adjacency S r s := by
  intro u hu harc
  have hnone {x y : Nat} (hx : x ∈ S) : ¬ s.Awaits x y := by
    rintro ⟨f, hf, rfl, hy⟩
    rw [hp] at hf
    rcases List.mem_cons.1 hf with rfl | hf
    · simp at hy
    · exact hS f hf hx
  have hvis : u ∈ S ∧ s.isVisited u = true := by
    clear harc
    induction hu with
    | refl => exact ⟨hr, (hs.visited_of_mem r (by simp [pathNodes, hp])).2⟩
    | tail _ hxy ih => exact ⟨hxy.2, (he _ _ ih.2 hxy.1).resolve_right (hnone ih.1)⟩
  exact (ha u hvis.1 hvis.2 harc).resolve_right (hnone hvis.1)

theorem Settled.moves (h : Settled adjacency S r s) (hm : Moves adjacency s t) :
    Settled adjacency S r t :=
  fun u hu harc => (h u hu harc).moves hm

/-- When the search has just come to the first node of a set, its path is rooted there. -/
theorem VisitsFirst.rooted (h : VisitsFirst adjacency S r) :
    ∃ t, Reached adjacency t ∧ Rooted S r t ∧ Attended adjacency S r t := by
  obtain ⟨hr, s, t, hs, hm, hnone, hvis⟩ := h
  -- so far all edges from the set are to be followed, for only `r` has been visited
  have henter {w : Nat} {p : Search} (ht : t = enter adjacency w p)
      (hpv : ∀ x, p.isVisited x = s.isVisited x) (hpn : p.pathNodes = s.pathNodes) :
      Rooted S r t ∧ Attended adjacency S r t := by
    subst ht
    have hw {x : Nat} (hx : x ∈ S) (hv : (enter adjacency w p).isVisited x = true) : x = w :=
      (isVisited_enter.1 hv).resolve_right (by simp [hpv, hnone x hx])
    obtain rfl := hw hr hvis
    refine ⟨⟨[], p.pathNodes, rfl, fun x hx hxS => ?_⟩, fun u hu hv harc => ?_⟩
    · have := ((shaped_of_reached hs).visited_of_mem x (hpn ▸ hx)).2
      simp [hnone x hxS] at this
    · exact .inr (awaits_enter.2 (.inl ⟨hw hu hv, hw hu hv ▸ harc⟩))
  refine ⟨t, hs.tail hm, ?_⟩
  cases hm.kind with
  | start => exact henter rfl (fun _ => rfl) rfl
  | descend hp => exact henter rfl (fun _ => rfl) (by simp [pathNodes, hp])
  | leave | close | skip => exact absurd ((hnone r hr).symm.trans hvis) Bool.false_ne_true

/-- If the search visits `r` first in a set, every edge back to `r` from what can be reached in the
set lies on a simple circuit of marked nodes in the end. -/
theorem closed_of_visitsFirst (h : VisitsFirst adjacency S r) {u : Nat}
    (hu : ReflTransGen (fun a b => Arc adjacency a b ∧ b ∈ S) r u) (harc : Arc adjacency u r) :
    Closed adjacency (exploreAll adjacency) u r := by
  obtain ⟨t, ht, hroot, hatt⟩ := h.rooted
  have hrun {x : Search} (hx : ReflTransGen (Moves adjacency) t x) :
      (Rooted S r x ∧ Attended adjacency S r x) ∨ Settled adjacency S r x := by
    induction hx with
    | refl => exact .inl ⟨hroot, hatt⟩
    | tail hy hm ih =>
      have hr := ht.trans hy
      rcases ih with ⟨hroot, hatt⟩ | hset
      · rcases hroot.moves hm with hroot' | ⟨above, hp, hS⟩
        · exact .inl ⟨hroot', hatt.moves (shaped_of_reached hr) hroot.mem hm⟩
        · exact .inr ((settled_of_leave h.1 (shaped_of_reached hr) (explored_of_reached hr) hatt
            hp hS).moves hm)
      · exact .inr (hset.moves hm)
  rcases hrun (reaches_exploreAll ht) with ⟨hroot, -⟩ | hset
  · simpa [pathNodes, path_exploreAll] using hroot.mem
  · exact hset u hu harc

end ModuleAtlas.Search
