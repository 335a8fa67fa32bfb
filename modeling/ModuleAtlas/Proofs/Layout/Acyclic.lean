import Mathlib
import ModuleAtlas.Proofs.Graph.Marking
import ModuleAtlas.Proofs.Layout.Rows

/-!
# Ranks without circuits

If no circuit goes through different nodes, no edge is left out of the ranking, and the rank of a
node is the number of edges on the longest way to it. So the ranks do not depend on how the nodes are
numbered.

* `rank_longest_way`: the ranks of such a graph are the lengths of longest ways, and a renumbering
  of the nodes renumbers them;
* `unmarked_iff_ranks_ascend`: all edges lead to higher ranks, and are drawn downwards, if and only
  if the search for circular imports marks nothing.
-/

namespace ModuleAtlas

open Relation

variable {adjacency : Array (List Nat)} {u v : Nat} {l : List Nat}

/-- An edge between different nodes. -/
def Joins (adjacency : Array (List Nat)) (u v : Nat) : Prop := Arc adjacency u v ∧ u ≠ v

/-- No circuit goes through different nodes. -/
def Acyclic (adjacency : Array (List Nat)) : Prop := IsEmpty (Circuit (Joins adjacency))

/-- No other node points to the node. -/
def IsSource (adjacency : Array (List Nat)) (v : Nat) : Prop := ∀ u, ¬ Joins adjacency u v

/-- Nodes on a way along the edges, from a source to `v` and through no node twice. -/
structure IsWay (adjacency : Array (List Nat)) (v : Nat) (l : List Nat) : Prop where
  chain : l.IsChain (Arc adjacency)
  nodup : l.Nodup
  source : ∀ u ∈ l.head?, IsSource adjacency u
  last : l.getLast? = some v

theorem acyclic_of_lt {f : Nat → Nat}
    (h : ∀ u < adjacency.size, ∀ v ∈ adjacency.getD u [], u ≠ v → f u < f v) : Acyclic adjacency :=
  isEmpty_circuit_of_lt fun u v huv => h u huv.1.lt_size v huv.1 huv.2

namespace Acyclic

variable (h : Acyclic adjacency)
include h

theorem kept (huv : Joins adjacency u v) : Kept adjacency u v := by
  refine ⟨huv.1, huv.2, ?_⟩
  rintro ⟨c, -, -, -⟩
  exact h.false (c.imp fun h => ⟨h.1, h.2.1⟩)

theorem rankOf_lt (hv : v < adjacency.size) (huv : Joins adjacency u v) :
    rankOf adjacency u < rankOf adjacency v :=
  rankOf_lt_of_kept hv (h.kept huv)

end Acyclic

/-- A node that does not have rank 0 has its rank from a node that points to it. -/
theorem exists_joins_of_rankOf_ne_zero (hv : v < adjacency.size) (hpos : rankOf adjacency v ≠ 0) :
    ∃ u, Joins adjacency u v ∧ rankOf adjacency v = rankOf adjacency u + 1 := by
  obtain ⟨order, h, hall⟩ := exists_schedule adjacency
  obtain ⟨u, hkept, he⟩ := h.exists_kept hall hv hpos
  exact ⟨u, ⟨hkept.1, hkept.2.1⟩, he⟩

/-! ### Ways -/

namespace IsWay

theorem singleton (hv : IsSource adjacency v) : IsWay adjacency v [v] :=
  ⟨List.isChain_singleton v, List.nodup_singleton v, by simpa using hv, rfl⟩

theorem ne_nil (h : IsWay adjacency v l) : l ≠ [] := by
  rintro rfl
  simpa using h.last

theorem concat (h : IsWay adjacency u l) (huv : Arc adjacency u v) (hv : v ∉ l) :
    IsWay adjacency v (l ++ [v]) := by
  refine ⟨?_, ?_, ?_, by simp⟩
  · refine List.isChain_append.2 ⟨h.chain, List.isChain_singleton v, ?_⟩
    simp [h.last, huv]
  · rw [← List.concat_eq_append]
    exact h.nodup.concat hv
  · rw [List.head?_append_of_ne_nil l h.ne_nil]
    exact h.source

end IsWay

namespace Acyclic

variable (h : Acyclic adjacency)
include h

/-- By induction on the way, from its end. -/
theorem length_le (hc : l.IsChain (Arc adjacency)) (hn : l.Nodup) (hlast : l.getLast? = some v)
    (hv : v < adjacency.size) : l.length ≤ rankOf adjacency v + 1 := by
  induction l using List.reverseRecOn generalizing v with
  | nil => simp
  | append_singleton l w ih =>
    obtain rfl : w = v := by simpa using hlast
    rw [List.length_append, List.length_singleton]
    cases hl : l.getLast? with
    | none => simp [List.getLast?_eq_none_iff.1 hl]
    | some u =>
      obtain ⟨hc, -, harc⟩ := List.isChain_append.1 hc
      have harc : Arc adjacency u w := by simpa [hl] using harc
      have hne : u ≠ w := by
        rintro rfl
        exact (List.nodup_append.1 hn).2.2 u (List.mem_of_getLast? hl) u (by simp) rfl
      have hle := ih hc hn.of_append_left hl harc.lt_size
      have hlt := h.rankOf_lt hv ⟨harc, hne⟩
      omega

/-- By induction on the rank: the way to a node that gives it its rank passes lower ranks only. -/
theorem exists_way (hv : v < adjacency.size) : ∃ l, IsWay adjacency v l ∧
    l.length = rankOf adjacency v + 1 ∧ ∀ u ∈ l, rankOf adjacency u ≤ rankOf adjacency v := by
  induction hk : rankOf adjacency v generalizing v with
  | zero =>
    refine ⟨[v], .singleton fun u hu => ?_, rfl, by simp [hk]⟩
    have hlt := h.rankOf_lt hv hu
    omega
  | succ k ih =>
    obtain ⟨u, hu, he⟩ := exists_joins_of_rankOf_ne_zero hv (by omega)
    obtain ⟨l, hl, hlen, hle⟩ := ih hu.1.lt_size (by omega)
    have hv' : v ∉ l := fun hmem => by
      have hle := hle v hmem
      omega
    refine ⟨l ++ [v], hl.concat hu.1 hv', by simp [hlen], fun w hw => ?_⟩
    rcases List.mem_append.1 hw with hw | hw
    · have hle := hle w hw
      omega
    · rw [List.mem_singleton.1 hw]
      omega

theorem isGreatest_way (hv : v < adjacency.size) :
    IsGreatest {k | ∃ l, IsWay adjacency v l ∧ l.length = k + 1} (rankOf adjacency v) := by
  constructor
  · obtain ⟨l, hl, hlen, -⟩ := h.exists_way hv
    exact ⟨l, hl, hlen⟩
  · rintro k ⟨l, hl, hlen⟩
    have hle := h.length_le hl.chain hl.nodup hl.last hv
    omega

end Acyclic

/-! ### Renumbering -/

/-- The entries put where a renumbering takes them. -/
def moved {β : Type} (σ : Equiv.Perm Nat) (a : Array β) (fallback : β) : Array β :=
  (Array.range a.size).map fun v => a.getD (σ.symm v) fallback

/-- The same graph with other numbers for its nodes. -/
def renumbered (σ : Equiv.Perm Nat) (adjacency : Array (List Nat)) : Array (List Nat) :=
  (moved σ adjacency []).map (List.map σ)

theorem size_renumbered (σ : Equiv.Perm Nat) (adjacency : Array (List Nat)) :
    (renumbered σ adjacency).size = adjacency.size := by
  simp [renumbered, moved]

section Renumbering

variable {σ : Equiv.Perm Nat} (hσ : ∀ v, σ v < adjacency.size ↔ v < adjacency.size)
include hσ

theorem arc_renumbered : Arc (renumbered σ adjacency) (σ u) (σ v) ↔ Arc adjacency u v := by
  by_cases hu : u < adjacency.size
  · simp [Arc, renumbered, moved, hσ, hu]
  · exact iff_of_false (fun h => hu ((hσ u).1 (by simpa [renumbered, moved] using h.lt_size)))
      fun h => hu h.lt_size

theorem joins_renumbered : Joins (renumbered σ adjacency) (σ u) (σ v) ↔ Joins adjacency u v := by
  rw [Joins, Joins, arc_renumbered hσ, σ.injective.ne_iff]

theorem isSource_renumbered : IsSource (renumbered σ adjacency) (σ v) ↔ IsSource adjacency v := by
  simp only [IsSource, ← joins_renumbered hσ]
  exact σ.surjective.forall

theorem isWay_renumbered :
    IsWay (renumbered σ adjacency) (σ v) (l.map σ) ↔ IsWay adjacency v l := by
  have hchain : (l.map σ).IsChain (Arc (renumbered σ adjacency)) ↔ l.IsChain (Arc adjacency) := by
    simp only [List.isChain_map, arc_renumbered hσ]
  have hsource : (∀ u ∈ (l.map σ).head?, IsSource (renumbered σ adjacency) u) ↔
      ∀ u ∈ l.head?, IsSource adjacency u := by
    simp [isSource_renumbered hσ]
  have hlast : (l.map σ).getLast? = some (σ v) ↔ l.getLast? = some v := by
    simp
  constructor
  · rintro ⟨hc, hn, hs, hl⟩
    exact ⟨hchain.1 hc, hn.of_map σ, hsource.1 hs, hlast.1 hl⟩
  · rintro ⟨hc, hn, hs, hl⟩
    exact ⟨hchain.2 hc, hn.map σ.injective, hsource.2 hs, hlast.2 hl⟩

theorem acyclic_renumbered (h : Acyclic adjacency) : Acyclic (renumbered σ adjacency) := by
  refine ⟨fun c => h.false ⟨c.last, σ.symm ∘ c.node, fun i => ?_⟩⟩
  rw [← joins_renumbered hσ]
  simpa using c.link i

theorem Acyclic.rankOf_renumbered (h : Acyclic adjacency) (hv : v < adjacency.size) :
    rankOf (renumbered σ adjacency) (σ v) = rankOf adjacency v := by
  have hv' : σ v < (renumbered σ adjacency).size := by
    rwa [size_renumbered, hσ]
  have hways : {k | ∃ l, IsWay (renumbered σ adjacency) (σ v) l ∧ l.length = k + 1} =
      {k | ∃ l, IsWay adjacency v l ∧ l.length = k + 1} := by
    ext k
    refine (List.map_surjective_iff.2 σ.surjective).exists.trans (exists_congr fun l => ?_)
    rw [isWay_renumbered hσ, List.length_map]
  exact (hways ▸ (acyclic_renumbered hσ h).isGreatest_way hv').unique (h.isGreatest_way hv)

theorem Acyclic.inferRanks_renumbered (h : Acyclic adjacency) :
    inferRanks (renumbered σ adjacency) = moved σ (inferRanks adjacency) 0 := by
  apply Array.ext
  · simp [size_inferRanks, size_renumbered, moved]
  · intro i hi _
    rw [size_inferRanks, size_renumbered] at hi
    have hv : σ.symm i < adjacency.size := by rwa [← hσ, σ.apply_symm_apply]
    have hr := h.rankOf_renumbered hσ hv
    rw [σ.apply_symm_apply] at hr
    simpa [moved, rankOf, size_inferRanks, size_renumbered, hi] using hr

end Renumbering

/-- Without circuits through different nodes, the rank of each node is the number of edges on the
longest way to it from a source. So if the nodes get other numbers, their ranks go with them. -/
theorem rank_longest_way (adjacency : Array (List Nat)) (hacyclic : Acyclic adjacency) :
    (inferRanks adjacency).size = adjacency.size ∧
    (∀ v < adjacency.size, IsGreatest {k | ∃ l, IsWay adjacency v l ∧ l.length = k + 1}
      (rankOf adjacency v)) ∧
    ∀ σ : Equiv.Perm Nat, (∀ v, σ v < adjacency.size ↔ v < adjacency.size) →
      inferRanks (renumbered σ adjacency) = moved σ (inferRanks adjacency) 0 :=
  ⟨size_inferRanks adjacency, fun _ hv => hacyclic.isGreatest_way hv,
    fun _ hσ => hacyclic.inferRanks_renumbered hσ⟩

/-- Edges 0 → 2 twice, 0 → 1, 2 → 1, 1 → 3 and 2 → 3, and from 0 to itself. -/
def shortcuts : Array (List Nat) := #[[2, 1, 2, 0], [3], [1, 3], []]

theorem acyclic_shortcuts : Acyclic shortcuts := by
  refine acyclic_of_lt (f := fun v => [0, 2, 1, 3].getD v 0) ?_
  decide

/-- The longest way to 3 has three edges, and still has when 3 has become 0. -/
theorem rank_longest_way_shortcuts : Acyclic shortcuts ∧
    IsGreatest {k | ∃ l, IsWay shortcuts 3 l ∧ l.length = k + 1} 3 ∧
    inferRanks (renumbered (Equiv.swap 0 3) shortcuts) = #[3, 2, 1, 0] := by
  obtain ⟨-, hways, hmoved⟩ := rank_longest_way shortcuts acyclic_shortcuts
  have hranks : inferRanks shortcuts = #[0, 2, 1, 3] := by cbv
  have hσ (v : Nat) : Equiv.swap 0 3 v < shortcuts.size ↔ v < shortcuts.size := by
    simp only [Equiv.swap_apply_def, show shortcuts.size = 4 from rfl]
    grind
  refine ⟨acyclic_shortcuts, ?_, ?_⟩
  · have h := hways 3 (by decide)
    rwa [rankOf, hranks] at h
  · rw [hmoved _ hσ, hranks]
    cbv

/-! ### Two notions of a circuit -/

namespace Graph

variable {α : Type} {g : Graph α}

theorem acyclic_successors (h : IsEmpty (Circuit g.Links)) : Acyclic g.successors :=
  ⟨fun c => h.false (arc_successors g ▸ c.imp fun h => h.1)⟩

/-- All edges lead to higher ranks if and only if there are no circuits. -/
theorem ranks_ascend_iff : (∀ u v, g.Links u v →
    rankOf g.successors u < rankOf g.successors v) ↔ IsEmpty (Circuit g.Links) := by
  refine ⟨isEmpty_circuit_of_lt, fun h u v huv => ?_⟩
  have hne : u ≠ v := by
    rintro rfl
    obtain ⟨c, -⟩ := exists_circuit_iff.2 (.single huv)
    exact h.false c
  refine (acyclic_successors h).rankOf_lt ?_ ⟨?_, hne⟩
  · rw [size_successors]
    exact huv.lt_length.2
  · rwa [arc_successors]

/-- No node is marked if and only if there are no circuits. -/
theorem unflagged_iff : (∀ v, ¬ g.markCycles.Flagged v) ↔ IsEmpty (Circuit g.Links) := by
  constructor
  · refine fun h => ⟨fun c => ?_⟩
    obtain ⟨v, -, hv⟩ := exists_flagged c
    exact h v hv
  · intro h v hv
    obtain ⟨c, -⟩ := exists_circuit_of_flagged hv
    exact h.false c

/-- The search for circular imports marks nothing if and only if all edges lead to higher ranks. So
a graph is reported to be free of circular imports if and only if all its edges point down. -/
theorem unmarked_iff_ranks_ascend (g : Graph α) :
    ((∀ v, ¬ g.markCycles.Flagged v) ↔
      ∀ u v, g.Links u v → rankOf g.successors u < rankOf g.successors v) ∧
    ∀ (g : Graph ℝ) (settings : LayoutSettings ℝ),
      0 < settings.nodeHeight + settings.rankSeparation →
      (g.markCycles.stats.circular = 0 ↔
        ∀ u v, g.Links u v → Layered.StandsAbove g settings u v) := by
  refine ⟨unflagged_iff.trans ranks_ascend_iff.symm, fun g settings hpos => ?_⟩
  rw [stats_circular_eq_zero, unflagged_iff, ← ranks_ascend_iff]
  refine forall₂_congr fun u v => forall_congr' fun huv => ?_
  exact (Layered.standsAbove_iff huv.lt_length.1 huv.lt_length.2 hpos).symm

/-- Edges a → b, a → c, b → d and c → d, and c → b across. -/
def lattice : Graph ℝ :=
  .ofFiles ⟨0, 0⟩ [⟨⟨[97]⟩, "a", [⟨[98]⟩, ⟨[99]⟩]⟩, ⟨⟨[98]⟩, "b", [⟨[100]⟩]⟩,
    ⟨⟨[99]⟩, "c", [⟨[98]⟩, ⟨[100]⟩]⟩, ⟨⟨[100]⟩, "d", []⟩]

/-- All edges of the lattice point down, but not all those of the tangle, since b and c import each
other. -/
theorem unmarked_iff_ranks_ascend_lattice :
    (∀ u v, lattice.Links u v → Layered.StandsAbove lattice .standard u v) ∧
    ¬ ∀ u v, Layered.tangle.Links u v → Layered.StandsAbove Layered.tangle .standard u v := by
  have hpos : (0 : ℝ) <
      LayoutSettings.standard.nodeHeight + LayoutSettings.standard.rankSeparation := by
    norm_num [LayoutSettings.standard]
  constructor
  · refine ((unmarked_iff_ranks_ascend lattice).2 lattice .standard hpos).1 ?_
    cbv
  · rw [← (unmarked_iff_ranks_ascend Layered.tangle).2 Layered.tangle .standard hpos]
    cbv

end Graph

end ModuleAtlas
