import ModuleAtlas.Proofs.Graph.Circuit
import ModuleAtlas.Proofs.Layout.Schedule

/-!
# Ranks read off the graph

A ranking keeps an edge if it places the source first; the rank of a node is then the length of the
longest walk of kept edges to it. Which edges are kept can be told from the graph: the source of an
edge to `v` is placed later if and only if it is `Held` at `v`, on a circuit of nodes not lower than
`v` or behind one.

* `before_iff_not_held`: the source of an edge is placed first if and only if it is not held;
* `keptWalk_iff_le_rankOf`: the lengths of kept walks to a node are those up to its rank.
-/

namespace ModuleAtlas

open Relation

variable {adjacency : Array (List Nat)} {rank : Nat → Nat} {order pre pre' : List Nat}
  {k u v w : Nat}

/-- An edge between different nodes, none of them lower than `v`. -/
def Above (adjacency : Array (List Nat)) (v a b : Nat) : Prop :=
  Arc adjacency a b ∧ a ≠ b ∧ v ≤ a ∧ v ≤ b

/-- `u` is on a circuit of nodes not lower than `v`, or such a circuit leads to it without passing
a lower node. -/
def Held (adjacency : Array (List Nat)) (v u : Nat) : Prop :=
  ∃ c : Circuit (Above adjacency v), ∃ x ∈ c, ReflTransGen (Above adjacency v) x u

/-- An edge whose source is not held at its target, and so is placed first. -/
def Kept (adjacency : Array (List Nat)) (u v : Nat) : Prop :=
  Arc adjacency u v ∧ u ≠ v ∧ ¬ Held adjacency v u

/-- A walk of kept edges leads to the node, of the given length. -/
inductive KeptWalk (adjacency : Array (List Nat)) : Nat → Nat → Prop
  | nil (v : Nat) : KeptWalk adjacency 0 v
  | snoc {k u v : Nat} : KeptWalk adjacency k u → Kept adjacency u v → KeptWalk adjacency (k + 1) v

/-! ### Held nodes -/

theorem Above.succ (h : Above adjacency v u w) (hu : u ≠ v) (hw : w ≠ v) :
    Above adjacency (v + 1) u w :=
  ⟨h.1, h.2.1, Nat.lt_of_le_of_ne h.2.2.1 (Ne.symm hu), Nat.lt_of_le_of_ne h.2.2.2 (Ne.symm hw)⟩

namespace Held

/-- A held node is held by another one. -/
theorem exists_pred (h : Held adjacency v u) : ∃ w, Held adjacency v w ∧ Above adjacency v w u := by
  obtain ⟨c, x, hx, hxu⟩ := h
  rcases ReflTransGen.cases_tail hxu with rfl | ⟨w, hxw, hwu⟩
  · obtain ⟨w, hw⟩ := Circuit.exists_arc_into hx
    exact ⟨w, ⟨c, w, (Circuit.mem_of_arc hw).1, .refl⟩, Circuit.rel_of_arc hw⟩
  · exact ⟨w, ⟨c, x, hx, hxw⟩, hwu⟩

theorem le (h : Held adjacency v u) : v ≤ u := by
  obtain ⟨_, -, -, -, -, hle⟩ := h.exists_pred
  exact hle

/-- If no walk leads back to `u`, the node `v` itself is not among those that hold it. -/
theorem succ (h : Held adjacency v u) (hback : ¬ ReflTransGen (Arc adjacency) v u) :
    Held adjacency (v + 1) u := by
  have hne {x : Nat} (hx : ReflTransGen (Above adjacency v) x u) : x ≠ v := by
    rintro rfl
    exact hback (ReflTransGen.mono (fun _ _ h => h.1) _ _ hx)
  have hwalk {x : Nat} (hx : ReflTransGen (Above adjacency v) x u) :
      ReflTransGen (Above adjacency (v + 1)) x u := by
    induction hx using ReflTransGen.head_induction_on with
    | refl => exact .refl
    | head hxy hyu ih => exact .head (hxy.succ (hne (.head hxy hyu)) (hne hyu)) ih
  obtain ⟨c, _, ⟨j, rfl⟩, hu⟩ := h
  have hc (i) : c.node i ≠ v :=
    hne ((ReflTransGen.mono (fun _ _ h => h.1) _ _ (c.reaches i j)).trans hu)
  exact ⟨⟨c.last, c.node, fun i => (c.link i).succ (hc i) (hc (i + 1))⟩, c.node j, ⟨j, rfl⟩,
    hwalk hu⟩

end Held

/-! ### The order of placement -/

/-- The first of two nodes is placed before the second. -/
def Before (order : List Nat) (u v : Nat) : Prop := ∃ pre, v :: pre <:+ order ∧ u ∈ pre

theorem exists_suffix (hv : v ∈ order) : ∃ pre, v :: pre <:+ order := by
  obtain ⟨l, pre, rfl⟩ := List.append_of_mem hv
  exact ⟨pre, l, rfl⟩

/-- Of the nodes with a property, one is placed first. -/
theorem exists_first {P : Nat → Prop} (h : ∃ v ∈ order, P v) :
    ∃ w pre, w :: pre <:+ order ∧ P w ∧ ∀ x ∈ pre, ¬ P x := by
  induction order with
  | nil => simp at h
  | cons a order ih =>
    by_cases hearlier : ∃ v ∈ order, P v
    · obtain ⟨w, pre, hw, hall⟩ := ih hearlier
      exact ⟨w, pre, hw.trans (List.suffix_cons a order), hall⟩
    · have ha : P a := by
        obtain ⟨v, hv, hP⟩ := h
        rcases List.mem_cons.1 hv with rfl | hv
        · exact hP
        · exact absurd ⟨v, hv, hP⟩ hearlier
      exact ⟨a, order, List.suffix_rfl, ha, fun x hx hP => hearlier ⟨x, hx, hP⟩⟩

namespace Schedule

variable (h : Schedule adjacency rank order)
include h

theorem nodup_of_suffix (hv : v :: pre <:+ order) : (v :: pre).Nodup := h.nodup.sublist hv.sublist

theorem before_iff (hv : v :: pre <:+ order) : Before order u v ↔ u ∈ pre := by
  refine ⟨?_, fun hu => ⟨pre, hv, hu⟩⟩
  rintro ⟨pre', hv', hu⟩
  -- a node has its turn once
  rcases List.suffix_or_suffix_of_suffix hv hv' with hs | hs <;>
    rcases List.suffix_cons_iff.1 hs with he | hs
  · rwa [(List.cons.inj he).2]
  · exact absurd (hs.subset List.mem_cons_self) (List.nodup_cons.1 (h.nodup_of_suffix hv')).1
  · rwa [← (List.cons.inj he).2]
  · exact absurd (hs.subset List.mem_cons_self) (List.nodup_cons.1 (h.nodup_of_suffix hv)).1

theorem before_trans (huv : Before order u v) (hvw : Before order v w) : Before order u w := by
  obtain ⟨pre, hw, hv⟩ := hvw
  obtain ⟨pre', hv'⟩ := exists_suffix hv
  have hsuff : v :: pre' <:+ order := hv'.trans ((List.suffix_cons w pre).trans hw)
  exact ⟨pre, hw, hv'.subset (List.mem_cons_of_mem v ((h.before_iff hsuff).1 huv))⟩

/-- If the source of an edge is still missing, all nodes that are missing have another one of them
before them, and going back from the source ends on a circuit. -/
theorem held_of_not_before (hv : v ∈ order) (huv : Arc adjacency u v) (hne : u ≠ v)
    (hnot : ¬ Before order u v) : Held adjacency v u := by
  obtain ⟨pre, hpre⟩ := exists_suffix hv
  have hu : u ∉ pre := fun hu => hnot ⟨pre, hpre, hu⟩
  have hstuck : Stuck adjacency pre v :=
    (h.turn hpre).resolve_left fun hfree => hu (hfree u huv hne)
  refine exists_circuit_into (P := fun x => x < adjacency.size ∧ x ∉ pre) (fun x hx => hx.1)
    (fun x ⟨hx, hxpre⟩ => ?_) ⟨huv.lt_size, hu⟩
  obtain ⟨hle, hfree⟩ := hstuck x hx hxpre
  obtain ⟨y, hyx, hne, hy⟩ : ∃ y, Arc adjacency y x ∧ y ≠ x ∧ y ∉ pre := by
    simpa [Free] using hfree
  exact ⟨y, ⟨hyx.lt_size, hy⟩, hyx, hne, (hstuck y hyx.lt_size hy).1, hle⟩

/-- The held node that is placed first is still waiting for another one, so that it is the lowest
node that is missing; this can only be `v`, if that has not been placed before. -/
theorem not_before_of_held (hall : ∀ x < adjacency.size, x ∈ order) (hv : v < adjacency.size)
    (hu : u < adjacency.size) (hheld : Held adjacency v u) : ¬ Before order u v := by
  intro hbefore
  obtain ⟨w, pre, hpre, hw, hfirst⟩ := exists_first ⟨u, hall u hu, hheld⟩
  have hstuck : Stuck adjacency pre w := by
    refine (h.turn hpre).resolve_left fun hfree => ?_
    obtain ⟨y, hy, hyw, hne, -, -⟩ := hw.exists_pred
    exact hfirst y (hfree y hyw hne) hy
  have huw : Before order u w := by
    by_cases hvpre : v ∈ pre
    · exact h.before_trans hbefore ⟨pre, hpre, hvpre⟩
    · obtain ⟨_, -, -, -, -, hle⟩ := hw.exists_pred
      rwa [Nat.le_antisymm (hstuck v hv hvpre).1 hle]
  exact hfirst u ((h.before_iff hpre).1 huw) hheld

section Complete

variable (hall : ∀ x < adjacency.size, x ∈ order) (hv : v < adjacency.size)
include hall hv

/-- An edge is kept if and only if its source is not held. -/
theorem before_iff_not_held (huv : Arc adjacency u v) (hne : u ≠ v) :
    Before order u v ↔ ¬ Held adjacency v u := by
  constructor
  · exact fun hbefore hheld => h.not_before_of_held hall hv huv.lt_size hheld hbefore
  · intro hheld
    by_contra hnot
    exact hheld (h.held_of_not_before (hall v hv) huv hne hnot)

theorem lt_of_kept (huv : Kept adjacency u v) : rank u < rank v := by
  obtain ⟨pre, hpre, hu⟩ := (h.before_iff_not_held hall hv huv.1 huv.2.1).2 huv.2.2
  exact (h.tops hpre).lt u hu huv.1 huv.2.1

/-- A node that does not have rank 0 has its rank from an edge that is kept. -/
theorem exists_kept (hpos : rank v ≠ 0) : ∃ u, Kept adjacency u v ∧ rank v = rank u + 1 := by
  obtain ⟨pre, hpre⟩ := exists_suffix (hall v hv)
  obtain ⟨u, hu, harc, hne, he⟩ := (h.tops hpre).attained.resolve_left hpos
  exact ⟨u, ⟨harc, hne, (h.before_iff_not_held hall hv harc hne).1 ⟨pre, hpre, hu⟩⟩, he⟩

/-- By induction on the length. -/
theorem keptWalk_iff : KeptWalk adjacency k v ↔ k ≤ rank v := by
  induction k generalizing v with
  | zero => exact iff_of_true (.nil v) (Nat.zero_le _)
  | succ k ih =>
    constructor
    · rintro (_ | ⟨hwalk, hkept⟩)
      have hk := (ih hkept.1.lt_size).1 hwalk
      have hlt := h.lt_of_kept hall hv hkept
      omega
    · intro hk
      obtain ⟨u, hkept, he⟩ := h.exists_kept hall hv (by omega)
      exact .snoc ((ih hkept.1.lt_size).2 (by omega)) hkept

end Complete

end Schedule

/-! ### Ranks -/

theorem keptWalk_iff_le_rankOf (hv : v < adjacency.size) :
    KeptWalk adjacency k v ↔ k ≤ rankOf adjacency v := by
  obtain ⟨order, h, hall⟩ := exists_schedule adjacency
  exact h.keptWalk_iff hall hv

theorem rankOf_lt_of_kept (hv : v < adjacency.size) (huv : Kept adjacency u v) :
    rankOf adjacency u < rankOf adjacency v := by
  obtain ⟨order, h, hall⟩ := exists_schedule adjacency
  exact h.lt_of_kept hall hv huv

/-- Of two nodes the one has the lower rank to which there is no kept walk of some length that leads
to the other. -/
theorem rankOf_lt_iff (hu : u < adjacency.size) (hv : v < adjacency.size) :
    rankOf adjacency u < rankOf adjacency v ↔
      ∃ k, KeptWalk adjacency k v ∧ ¬ KeptWalk adjacency k u := by
  simp only [keptWalk_iff_le_rankOf hu, keptWalk_iff_le_rankOf hv, Nat.not_le]
  constructor
  · exact fun hlt => ⟨_, Nat.le_refl _, hlt⟩
  · rintro ⟨k, hk, hlt⟩
    omega

end ModuleAtlas
