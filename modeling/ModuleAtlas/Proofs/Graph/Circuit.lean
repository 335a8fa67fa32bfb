import Mathlib.Algebra.Group.Fin.Basic
import Mathlib.Data.Finite.Prod
import Mathlib.Data.Fintype.Card
import Mathlib.Data.List.Chain
import Mathlib.Data.List.NodupEquivFin
import Mathlib.Data.Set.Operations
import Mathlib.Logic.Relation

/-!
# Circuits

A circuit of a relation is a closed walk along it: from each of its nodes to the next one, and from
the last one back to the first. A node that is related to itself is a circuit of its own.

* `Circuit.ofList` closes a chain to a circuit, a simple one if no node repeats;
* `exists_circuit_iff`: a node lies on a circuit if and only if a walk leads from it to itself, and
  then on a simple one (`exists_simple`);
* `Circuit.reaches`: on a circuit every node leads to every other without leaving it;
* `exists_circuit_into`: where each node of a finite set has one before it, all are reached from
  circuits.
-/

namespace ModuleAtlas

open Relation

/-- A closed walk; `node (i + 1)` follows `node i`, and the first node follows the last one. -/
structure Circuit (R : Nat → Nat → Prop) where
  last : Nat
  node : Fin (last + 1) → Nat
  link : ∀ i, R (node i) (node (i + 1))

namespace Circuit

variable {R : Nat → Nat → Prop}

/-- The nodes of a circuit. -/
def nodes (c : Circuit R) : Set Nat := Set.range c.node

instance : Membership Nat (Circuit R) := ⟨fun c v => v ∈ c.nodes⟩

/-- The steps of a circuit, each from a node to the next. -/
def arcs (c : Circuit R) : Set (Nat × Nat) := Set.range fun i => (c.node i, c.node (i + 1))

/-- No node of the circuit repeats. -/
def IsSimple (c : Circuit R) : Prop := Function.Injective c.node

theorem mem_iff {c : Circuit R} {v : Nat} : v ∈ c ↔ ∃ i, c.node i = v := Iff.rfl

theorem node_mem (c : Circuit R) (i : Fin (c.last + 1)) : c.node i ∈ c := ⟨i, rfl⟩

theorem mem_of_arc {c : Circuit R} {u v : Nat} (h : (u, v) ∈ c.arcs) : u ∈ c ∧ v ∈ c := by
  obtain ⟨i, hi⟩ := h
  obtain ⟨rfl, rfl⟩ := Prod.mk.inj hi
  exact ⟨c.node_mem i, c.node_mem (i + 1)⟩

theorem rel_of_arc {c : Circuit R} {u v : Nat} (h : (u, v) ∈ c.arcs) : R u v := by
  obtain ⟨i, hi⟩ := h
  obtain ⟨rfl, rfl⟩ := Prod.mk.inj hi
  exact c.link i

theorem exists_arc {c : Circuit R} {v : Nat} (h : v ∈ c) : ∃ w, (v, w) ∈ c.arcs := by
  obtain ⟨i, rfl⟩ := h
  exact ⟨_, i, rfl⟩

theorem exists_arc_into {c : Circuit R} {v : Nat} (h : v ∈ c) : ∃ u, (u, v) ∈ c.arcs := by
  obtain ⟨i, rfl⟩ := h
  exact ⟨c.node (i - 1), i - 1, by simp⟩

/-- On a simple circuit a node has one node after it. -/
theorem IsSimple.arc_unique {c : Circuit R} (h : c.IsSimple) {u v w : Nat} (hv : (u, v) ∈ c.arcs)
    (hw : (u, w) ∈ c.arcs) : v = w := by
  obtain ⟨i, hi⟩ := hv
  obtain ⟨j, hj⟩ := hw
  obtain ⟨rfl, rfl⟩ := Prod.mk.inj hi
  obtain ⟨hij, rfl⟩ := Prod.mk.inj hj
  rw [h hij]

/-- A circuit of a relation is one of any weaker relation. -/
def imp {S : Nat → Nat → Prop} (h : ∀ {u v}, R u v → S u v) (c : Circuit R) : Circuit S :=
  ⟨c.last, c.node, fun i => h (c.link i)⟩

/-- From any node of a circuit every node of it can be reached without leaving the circuit. -/
theorem reaches (c : Circuit R) (i j : Fin (c.last + 1)) :
    ReflTransGen (fun a b => R a b ∧ b ∈ c) (c.node i) (c.node j) := by
  have hk (k : Fin (c.last + 1)) :
      ReflTransGen (fun a b => R a b ∧ b ∈ c) (c.node i) (c.node (i + k)) := by
    induction k using Fin.induction with
    | zero => rw [add_zero]
    | succ k ih =>
      refine ih.tail ⟨?_, c.node_mem _⟩
      rw [← Fin.coeSucc_eq_succ, ← add_assoc]
      exact c.link _
  simpa using hk (j - i)

theorem transGen_self {c : Circuit R} {v : Nat} (h : v ∈ c) : TransGen R v v := by
  obtain ⟨i, rfl⟩ := h
  exact .head' (c.link i) (ReflTransGen.mono (fun _ _ h => h.1) _ _ (c.reaches (i + 1) i))

/-! ### Circuits from chains -/

/-- The circuit that goes through a chain and back from its end to its beginning. -/
def ofList (v : Nat) (l : List Nat) (hl : (v :: l).IsChain R)
    (hback : R ((v :: l).getLast (List.cons_ne_nil v l)) v) : Circuit R where
  last := l.length
  node i := (v :: l)[i]
  link i := by
    by_cases hi : i = Fin.last l.length
    · subst hi
      rw [Fin.last_add_one]
      simpa [List.getLast_eq_getElem] using hback
    · have hlt : i.val < l.length := Fin.val_lt_last hi
      have hs : (i + 1).val = i.val + 1 := by rw [Fin.val_add_one, if_neg hi]
      have hc := List.isChain_iff_getElem.1 hl i.val (by simpa using hlt)
      simpa only [Fin.getElem_fin, hs] using hc

section OfList

variable {v : Nat} {l : List Nat} (hl : (v :: l).IsChain R)
  (hback : R ((v :: l).getLast (List.cons_ne_nil v l)) v)

theorem mem_ofList {u : Nat} : u ∈ ofList v l hl hback ↔ u ∈ v :: l := by
  rw [mem_iff, List.mem_iff_get]
  exact Iff.rfl

theorem isSimple_ofList (hn : (v :: l).Nodup) : (ofList v l hl hback).IsSimple :=
  List.nodup_iff_injective_get.1 hn

theorem back_mem_arcs :
    ((v :: l).getLast (List.cons_ne_nil v l), v) ∈ (ofList v l hl hback).arcs := by
  refine ⟨Fin.last l.length, Prod.ext ?_ ?_⟩
  · simp [ofList, List.getLast_eq_getElem]
  · show (v :: l)[(Fin.last l.length + 1 : Fin (l.length + 1))] = v
    rw [Fin.last_add_one]
    rfl

end OfList

end Circuit

/-! ### Walks from a node to itself -/

section Walks

variable {R : Nat → Nat → Prop}

/-- What can be reached can be reached without passing a node twice. -/
theorem exists_nodup_chain {u v : Nat} (h : ReflTransGen R u v) :
    ∃ l, (u :: l).IsChain R ∧ (u :: l).Nodup ∧ (u :: l).getLast (List.cons_ne_nil u l) = v := by
  induction h using ReflTransGen.head_induction_on with
  | refl => exact ⟨[], by simp, by simp, rfl⟩
  | @head u w huw hwv ih =>
    obtain ⟨l, hc, hn, hlast⟩ := ih
    by_cases hu : u ∈ w :: l
    · -- the walk comes back to `u`: what lies before is left out
      obtain ⟨a, b, hab⟩ := List.append_of_mem hu
      refine ⟨b, ?_, ?_, ?_⟩
      · rw [hab] at hc; exact hc.right_of_append
      · rw [hab] at hn; exact hn.of_append_right
      · simpa only [hab, List.getLast_append_of_ne_nil _ (List.cons_ne_nil u b)] using hlast
    · exact ⟨w :: l, hc.cons_cons huw, List.nodup_cons.2 ⟨hu, hn⟩, by simpa using hlast⟩

/-- A node that leads to itself lies on a simple circuit. -/
theorem exists_simple {v : Nat} (h : TransGen R v v) : ∃ c : Circuit R, c.IsSimple ∧ v ∈ c := by
  obtain ⟨w, hvw, hwv⟩ := TransGen.head'_iff.1 h
  obtain ⟨l, hc, hn, hlast⟩ := exists_nodup_chain hwv
  have hback : R ((w :: l).getLast (List.cons_ne_nil w l)) w := hlast ▸ hvw
  refine ⟨.ofList w l hc hback, Circuit.isSimple_ofList hc hback hn,
    (Circuit.mem_ofList hc hback).2 ?_⟩
  exact hlast ▸ List.getLast_mem _

theorem exists_circuit_iff {v : Nat} : (∃ c : Circuit R, v ∈ c) ↔ TransGen R v v := by
  constructor
  · rintro ⟨c, hv⟩
    exact Circuit.transGen_self hv
  · intro h
    obtain ⟨c, -, hv⟩ := exists_simple h
    exact ⟨c, hv⟩

/-- Where a number grows along the relation there are no circuits. -/
theorem isEmpty_circuit_of_lt {f : Nat → Nat} (h : ∀ u v, R u v → f u < f v) :
    IsEmpty (Circuit R) := by
  refine ⟨fun c => ?_⟩
  have hlt : TransGen (· < ·) (f (c.node 0)) (f (c.node 0)) :=
    TransGen.lift f h _ _ (Circuit.transGen_self (c.node_mem 0))
  rw [transGen_eq_self] at hlt
  exact Nat.lt_irrefl _ hlt

/-- Where each node below `n` has one before it, each is reached from a circuit: else going back
would never end. -/
theorem exists_circuit_into {P : Nat → Prop} {n u : Nat} (hlt : ∀ v, P v → v < n)
    (hpred : ∀ v, P v → ∃ w, P w ∧ R w v) (hu : P u) :
    ∃ c : Circuit R, ∃ v ∈ c, ReflTransGen R v u := by
  by_contra hnone
  let before (a b : {v : Fin n // ReflTransGen R v u}) : Prop := TransGen R a.1 b.1
  have : IsTrans _ before := ⟨fun _ _ _ => TransGen.trans⟩
  have : Std.Irrefl before := ⟨fun v hv => by
    obtain ⟨c, hc⟩ := exists_circuit_iff.2 hv
    exact hnone ⟨c, v.1, hc, v.2⟩⟩
  have hnot (v : {v : Fin n // ReflTransGen R v u}) : ¬ P v.1 := by
    induction v using (Finite.wellFounded_of_trans_of_irrefl before).induction with
    | h v ih =>
      intro hv
      obtain ⟨w, hw, hwv⟩ := hpred v.1 hv
      exact ih ⟨⟨w, hlt w hw⟩, .head hwv v.2⟩ (.single hwv) hw
  exact hnot ⟨⟨u, hlt u hu⟩, .refl⟩ hu

end Walks

end ModuleAtlas
