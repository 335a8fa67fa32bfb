import Mathlib.Data.List.Pairwise
import Mathlib.Order.Compare
import ModuleAtlas.Graph.Basic

/-!
# The order of paths and edges

Paths are ordered by their components and edges by their ends, both totally. Those that the order
does not tell apart are those that `==` takes for equal (`Path.compare_eq_iff`,
`Edge.compare_eq_iff`), however they are written.
-/

namespace ModuleAtlas

/-- Things are compared by what a function makes of them. -/
theorem transCmp_on {α β : Type} (cmp : β → β → Ordering) [Std.TransCmp cmp] (f : α → β) :
    Std.TransCmp fun a b => cmp (f a) (f b) where
  eq_swap := Std.OrientedCmp.eq_swap
  isLE_trans := Std.TransCmp.isLE_trans

/-- Things are sorted by what a function makes of them. -/
theorem pairwise_mergeSort_compare {α β : Type} [Ord β] [Std.TransOrd β] (f : α → β) (as : List α) :
    (as.mergeSort fun a b => (compare (f a) (f b)).isLE).Pairwise fun a b =>
      (compare (f a) (f b)).isLE = true := by
  refine List.pairwise_mergeSort ?_ ?_ as
  · exact fun a b c => Std.TransCmp.isLE_trans
  · intro a b
    have hswap : compare (f b) (f a) = (compare (f a) (f b)).swap := Std.OrientedCmp.eq_swap
    rw [Bool.or_eq_true, hswap]
    cases compare (f a) (f b) <;> simp

/-- If things ascend in what a function makes of them, no two of them are alike in that. -/
theorem eq_of_compare_eq {α β : Type} [Ord β] [Std.OrientedOrd β] {f : α → β} {as : List α}
    (h : as.Pairwise fun a b => compare (f a) (f b) = .lt) {a b : α} (ha : a ∈ as) (hb : b ∈ as)
    (hab : compare (f a) (f b) = .eq) : a = b := by
  let Alike (a b : α) : Prop := compare (f a) (f b) = .eq → a = b
  have : Std.Symm Alike := ⟨fun a b hsymm hba => (hsymm (Std.OrientedCmp.eq_comm.1 hba)).symm⟩
  have halike : as.Pairwise Alike := h.imp fun hlt heq => by simp [hlt] at heq
  exact List.Pairwise.forall_of_forall (fun _ _ _ => rfl) halike ha hb hab

namespace Component

instance : Std.TransOrd Component :=
  have : Std.TransCmp fun c d : Component => Ord.compare c.rank d.rank :=
    transCmp_on Ord.compare rank
  have : Std.TransCmp fun c d : Component => List.compareLex Ord.compare c.bytes d.bytes :=
    transCmp_on (List.compareLex Ord.compare) Component.bytes
  inferInstanceAs (Std.TransCmp (compareLex (fun c d : Component => Ord.compare c.rank d.rank)
    fun c d => List.compareLex Ord.compare c.bytes d.bytes))

instance : Std.LawfulEqOrd Component where
  eq_of_compare {c d} h := by
    obtain ⟨hrank, hbytes⟩ := Ordering.then_eq_eq.1 h
    have hrank : c.rank = d.rank := Std.LawfulEqCmp.eq_of_compare hrank
    have hbytes : c.bytes = d.bytes := Std.LawfulEqCmp.eq_of_compare hbytes
    cases c <;> cases d <;> simp_all [rank, Component.bytes]

end Component

namespace Path

instance : Std.TransOrd Path := transCmp_on (List.compareLex compare) components

theorem compare_eq_iff {p q : Path} : compare p q = .eq ↔ (p == q) = true := by
  rw [beq_iff]
  exact @Std.LawfulEqCmp.compare_eq_iff_eq _ (List.compareLex compare) _ _ _

end Path

namespace Edge

instance : Std.TransOrd Edge :=
  have : Std.TransCmp fun e f : Edge => compare e.source f.source := transCmp_on compare source
  have : Std.TransCmp fun e f : Edge => compare e.target f.target := transCmp_on compare target
  inferInstanceAs (Std.TransCmp (compareLex (fun e f : Edge => compare e.source f.source)
    fun e f => compare e.target f.target))

theorem beq_iff {e f : Edge} :
    (e == f) = true ↔ (e.source == f.source) = true ∧ (e.target == f.target) = true :=
  Bool.and_eq_true_iff

theorem compare_eq_iff {e f : Edge} : compare e f = .eq ↔ (e == f) = true := by
  rw [beq_iff, ← Path.compare_eq_iff, ← Path.compare_eq_iff]
  exact Ordering.then_eq_eq

instance : EquivBEq Edge where
  rfl := by simp [beq_iff]
  symm h := by simp_all [beq_iff, BEq.comm]
  trans h k := by
    rw [beq_iff] at *
    exact ⟨BEq.trans h.1 k.1, BEq.trans h.2 k.2⟩

end Edge

end ModuleAtlas
