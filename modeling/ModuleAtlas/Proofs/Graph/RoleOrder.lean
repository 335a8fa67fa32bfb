import Mathlib
import ModuleAtlas.Proofs.Graph.FileRoles

/-!
# The order of roles

Files that stand alone come below those of the core, and these below the utilities. In this order a
file keeps its role or rises when the files of a list import more; and when the rules ask for more, by
fewer markers or a higher threshold, it keeps its role or falls, and stands alone as before
(`role_monotone`). A file whose path ends in no name has its label from its place in the list, and may
fall if another label has no marker in it (`role_falls_for_up`).

A role is at most another one if the lowest role is handed down and the highest one handed up
(`Role.le_of_imp`), so that both halves come from what makes a file stand alone and what makes it a
utility.
-/

namespace ModuleAtlas

namespace Role

/-- The place of a role in the order. -/
def level : Role → Nat
  | standalone => 0
  | core => 1
  | utility => 2

instance : LE Role := ⟨fun a b => a.level ≤ b.level⟩

instance (a b : Role) : Decidable (a ≤ b) := inferInstanceAs (Decidable (a.level ≤ b.level))

theorem le_of_imp {a b : Role} (hstandalone : b = .standalone → a = .standalone)
    (hutility : a = .utility → b = .utility) : a ≤ b := by
  cases a <;> cases b <;> simp_all <;> decide

end Role

/-- The lists have the same files, and these import in the second one what they import in the first
one. -/
structure MoreImports (files files' : List SourceFile) : Prop where
  listed_iff : ∀ p, Listed files p ↔ Listed files' p
  imports : ∀ p q, Imports files p q → Imports files' p q

/-- The second rules have no other markers than the first ones, and no lower threshold. -/
structure Stricter (r r' : RoleRules) : Prop where
  markers : r'.markers ⊆ r.markers
  fanInThreshold : r.fanInThreshold ≤ r'.fanInThreshold

variable {α : Type} {files files' : List SourceFile} {p : Path} {r r' : RoleRules}

/-! ### More imports -/

/-- The second file is the first one with more imports. -/
structure SourceFile.Extends (f f' : SourceFile) : Prop where
  path : (f.path == f'.path) = true
  displayName : f.displayName = f'.displayName
  dependencies : ∀ d ∈ f.dependencies, f'.dependencies.contains d = true

theorem SourceFile.Extends.path_beq {f f' : SourceFile} (h : f.Extends f') (p : Path) :
    (f.path == p) = (f'.path == p) :=
  Path.beq_congr h.path BEq.rfl

/-- Lists of the same files one by one. -/
theorem moreImports_of_forall₂ (h : List.Forall₂ SourceFile.Extends files files') :
    MoreImports files files' := by
  constructor
  · intro p
    induction h with
    | nil => exact Iff.rfl
    | cons hf _ ih =>
      simp only [Listed, List.mem_cons, exists_eq_or_imp] at ih ⊢
      rw [ih, hf.path_beq]
  · intro p q
    induction h with
    | nil => exact id
    | cons hf _ ih =>
      simp only [Imports, List.mem_cons, exists_eq_or_imp] at ih ⊢
      refine Or.imp ?_ ih
      rintro ⟨hp, d, hd, hq⟩
      obtain ⟨d', hd', hdd'⟩ := List.contains_iff_exists_mem_beq.1 (hf.dependencies d hd)
      exact ⟨hf.path_beq p ▸ hp, d', hd', BEq.trans (BEq.symm hdd') hq⟩

theorem labelIn_of_forall₂ (h : List.Forall₂ SourceFile.Extends files files') (p : Path) :
    labelIn files p = labelIn files' p := by
  have hfind : (files.find? (·.path == p)).map (·.displayName) =
      (files'.find? (·.path == p)).map (·.displayName) := by
    induction h with
    | nil => rfl
    | @cons f f' _ _ hf _ ih =>
      rw [List.find?_cons, List.find?_cons, hf.path_beq]
      cases f'.path == p with
      | true => exact congrArg some hf.displayName
      | false => exact ih
  rw [labelIn, labelIn, hfind]

/-- The same list in another order. -/
theorem moreImports_of_perm (h : files.Perm files') : MoreImports files files' := by
  constructor
  · intro p
    simp only [Listed, h.mem_iff]
  · rintro p q ⟨f, hf, himports⟩
    exact ⟨f, h.mem_iff.1 hf, himports⟩

namespace MoreImports

variable (h : MoreImports files files')
include h

theorem alone (hp : Alone files' p) : Alone files p := fun q hq =>
  have hq' := hp q ((h.listed_iff q).1 hq)
  ⟨fun hpq => hq'.1 (h.imports p q hpq), fun hqp => hq'.2 (h.imports q p hqp)⟩

theorem shared (hmarked : r.Marked (labelIn files p) → r.Marked (labelIn files' p))
    (hp : r.Shared files p) : r.Shared files' p := by
  have hsubset : importers files p ⊆ importers files' p := fun c hc => by
    obtain ⟨q, hq, hqp⟩ := mem_importers.1 hc
    exact mem_importers.2 ⟨q, hq, h.imports q p hqp⟩
  exact hp.imp hmarked fun hlt => hlt.trans_le (Finset.card_le_card hsubset)

theorem role_le {role role' : Role}
    (hmarked : r.Marked (labelIn files p) → r.Marked (labelIn files' p))
    (hrole : RoleByImports r files p role) (hrole' : RoleByImports r files' p role') :
    role ≤ role' := by
  refine Role.le_of_imp (fun hstandalone => ?_) (fun hutility => ?_)
  · exact hrole.standalone_iff.2 (h.alone (hrole'.standalone_iff.1 hstandalone))
  · obtain ⟨halone, hshared⟩ := hrole.utility_iff.1 hutility
    exact hrole'.utility_iff.2 ⟨fun halone' => halone (h.alone halone'), h.shared hmarked hshared⟩

end MoreImports

/-! ### Stricter rules -/

namespace Stricter

variable (h : Stricter r r') (n : Node α)
include h

theorem marks (hmarks : r'.folded.marks n = true) : r.folded.marks n = true := by
  rw [Graph.marks_folded] at hmarks ⊢
  obtain ⟨m, hm, hinfix⟩ := hmarks
  exact ⟨m, h.markers hm, hinfix⟩

theorem roleOf_le : r'.folded.roleOf n ≤ r.folded.roleOf n := by
  refine Role.le_of_imp (fun hstandalone => ?_) (fun hutility => ?_)
  · rw [RoleRules.roleOf_eq_standalone_iff] at hstandalone ⊢
    exact hstandalone
  · rw [RoleRules.roleOf_eq_utility_iff] at hutility ⊢
    exact hutility.imp_right (Or.imp (h.marks n) h.fanInThreshold.trans_lt)

end Stricter

namespace Graph

/-- Where files import more, no role is lower, unless the file has no name and its label has no marker
in it any more; where the rules ask for more, none is higher, and the same files stand alone. -/
theorem role_monotone :
    (∀ (origin : Position α) (r : RoleRules) (files files' : List SourceFile),
      MoreImports files files' → ∀ p, Listed files p →
        (p.fileName? = none → r.Marked (labelIn files p) → r.Marked (labelIn files' p)) →
        ∃ n n', (r.classify (ofFiles origin files)).node? p = some n ∧
          (r.classify (ofFiles origin files')).node? p = some n' ∧ n.role ≤ n'.role) ∧
    ∀ (g : Graph α) (r r' : RoleRules), Stricter r r' →
      List.Forall₂ (fun n n' => n'.id = n.id ∧ n'.role ≤ n.role ∧
        (n'.role = .standalone ↔ n.role = .standalone)) (r.classify g).nodes (r'.classify g).nodes := by
  constructor
  · intro origin r files files' h p hp hnameless
    obtain ⟨n, hn, -, hrole⟩ := exists_roleByImports origin r hp
    obtain ⟨n', hn', -, hrole'⟩ := exists_roleByImports origin r ((h.listed_iff p).1 hp)
    have hmarked : r.Marked (labelIn files p) → r.Marked (labelIn files' p) := by
      cases hname : p.fileName? with
      | none => exact hnameless hname
      | some name =>
        rw [labelIn, labelIn, hname]
        exact id
    exact ⟨n, n', hn, hn', h.role_le hmarked hrole hrole'⟩
  · intro g r r' h
    rw [RoleRules.classify, RoleRules.classify, nodes_assign, nodes_assign,
      List.forall₂_map_left_iff, List.forall₂_map_right_iff, List.forall₂_same]
    intro n _
    refine ⟨rfl, h.roleOf_le n, ?_⟩
    rw [RoleRules.roleOf_eq_standalone_iff, RoleRules.roleOf_eq_standalone_iff]

/-- The files a and b, without imports. -/
def strangers : List SourceFile := [⟨⟨[97]⟩, "a", []⟩, ⟨⟨[98]⟩, "b", []⟩]

/-- The same files, and a imports b. -/
def acquainted : List SourceFile := [⟨⟨[97]⟩, "a", [⟨[98]⟩]⟩, ⟨⟨[98]⟩, "b", []⟩]

/-- The file b rises from the lowest role to the highest one if a imports it, and falls to the core if
one import is not enough. -/
theorem role_monotone_acquainted :
    MoreImports strangers acquainted ∧ Listed strangers ⟨[98]⟩ ∧ Stricter ⟨["x"], 0⟩ ⟨[], 1⟩ ∧
    (∃ n n' : Node Nat,
      ((RoleRules.mk ["x"] 0).classify (ofFiles ⟨0, 0⟩ strangers)).node? ⟨[98]⟩ = some n ∧
      ((RoleRules.mk ["x"] 0).classify (ofFiles ⟨0, 0⟩ acquainted)).node? ⟨[98]⟩ = some n' ∧
      n.role = .standalone ∧ n'.role = .utility ∧ n.role ≤ n'.role) ∧
    List.Forall₂ (fun n n' : Node Nat => n'.id = n.id ∧ n'.role ≤ n.role ∧
        (n'.role = .standalone ↔ n.role = .standalone))
      ((RoleRules.mk ["x"] 0).classify (ofFiles ⟨0, 0⟩ acquainted)).nodes
      ((RoleRules.mk [] 1).classify (ofFiles ⟨0, 0⟩ acquainted)).nodes := by
  have hextends : List.Forall₂ SourceFile.Extends strangers acquainted := by
    refine .cons ⟨BEq.rfl, rfl, ?_⟩ (.cons ⟨BEq.rfl, rfl, ?_⟩ .nil)
    · exact fun d hd => absurd hd List.not_mem_nil
    · exact fun d hd => absurd hd List.not_mem_nil
  have hmore : MoreImports strangers acquainted := moreImports_of_forall₂ hextends
  have hlisted : Listed strangers ⟨[98]⟩ := ⟨_, List.mem_cons_of_mem _ List.mem_cons_self, BEq.rfl⟩
  have hstricter : Stricter ⟨["x"], 0⟩ ⟨[], 1⟩ := ⟨List.nil_subset _, Nat.zero_le 1⟩
  obtain ⟨n, n', hn, hn', hle⟩ :=
    role_monotone.1 (⟨0, 0⟩ : Position Nat) ⟨["x"], 0⟩ _ _ hmore ⟨[98]⟩ hlisted
      fun _ hmarked => labelIn_of_forall₂ hextends _ ▸ hmarked
  refine ⟨hmore, hlisted, hstricter, ⟨n, n', hn, hn', ?_, ?_, hle⟩, role_monotone.2 _ _ _ hstricter⟩
  · have hrole : (((RoleRules.mk ["x"] 0).classify
        (ofFiles (⟨0, 0⟩ : Position Nat) strangers)).node? ⟨[98]⟩).map (·.role) =
          some .standalone := by decide +kernel
    rw [hn] at hrole
    exact Option.some.inj hrole
  · have hrole : (((RoleRules.mk ["x"] 0).classify
        (ofFiles (⟨0, 0⟩ : Position Nat) acquainted)).node? ⟨[98]⟩).map (·.role) =
          some .utility := by decide +kernel
    rw [hn'] at hrole
    exact Option.some.inj hrole

/-- In another order of the list, with the same imports, a file falls. -/
theorem role_falls_for_up :
    upAsUtil.Perm upAsOther ∧ MoreImports upAsUtil upAsOther ∧
    ∃ n n' : Node Nat,
      (RoleRules.standard.classify (ofFiles ⟨0, 0⟩ upAsUtil)).node? ⟨[46, 46]⟩ = some n ∧
      (RoleRules.standard.classify (ofFiles ⟨0, 0⟩ upAsOther)).node? ⟨[46, 46]⟩ = some n' ∧
      ¬n.role ≤ n'.role := by
  have hutility : ((RoleRules.standard.classify
      (ofFiles (⟨0, 0⟩ : Position Nat) upAsUtil)).node? ⟨[46, 46]⟩).map (·.role) =
        some .utility := by decide +kernel
  have hcore : ((RoleRules.standard.classify
      (ofFiles (⟨0, 0⟩ : Position Nat) upAsOther)).node? ⟨[46, 46]⟩).map (·.role) =
        some .core := by decide +kernel
  obtain ⟨n, hn, hrole⟩ := Option.map_eq_some_iff.1 hutility
  obtain ⟨n', hn', hrole'⟩ := Option.map_eq_some_iff.1 hcore
  have hperm : upAsUtil.Perm upAsOther := .swap _ _ _
  refine ⟨hperm, moreImports_of_perm hperm, n, n', hn, hn', ?_⟩
  rw [hrole, hrole']
  decide

end Graph

end ModuleAtlas
