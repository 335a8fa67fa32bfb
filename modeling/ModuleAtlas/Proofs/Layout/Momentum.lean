import Mathlib
import ModuleAtlas.Proofs.Layout.Quotients

/-!
# Action and reaction

Forces move bodies, but not all of them together (`ForceField.action_and_reaction`).

* Charges: what a body does to another is the opposite of what the other does to it
  (`impulse_swap`), also where both are at one place and are jiggled apart (`jiggle_swap`). So in the
  sum over all pairs nothing is left (`sum_impulse`).
* Collisions and links change two velocities at a time (`SameMomentum.exchange`). A body that
  collides gains what the other one loses (`collidePair_cases`), and a link pulls less at an end that
  is in more links (`attractAlong_eq`), so that the degree is a mass there. From one pair this goes on
  to all pairs, which are passed one after the other, by induction (`SameMomentum.foldl`).
-/

namespace ModuleAtlas

open PartialReal

/-- The body with the number. -/
def bodyAt {α : Type} [Scalar α] (bodies : Array (Body α)) (i : Nat) : Body α :=
  bodies.getD i default

namespace Body

/-- In both directions at once. -/
def velocity (b : Body ℝ) : ℝ × ℝ := (b.vx, b.vy)

@[simp] theorem velocity_push (b : Body ℝ) (dvx dvy : ℝ) :
    (b.push dvx dvy).velocity = b.velocity + (dvx, dvy) := rfl

@[simp] theorem velocity_pull (b : Body ℝ) (dvx dvy : ℝ) :
    (b.pull dvx dvy).velocity = b.velocity - (dvx, dvy) := rfl

end Body

/-- The sum of the velocities, the one of each body times its mass. -/
noncomputable def momentum (mass : Nat → ℝ) (bodies : Array (Body ℝ)) : ℝ × ℝ :=
  ∑ i ∈ Finset.range bodies.size, mass i • (bodyAt bodies i).velocity

/-- There are as many bodies as before, and their momentum is what it was. -/
structure SameMomentum (mass : Nat → ℝ) (before after : Array (Body ℝ)) : Prop where
  size : after.size = before.size
  momentum : momentum mass after = momentum mass before

section Momentum

variable {mass : Nat → ℝ} {bodies : Array (Body ℝ)} {i j : Nat} {a b : Body ℝ}

theorem bodyAt_setIfInBounds (hi : i < bodies.size) (b : Body ℝ) (k : Nat) :
    bodyAt (bodies.setIfInBounds i b) k = if i = k then b else bodyAt bodies k := by
  simp only [bodyAt, Array.getD_eq_getD_getElem?, Array.getElem?_setIfInBounds, hi, if_true]
  split <;> rfl

theorem momentum_setIfInBounds (hi : i < bodies.size) (b : Body ℝ) :
    momentum mass (bodies.setIfInBounds i b) =
      momentum mass bodies + mass i • (b.velocity - (bodyAt bodies i).velocity) := by
  have hterm (k : Nat) : mass k • (bodyAt (bodies.setIfInBounds i b) k).velocity =
      mass k • (bodyAt bodies k).velocity +
        if i = k then mass i • (b.velocity - (bodyAt bodies i).velocity) else 0 := by
    rw [bodyAt_setIfInBounds hi]
    split
    · next hik => rw [← hik, smul_sub, add_sub_cancel]
    · rw [add_zero]
  simp only [momentum, Array.size_setIfInBounds, hterm, Finset.sum_add_distrib]
  rw [Finset.sum_ite_eq, if_pos (Finset.mem_range.2 hi)]

namespace SameMomentum

theorem refl (mass : Nat → ℝ) (bodies : Array (Body ℝ)) : SameMomentum mass bodies bodies :=
  ⟨rfl, rfl⟩

theorem trans {bs bs' bs'' : Array (Body ℝ)} (h : SameMomentum mass bs bs')
    (h' : SameMomentum mass bs' bs'') : SameMomentum mass bs bs'' :=
  ⟨h'.size.trans h.size, h'.momentum.trans h.momentum⟩

/-- A body gains what another one loses. -/
theorem exchange (hi : i < bodies.size) (hj : j < bodies.size) (hij : i ≠ j)
    (h : mass i • (a.velocity - (bodyAt bodies i).velocity) +
      mass j • (b.velocity - (bodyAt bodies j).velocity) = 0) :
    SameMomentum mass bodies ((bodies.setIfInBounds i a).setIfInBounds j b) where
  size := by rw [Array.size_setIfInBounds, Array.size_setIfInBounds]
  momentum := by
    have hj' : j < (bodies.setIfInBounds i a).size := by rwa [Array.size_setIfInBounds]
    rw [momentum_setIfInBounds hj', bodyAt_setIfInBounds hi, if_neg hij, momentum_setIfInBounds hi,
      add_assoc, h, add_zero]

/-- What holds of each step, for so many bodies, holds of all of them. -/
theorem foldl {β : Type} {step : Array (Body ℝ) → β → Array (Body ℝ)} {l : List β}
    (hstep : ∀ bs, bs.size = bodies.size → ∀ b ∈ l, SameMomentum mass bs (step bs b)) :
    SameMomentum mass bodies (l.foldl step bodies) :=
  List.foldlRecOn l step (refl mass bodies) fun bs hbs b hb => hbs.trans (hstep bs hbs.size b hb)

end SameMomentum

end Momentum

namespace ForceField

/-! ### Charges -/

section Charge

variable {α : Type} [Scalar α] (f : ForceField α) (alpha : α) (places : Array (Body α))

/-- How the charge of body `j` changes the velocity of body `i`; `none` if it does not. -/
def chargeOn? (i j : Nat) : Option (α × α) :=
  if i = j then none
  else f.charge? alpha i j ((bodyAt places j).x - (bodyAt places i).x)
    ((bodyAt places j).y - (bodyAt places i).y)

theorem repelFrom_eq (i : Nat) (b : Body α) (j : Nat) : f.repelFrom alpha places i b j =
    (f.chargeOn? alpha places i j).elim b fun (dvx, dvy) => b.push dvx dvy := by
  rw [repelFrom, chargeOn?]
  split
  · rfl
  · simp only [bodyAt]
    cases f.charge? alpha i j _ _ <;> rfl

end Charge

variable (f : ForceField ℝ) (alpha : ℝ) {bodies : Array (Body ℝ)} {i j : Nat}

theorem jiggle_swap (h : i ≠ j) : (jiggle j i : ℝ) = -jiggle i j := by
  have hsign : (if j < i then (-1.0 : ℝ) else 1.0) = -(if i < j then -1.0 else 1.0) := by
    rcases Nat.lt_or_gt_of_ne h with hlt | hlt
    · rw [if_neg hlt.not_gt, if_pos hlt, neg_neg]
    · rw [if_pos hlt, if_neg hlt.not_gt]
  rw [jiggle, jiggle, hsign, neg_mul, neg_mul, Nat.add_right_comm]

theorem charge?_swap (h : i ≠ j) (dx dy : ℝ) :
    f.charge? alpha j i (-dx) (-dy) = (f.charge? alpha i j dx dy).map fun (x, y) => (-x, -y) := by
  have hside (touching : Bool) : (if touching then jiggle j i else -dx) =
      -(if touching then jiggle i j else dx) := by
    rw [jiggle_swap h]
    split <;> rfl
  simp only [charge?, neg_mul_neg, hside]
  split
  · rfl
  · simp only [Option.map_some, neg_mul]

theorem chargeOn?_swap (places : Array (Body ℝ)) (i j : Nat) :
    f.chargeOn? alpha places j i =
      (f.chargeOn? alpha places i j).map fun (x, y) => (-x, -y) := by
  by_cases h : i = j
  · rw [chargeOn?, chargeOn?, if_pos h, if_pos h.symm]
    rfl
  · rw [chargeOn?, chargeOn?, if_neg h, if_neg (Ne.symm h), ← charge?_swap f alpha h]
    exact congrArg₂ _ (neg_sub _ _).symm (neg_sub _ _).symm

/-- What the charge of body `j` adds to the velocity of body `i`. -/
noncomputable def impulse (places : Array (Body ℝ)) (i j : Nat) : ℝ × ℝ :=
  (f.chargeOn? alpha places i j).getD 0

theorem impulse_swap (places : Array (Body ℝ)) (i j : Nat) :
    f.impulse alpha places j i = -f.impulse alpha places i j := by
  rw [impulse, impulse, chargeOn?_swap]
  cases f.chargeOn? alpha places i j with
  | none => exact neg_zero.symm
  | some pushed => rfl

theorem velocity_repelFrom (places : Array (Body ℝ)) (i : Nat) (b : Body ℝ) (j : Nat) :
    (f.repelFrom alpha places i b j).velocity = b.velocity + f.impulse alpha places i j := by
  rw [repelFrom_eq, impulse]
  cases f.chargeOn? alpha places i j with
  | none => exact (add_zero b.velocity).symm
  | some pushed => rfl

theorem velocity_foldl_repelFrom (places : Array (Body ℝ)) (i : Nat) (b : Body ℝ) (n : Nat) :
    ((List.range n).foldl (f.repelFrom alpha places i) b).velocity =
      b.velocity + ∑ j ∈ Finset.range n, f.impulse alpha places i j := by
  induction n with
  | zero => exact (add_zero b.velocity).symm
  | succ n ih =>
    rw [List.range_succ, List.foldl_append, List.foldl_cons, List.foldl_nil, velocity_repelFrom,
      ih, Finset.sum_range_succ, add_assoc]

/-- Each body is pushed by all others from where they are. -/
theorem velocity_repel (hi : i < bodies.size) :
    (bodyAt (f.repel alpha bodies) i).velocity = (bodyAt bodies i).velocity +
      ∑ j ∈ Finset.range bodies.size, f.impulse alpha bodies i j := by
  have hbody : bodyAt (f.repel alpha bodies) i =
      (List.range bodies.size).foldl (f.repelFrom alpha bodies i) (bodyAt bodies i) := by
    simp [bodyAt, repel, hi]
  rw [hbody, velocity_foldl_repelFrom]

theorem sum_impulse (places : Array (Body ℝ)) (n : Nat) :
    ∑ i ∈ Finset.range n, ∑ j ∈ Finset.range n, f.impulse alpha places i j = 0 := by
  -- with the two sums in the other order each impulse is its opposite
  refine self_eq_neg.1 ?_
  calc ∑ i ∈ Finset.range n, ∑ j ∈ Finset.range n, f.impulse alpha places i j
      = ∑ i ∈ Finset.range n, ∑ j ∈ Finset.range n, f.impulse alpha places j i := Finset.sum_comm
    _ = ∑ i ∈ Finset.range n, ∑ j ∈ Finset.range n, -f.impulse alpha places i j :=
      Finset.sum_congr rfl fun i _ =>
        Finset.sum_congr rfl fun j _ => impulse_swap f alpha places i j
    _ = -∑ i ∈ Finset.range n, ∑ j ∈ Finset.range n, f.impulse alpha places i j := by
      simp only [Finset.sum_neg_distrib]

theorem sameMomentum_repel (bodies : Array (Body ℝ)) :
    SameMomentum 1 bodies (f.repel alpha bodies) where
  size := size_repel f alpha bodies
  momentum := by
    have hterm : ∀ i ∈ Finset.range bodies.size,
        (1 : Nat → ℝ) i • (bodyAt (f.repel alpha bodies) i).velocity =
          (1 : Nat → ℝ) i • (bodyAt bodies i).velocity +
            ∑ j ∈ Finset.range bodies.size, f.impulse alpha bodies i j := by
      intro i hi
      rw [velocity_repel f alpha (Finset.mem_range.1 hi), Pi.one_apply, one_smul, one_smul]
    rw [momentum, size_repel, Finset.sum_congr rfl hterm, Finset.sum_add_distrib, sum_impulse,
      add_zero, momentum]

/-! ### Collisions -/

theorem collidePair_cases (bodies : Array (Body ℝ)) (i j : Nat) :
    f.collidePair i bodies j = bodies ∨ ∃ dvx dvy, f.collidePair i bodies j =
      (bodies.setIfInBounds i ((bodyAt bodies i).push dvx dvy)).setIfInBounds j
        ((bodyAt bodies j).pull dvx dvy) := by
  simp only [collidePair]
  split
  · exact .inl rfl
  · exact .inr ⟨_, _, rfl⟩

theorem sameMomentum_collidePair (hi : i < bodies.size) (hj : j < bodies.size) (hij : i ≠ j) :
    SameMomentum 1 bodies (f.collidePair i bodies j) := by
  obtain hsame | ⟨dvx, dvy, hpush⟩ := f.collidePair_cases bodies i j
  · rw [hsame]
    exact .refl 1 bodies
  · rw [hpush]
    exact .exchange hi hj hij (by simp)

theorem sameMomentum_collide (bodies : Array (Body ℝ)) :
    SameMomentum 1 bodies (f.collide bodies) := by
  refine .foldl fun bs hbs i hi => .foldl fun bs' hbs' j hj => ?_
  have hi : i < bodies.size := List.mem_range.1 hi
  obtain ⟨hlow, hhigh⟩ := List.mem_range'_1.1 hj
  exact sameMomentum_collidePair f (by omega) (by omega) (by omega)

/-! ### Links -/

/-- A body has as much of it as it is in links. -/
noncomputable def mass (i : Nat) : ℝ := f.degree.getD i 0

theorem cast_degrees (s t : Nat) :
    ((f.degree.getD s 0 + f.degree.getD t 0 : Nat) : ℝ) = f.mass s + f.mass t :=
  Nat.cast_add _ _

/-- Each end of a link takes its share of a pull, by the degree of the other end. -/
theorem attractAlong_eq (bodies : Array (Body ℝ)) (s t : Nat) :
    let share := f.mass s / (f.mass s + f.mass t)
    ∃ dx dy, f.attractAlong alpha bodies (s, t) =
      (bodies.setIfInBounds t ((bodyAt bodies t).pull (dx * share) (dy * share))).setIfInBounds s
        ((bodyAt bodies s).push (dx * (1 - share)) (dy * (1 - share))) := by
  have hone : (1.0 : ℝ) = 1 := by norm_num
  have hdegree : (Scalar.ofNat (f.degree.getD s 0) : ℝ) = f.mass s := rfl
  have hdegrees : (Scalar.ofNat (f.degree.getD s 0 + f.degree.getD t 0) : ℝ) =
      f.mass s + f.mass t := cast_degrees f s t
  simp only [attractAlong, hone, hdegree, hdegrees]
  exact ⟨_, _, rfl⟩

theorem sameMomentum_attractAlong {s t : Nat} (hs : s < bodies.size) (ht : t < bodies.size)
    (hst : s ≠ t) (hmass : f.mass s + f.mass t ≠ 0) :
    SameMomentum f.mass bodies (f.attractAlong alpha bodies (s, t)) := by
  have hshares (d : ℝ) : f.mass t * -(d * (f.mass s / (f.mass s + f.mass t))) +
      f.mass s * (d * (1 - f.mass s / (f.mass s + f.mass t))) = 0 := by
    field_simp
    ring
  obtain ⟨dx, dy, hpull⟩ := f.attractAlong_eq alpha bodies s t
  rw [hpull]
  refine .exchange ht hs hst.symm ?_
  rw [Body.velocity_pull, Body.velocity_push, sub_sub_cancel_left, add_sub_cancel_left]
  exact Prod.ext (hshares dx) (hshares dy)

theorem sameMomentum_attract (h : f.Linked bodies.size) :
    SameMomentum f.mass bodies (f.attract alpha bodies) := by
  refine .foldl fun bs hbs link hlink => ?_
  obtain ⟨hs, ht, hst⟩ := h.ends link hlink
  have hmass : f.mass link.1 + f.mass link.2 ≠ 0 :=
    cast_degrees f _ _ ▸ Nat.cast_ne_zero.2 (h.countsLinks link hlink)
  exact sameMomentum_attractAlong f alpha (hbs ▸ hs) (hbs ▸ ht) hst hmass

/-! ### All forces -/

/-- With exact arithmetic charges and collisions leave the sum of all velocities as it is, wherever
the bodies are and however they move. Links that are between two different bodies each leave the sum
as it is in which the velocity of a body counts by its degree. No quotient on the way is by zero: with
partial arithmetic the bodies come to the same. -/
theorem action_and_reaction (bodies : Array (Body ℝ)) :
    (momentum 1 (f.repel alpha bodies) = momentum 1 bodies ∧
      (f.map value).repel (value alpha) (bodies.map (Body.map value)) =
        (f.repel alpha bodies).map (Body.map value)) ∧
    (momentum 1 (f.collide bodies) = momentum 1 bodies ∧
      (f.map value).collide (bodies.map (Body.map value)) =
        (f.collide bodies).map (Body.map value)) ∧
    (f.Linked bodies.size →
      momentum f.mass (f.attract alpha bodies) = momentum f.mass bodies ∧
      (f.map value).attract (value alpha) (bodies.map (Body.map value)) =
        (f.attract alpha bodies).map (Body.map value)) :=
  ⟨⟨(sameMomentum_repel f alpha bodies).momentum, repel_value f alpha bodies⟩,
    ⟨(sameMomentum_collide f bodies).momentum, collide_value f bodies⟩,
    fun h => ⟨(sameMomentum_attract f alpha h).momentum, attract_value h.countsLinks alpha bodies⟩⟩

/-- Two bodies at rest at one place. -/
noncomputable def coincident : Array (Body ℝ) := #[.rest 0 0, .rest 0 0]

/-- Two bodies with a link between them. -/
noncomputable def linkedPair : ForceField ℝ :=
  ofGraph .standard (.ofRole .standard .core) #[[1], []] [0, 1]

theorem momentum_coincident (mass : Nat → ℝ) : momentum mass coincident = 0 := by
  refine Finset.sum_eq_zero fun i hi => ?_
  have hi : i < 2 := Finset.mem_range.1 hi
  interval_cases i <;> simp [bodyAt, coincident, Body.rest, Body.velocity, Scalar.ofNat_real]

theorem collide_of_two (h : bodies.size = 2) : f.collide bodies = f.collidePair 0 bodies 1 := by
  have hsize : (f.collidePair 0 bodies 1).size = 2 := (size_collidePair f 0 bodies 1).trans h
  have hall : List.range 2 = [0, 1] := rfl
  simp [collide, h, hall, hsize]

/-- They are jiggled apart, and are then too close by nearly the separation of 80. -/
theorem velocity_collide_coincident :
    (bodyAt (linkedPair.collide coincident) 0).velocity = (-39.999999, 0) ∧
      (bodyAt (linkedPair.collide coincident) 1).velocity = (39.999999, 0) := by
  have hreach : linkedPair.settings.minSeparation = 80.0 := rfl
  rw [collide_of_two linkedPair rfl]
  constructor <;>
    norm_num [collidePair, hreach, coincident, bodyAt, Body.rest, Body.velocity, Body.push,
      Body.pull, Scalar.hypot, Scalar.le, Scalar.lt, Scalar.abs, Scalar.ofNat_real, jiggle, epsilon]

/-- A collision drives the two apart, but neither it nor their charges nor their link move them
together. -/
theorem action_and_reaction_coincident :
    linkedPair.Linked coincident.size ∧
    momentum linkedPair.mass (linkedPair.attract 1 coincident) = 0 ∧
    momentum 1 (linkedPair.repel 1 coincident) = 0 ∧
    momentum 1 (linkedPair.collide coincident) = 0 ∧
    (bodyAt (linkedPair.collide coincident) 0).velocity = (-39.999999, 0) ∧
    (bodyAt (linkedPair.collide coincident) 1).velocity = (39.999999, 0) := by
  have hlinked : linkedPair.Linked coincident.size := linked_ofGraph _ _ _ _
  obtain ⟨⟨hrepel, -⟩, ⟨hcollide, -⟩, hattract⟩ := action_and_reaction linkedPair 1 coincident
  exact ⟨hlinked, (hattract hlinked).1.trans (momentum_coincident _),
    hrepel.trans (momentum_coincident _), hcollide.trans (momentum_coincident _),
    velocity_collide_coincident⟩

end ForceField

end ModuleAtlas
