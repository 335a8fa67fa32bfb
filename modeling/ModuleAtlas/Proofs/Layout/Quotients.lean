import Mathlib
import ModuleAtlas.Proofs.Layout.PartialReals
import ModuleAtlas.Proofs.Layout.Relaxed

/-!
# No force divides by zero

Each quotient that the forces ask for has a divisor that is not zero, so that they come to the same
with partial arithmetic as with exact arithmetic: the lengths of links are at least `epsilon`, and so
are the distances of charged and of colliding bodies but for those that are jiggled apart
(`jiggle_ne_zero`); a body that is in a link is counted to be (`CountsLinks`); and there are bodies.
From the forces one by one this goes on to a tick (`tick_value`), and by induction to a run
(`run_value`).
-/

namespace ModuleAtlas

open PartialReal

theorem Scalar.lt_real {x y : ℝ} : Scalar.lt x y = true ↔ x < y := by
  simp only [Scalar.lt, Scalar.le, Bool.and_eq_true, Bool.not_eq_true', decide_eq_true_eq,
    decide_eq_false_iff_not, not_le]
  exact and_iff_right_of_imp le_of_lt

theorem Body.getD_map {α β : Type} [Scalar α] [Scalar β] {g : α → β}
    (h : g (Scalar.ofNat 0) = Scalar.ofNat 0) (bodies : Array (Body α)) (i : Nat) :
    (bodies.map (Body.map g)).getD i default = (bodies.getD i default).map g := by
  have hdefault : (default : Body β) = (default : Body α).map g := by
    show (⟨Scalar.ofNat 0, Scalar.ofNat 0, Scalar.ofNat 0, Scalar.ofNat 0⟩ : Body β) =
      ⟨g (Scalar.ofNat 0), g (Scalar.ofNat 0), g (Scalar.ofNat 0), g (Scalar.ofNat 0)⟩
    rw [h]
  rw [hdefault, Array.getD_eq_getD_getElem?, Array.getElem?_map, Option.getD_map,
    ← Array.getD_eq_getD_getElem?]

namespace Zone

theorem center_value (z : Zone ℝ) :
    (z.map value).center = ⟨value z.center.x, value z.center.y⟩ := by
  simp only [center, map_x, map_y, map_width, map_height, half_value, value_add]

theorem ofRole_value (settings : LayoutSettings ℝ) (role : Role) :
    ofRole (settings.map value) role = (ofRole settings role).map value := by
  cases role <;> rfl

end Zone

namespace ForceField

variable {f : ForceField ℝ}

theorem epsilon_pos : (0 : ℝ) < epsilon := by
  show (0 : ℝ) < 1e-9
  norm_num

theorem epsilon_value : (epsilon : PartialReal) = value epsilon := rfl

theorem jiggle_ne_zero (i j : Nat) : (jiggle i j : ℝ) ≠ 0 := by
  have hsign : (if i < j then (-1.0 : ℝ) else 1.0) ≠ 0 := by
    split <;> norm_num
  have hnumber : ((1 + i + j : Nat) : ℝ) ≠ 0 := by positivity
  exact mul_ne_zero (mul_ne_zero hsign (by norm_num)) hnumber

theorem jiggle_value (i j : Nat) : (jiggle i j : PartialReal) = value (jiggle i j) := by
  simp only [jiggle, ofScientific_eq, value_neg, ite_value, value_mul, ofNat_eq]

theorem attractAlong_value (alpha : ℝ) (bodies : Array (Body ℝ)) {s t : Nat}
    (h : f.degree.getD s 0 + f.degree.getD t 0 ≠ 0) :
    (f.map value).attractAlong (value alpha) (bodies.map (Body.map value)) (s, t) =
      (f.attractAlong alpha bodies (s, t)).map (Body.map value) := by
  have hdegrees (x : ℝ) : value x / value (Scalar.ofNat (f.degree.getD s 0 + f.degree.getD t 0)) =
      value (x / Scalar.ofNat (f.degree.getD s 0 + f.degree.getD t 0)) :=
    value_div (Nat.cast_ne_zero.2 h)
  have hlength (x l : ℝ) : value x / value (Scalar.max l epsilon) =
      value (x / Scalar.max l epsilon) :=
    value_div (lt_max_of_lt_right epsilon_pos).ne'
  simp only [attractAlong, Body.getD_map (g := value) rfl, Body.map_x, Body.map_y, Body.map_vx,
    Body.map_vy, map_degree, map_settings, LayoutSettings.map_linkDistance,
    LayoutSettings.map_linkStrength, ofNat_eq, hdegrees, value_add, value_sub, value_mul,
    hypot_value, epsilon_value, max_value, hlength, ofScientific_eq]
  rw [Array.map_setIfInBounds, Array.map_setIfInBounds]
  rfl

/-- Each link is counted at one of its ends at least. -/
def CountsLinks (f : ForceField ℝ) : Prop :=
  ∀ link ∈ f.links, f.degree.getD link.1 0 + f.degree.getD link.2 0 ≠ 0

theorem attract_value (h : f.CountsLinks) (alpha : ℝ) (bodies : Array (Body ℝ)) :
    (f.map value).attract (value alpha) (bodies.map (Body.map value)) =
      (f.attract alpha bodies).map (Body.map value) := by
  let same (bs' : Array (Body PartialReal)) (bs : Array (Body ℝ)) : Prop :=
    bs' = bs.map (Body.map value)
  refine List.foldl_rel (r := same) rfl fun link hlink bs' bs hsame => ?_
  obtain rfl : bs' = bs.map (Body.map value) := hsame
  exact attractAlong_value alpha bs (h link hlink)

theorem charge?_value (f : ForceField ℝ) (alpha : ℝ) (i j : Nat) (dx dy : ℝ) :
    (f.map value).charge? (value alpha) i j (value dx) (value dy) =
      (f.charge? alpha i j dx dy).map fun (x, y) => (value x, value y) := by
  simp only [charge?, map_settings, LayoutSettings.map_chargeDistanceMin,
    LayoutSettings.map_chargeDistanceMax, LayoutSettings.map_chargeStrength, value_mul, value_add,
    le_value, epsilon_value, lt_value, jiggle_value, ite_value]
  -- the distance is first made positive (`l'`), and a short one is then made longer
  generalize hnearest : f.settings.chargeDistanceMin * f.settings.chargeDistanceMin = nearest
  generalize dx * dx + dy * dy = l
  generalize hdx' : (if Scalar.lt l epsilon = true then jiggle i j else dx) = dx'
  generalize hl' : (if Scalar.lt l epsilon = true then dx' * dx' else l) = l'
  have hpos : 0 < l' := by
    rw [← hl']
    split
    · next htouching =>
      rw [if_pos htouching] at hdx'
      exact mul_self_pos.2 (hdx' ▸ jiggle_ne_zero i j)
    · next hapart =>
      rw [Scalar.lt_real, not_lt] at hapart
      exact epsilon_pos.trans_le hapart
  have hroot : Scalar.sqrt (value (nearest * l')) = value (Scalar.sqrt (nearest * l')) :=
    sqrt_value (mul_nonneg (hnearest ▸ mul_self_nonneg _) hpos.le)
  have hdivisor : (if Scalar.lt l' nearest = true then Scalar.sqrt (nearest * l') else l') ≠ 0 := by
    split
    · next hnear =>
      rw [Scalar.lt_real] at hnear
      exact (Real.sqrt_pos.2 (mul_pos (hpos.trans hnear) hpos)).ne'
    · exact hpos.ne'
  rw [hroot, ite_value, value_div hdivisor]
  split <;> rfl

theorem repelFrom_value (f : ForceField ℝ) (alpha : ℝ) (places : Array (Body ℝ)) (i : Nat)
    (b : Body ℝ) (j : Nat) :
    (f.map value).repelFrom (value alpha) (places.map (Body.map value)) i (b.map value) j =
      (f.repelFrom alpha places i b j).map value := by
  rw [repelFrom, repelFrom]
  split
  · rfl
  · simp only [Body.getD_map (g := value) rfl, Body.map_x, Body.map_y, value_sub, charge?_value]
    generalize f.charge? alpha i j _ _ = pushed
    cases pushed <;> rfl

theorem repel_value (f : ForceField ℝ) (alpha : ℝ) (bodies : Array (Body ℝ)) :
    (f.map value).repel (value alpha) (bodies.map (Body.map value)) =
      (f.repel alpha bodies).map (Body.map value) := by
  refine Array.ext_getElem? fun i => ?_
  simp only [repel, Array.getElem?_mapIdx, Array.getElem?_map, Array.size_map, Option.map_map]
  refine congrArg (Option.map · bodies[i]?) (funext fun b => ?_)
  exact List.foldl_hom (Body.map value) fun b j => repelFrom_value f alpha bodies i b j

/-- The distance that a collision is reckoned with: that of the bodies, or how far they are jiggled
apart. -/
theorem collision_ne_zero (i j : Nat) (l dx : ℝ) : (if Scalar.lt l epsilon = true then
    Scalar.abs (if Scalar.lt l epsilon = true then jiggle i j else dx) else l) ≠ 0 := by
  split
  · exact abs_ne_zero.2 (jiggle_ne_zero i j)
  · next hapart =>
    rw [Scalar.lt_real, not_lt] at hapart
    exact (epsilon_pos.trans_le hapart).ne'

theorem collidePair_value (f : ForceField ℝ) (i : Nat) (bodies : Array (Body ℝ)) (j : Nat) :
    (f.map value).collidePair i (bodies.map (Body.map value)) j =
      (f.collidePair i bodies j).map (Body.map value) := by
  have hdistance (x l dx : ℝ) := value_div (x := x) (collision_ne_zero i j l dx)
  simp only [collidePair, Body.getD_map (g := value) rfl, Body.map_x, Body.map_y, Body.map_vx,
    Body.map_vy, map_settings, LayoutSettings.map_minSeparation, value_add, value_sub, hypot_value,
    le_value, epsilon_value, lt_value, jiggle_value, ite_value, abs_value, hdistance, value_mul,
    ofScientific_eq]
  split
  · rfl
  · rw [Array.map_setIfInBounds, Array.map_setIfInBounds]
    rfl

theorem collide_value (f : ForceField ℝ) (bodies : Array (Body ℝ)) :
    (f.map value).collide (bodies.map (Body.map value)) =
      (f.collide bodies).map (Body.map value) := by
  rw [collide, collide, Array.size_map]
  refine List.foldl_hom (Array.map (Body.map value)) fun bs i => ?_
  rw [Array.size_map]
  exact List.foldl_hom (Array.map (Body.map value)) fun bs j => collidePair_value f i bs j

theorem drift_value (bodies : Array (Body ℝ)) :
    (bodies.map (Body.map value)).map Body.drift = (bodies.map Body.drift).map (Body.map value) := by
  rw [Array.map_map, Array.map_map]
  rfl

theorem recenter_value (f : ForceField ℝ) {bodies : Array (Body ℝ)} (h : bodies.size ≠ 0) :
    (f.map value).recenter (bodies.map (Body.map value)) =
      (f.recenter bodies).map (Body.map value) := by
  have hmean (x : ℝ) : value x / value (Scalar.ofNat bodies.size) =
      value (x / Scalar.ofNat bodies.size) := value_div (Nat.cast_ne_zero.2 h)
  have hsum (read : Body ℝ → ℝ) (read' : Body PartialReal → PartialReal)
      (hread : ∀ b, read' (b.map value) = value (read b)) :
      Scalar.sum ((bodies.map (Body.map value)).toList.map read') =
        value (Scalar.sum (bodies.toList.map read)) := by
    rw [← sum_value, Array.toList_map, List.map_map, List.map_map]
    exact congrArg Scalar.sum (List.map_congr_left fun b _ => hread b)
  simp only [recenter, hsum (·.x) (·.x) fun _ => rfl, hsum (·.y) (·.y) fun _ => rfl, Array.size_map,
    ofNat_eq, hmean, map_zone, Zone.center_value, value_sub, value_mul, map_settings,
    LayoutSettings.map_centerStrength, Array.map_map]
  rfl

theorem inset_value (f : ForceField ℝ) (extent : ℝ) :
    (f.map value).inset (value extent) = value (f.inset extent) := by
  simp only [inset, map_settings, LayoutSettings.map_minSeparation, half_value, min_value]

theorem confine?_value (f : ForceField ℝ) (b : Body ℝ) :
    (f.map value).confine? (b.map value) = (f.confine? b).map (Body.map value) := by
  simp only [confine?, map_zone, Zone.map_x, Zone.map_y, Zone.map_width, Zone.map_height,
    inset_value, value_add, value_sub, Body.map_x, Body.map_y, clamp?_value]
  generalize Scalar.clamp? _ _ b.x = x
  generalize Scalar.clamp? _ _ b.y = y
  cases x <;> cases y <;> rfl

theorem mapM_confine?_value (f : ForceField ℝ) (bodies : Array (Body ℝ)) :
    (bodies.map (Body.map value)).mapM (f.map value).confine? =
      (bodies.mapM f.confine?).map (Array.map (Body.map value)) := by
  have hlist (bs : List (Body ℝ)) : (bs.map (Body.map value)).mapM (f.map value).confine? =
      (bs.mapM f.confine?).map (List.map (Body.map value)) := by
    induction bs with
    | nil => rfl
    | cons b bs ih =>
      rw [List.map_cons, List.mapM_cons, List.mapM_cons, ih, confine?_value]
      cases f.confine? b with
      | none => rfl
      | some b' => cases bs.mapM f.confine? <;> rfl
  rw [Array.mapM_eq_mapM_toList, Array.mapM_eq_mapM_toList, Array.toList_map, hlist]
  cases bodies.toList.mapM f.confine? with
  | none => rfl
  | some bs => exact congrArg some (List.map_toArray ..).symm

/-! ### A whole run -/

theorem tick_value (h : f.CountsLinks) (alpha : ℝ) {bodies : Array (Body ℝ)}
    (hbodies : bodies.size ≠ 0) :
    (f.map value).tick (value alpha) (bodies.map (Body.map value)) =
      (f.tick alpha bodies).map (Array.map (Body.map value)) := by
  rw [tick, tick, attract_value h, repel_value, collide_value, drift_value, recenter_value f,
    mapM_confine?_value]
  rwa [Array.size_map, size_collide, size_repel, size_attract]

theorem run_value (h : f.CountsLinks) (decay : ℝ) (n : Nat) (alpha : ℝ) {bodies : Array (Body ℝ)}
    (hbodies : bodies.size ≠ 0) :
    (f.map value).run (value decay) n (value alpha) (bodies.map (Body.map value)) =
      (f.run decay n alpha bodies).map (Array.map (Body.map value)) := by
  induction n generalizing alpha bodies with
  | zero => rfl
  | succ n ih =>
    simp only [run, value_mul, value_sub, tick_value h _ hbodies]
    cases htick : f.tick (alpha - alpha * decay) bodies with
    | none => rfl
    | some next => exact ih _ (size_tick htick ▸ hbodies)

theorem cooling_value (ticks : Nat) : (cooling ticks : PartialReal) = value (cooling ticks) := by
  have hticks (x : ℝ) : value x / value (Scalar.ofNat (max ticks 1)) =
      value (x / Scalar.ofNat (max ticks 1)) :=
    value_div (Nat.cast_ne_zero.2 (by omega))
  have hbase (x : ℝ) : Scalar.pow (value 0.001) (value x) = value (Scalar.pow 0.001 x) :=
    pow_value (by norm_num)
  simp only [cooling, ofNat_eq, ofScientific_eq, hticks]
  rw [hbase]
  rfl

/-- Each link is between two different ones of so many bodies, and the degree of a body is the number
of links that it is an end of. -/
structure Linked (f : ForceField ℝ) (n : Nat) : Prop where
  ends : ∀ link ∈ f.links, link.1 < n ∧ link.2 < n ∧ link.1 ≠ link.2
  degree : f.degree =
    (Array.range n).map fun i => f.links.countP (·.1 = i) + f.links.countP (·.2 = i)

theorem Linked.countsLinks {n : Nat} (h : f.Linked n) : f.CountsLinks := by
  rintro ⟨s, t⟩ hlink
  obtain ⟨hs, -, -⟩ := h.ends _ hlink
  have hcount : 0 < f.links.countP (·.1 = s) :=
    List.countP_pos_iff.2 ⟨_, hlink, decide_eq_true rfl⟩
  have hdegree : f.degree.getD s 0 = f.links.countP (·.1 = s) + f.links.countP (·.2 = s) := by
    simp [h.degree, hs]
  rw [hdegree]
  omega

theorem linked_ofGraph (settings : LayoutSettings ℝ) (zone : Zone ℝ)
    (adjacency : Array (List Nat)) (members : List Nat) :
    (ofGraph settings zone adjacency members).Linked members.length where
  ends link hlink := by
    obtain ⟨⟨node, s⟩, hs, hmem⟩ := List.mem_flatMap.1 hlink
    obtain ⟨t, ht, hst⟩ := List.mem_filterMap.1 hmem
    obtain ⟨target, -, htarget⟩ := List.mem_filterMap.1 ht
    split at hst
    · contradiction
    · next hne =>
      obtain rfl := Option.some.inj hst
      obtain ⟨hlt, -⟩ := List.idxOf?_eq_some_iff.1 htarget
      exact ⟨(List.getElem?_eq_some_iff.1 (List.mem_zipIdx_iff_getElem?.1 hs)).1, hlt, hne⟩
  degree := rfl

theorem countsLinks_ofGraph (settings : LayoutSettings ℝ) (zone : Zone ℝ)
    (adjacency : Array (List Nat)) (members : List Nat) :
    (ofGraph settings zone adjacency members).CountsLinks :=
  (linked_ofGraph settings zone adjacency members).countsLinks

end ForceField

/-! ### The start -/

namespace Zoned

variable {γ : Type}

/-- The same draws as partial numbers. -/
def drawn (draw : γ → ℝ × γ) (s : γ) : PartialReal × γ := (value (draw s).1, (draw s).2)

theorem scatter_value (draw : γ → ℝ × γ) (z : Zone ℝ) (n : Nat) (s : γ) :
    (scatter (drawn draw) (z.map value) n s).1 = (scatter draw z n s).1.map (Body.map value) := by
  induction n generalizing s with
  | zero => rfl
  | succ n ih =>
    simp only [scatter, drawn, ih, Zone.center_value, List.map_cons]
    rfl

end Zoned

end ModuleAtlas
