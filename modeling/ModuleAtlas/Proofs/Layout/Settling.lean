import Mathlib.Data.List.Range
import ModuleAtlas.Layout.Spacing

/-!
# When a sweep moves nothing

A step that pushes points apart does nothing where they are far enough apart already, and otherwise
says that it has moved one (`Careful`). Steps that are made one after the other are careful when each
of them is (`Careful.comp`, and `Careful.foldl` by induction on the list of steps), so a sweep that has
moved nothing has looked at all pairs in one and the same arrangement (`settled_of_settle`).
-/

namespace ModuleAtlas.Spacing

variable {α β : Type}

/-! ### Careful steps -/

/-- The step changes nothing where the condition holds, and has moved a point where it does not. -/
structure Careful (step : Spacing α → Spacing α) (holds : Spacing α → Prop) : Prop where
  still : ∀ s, holds s → step s = s
  moves : ∀ s, ¬holds s → (step s).moved = true

namespace Careful

variable {step step' : Spacing α → Spacing α} {holds holds' : Spacing α → Prop} {s : Spacing α}

/-- That a point has been moved is not forgotten. -/
theorem moved_of_moved (h : Careful step holds) (hs : s.moved = true) : (step s).moved = true := by
  by_cases hholds : holds s
  · rwa [h.still s hholds]
  · exact h.moves s hholds

theorem moved_eq_false_iff (h : Careful step holds) (hs : s.moved = false) :
    (step s).moved = false ↔ holds s := by
  constructor
  · intro hmoved
    by_contra hholds
    rw [h.moves s hholds] at hmoved
    contradiction
  · intro hholds
    rwa [h.still s hholds]

theorem comp (h : Careful step holds) (h' : Careful step' holds') :
    Careful (fun s => step' (step s)) fun s => holds s ∧ holds' s where
  still s hs := by rw [h.still s hs.1, h'.still s hs.2]
  moves s hs := by
    by_cases hfirst : holds s
    · rw [h.still s hfirst]
      exact h'.moves s fun hsecond => hs ⟨hfirst, hsecond⟩
    · exact h'.moved_of_moved (h.moves s hfirst)

variable {steps : Spacing α → β → Spacing α} {each : Spacing α → β → Prop}

theorem foldl_of_moved (h : ∀ b, Careful (steps · b) (each · b)) (bs : List β)
    (hs : s.moved = true) : (bs.foldl steps s).moved = true := by
  induction bs generalizing s with
  | nil => exact hs
  | cons b bs ih => exact ih ((h b).moved_of_moved hs)

/-- Which steps are to be made may depend on the points at the beginning. -/
theorem foldl (h : ∀ b, Careful (steps · b) (each · b)) (bs : Spacing α → List β) :
    Careful (fun s => (bs s).foldl steps s) fun s => ∀ b ∈ bs s, each s b where
  still s hs := by
    generalize bs s = bs at hs
    induction bs with
    | nil => rfl
    | cons b bs ih =>
      obtain ⟨hb, hbs⟩ := List.forall_mem_cons.1 hs
      rw [List.foldl_cons, (h b).still s hb]
      exact ih hbs
  moves s hs := by
    generalize bs s = bs at hs
    induction bs with
    | nil => simp at hs
    | cons b bs ih =>
      rw [List.foldl_cons]
      by_cases hb : each s b
      · -- nothing has changed up to here
        rw [(h b).still s hb]
        exact ih fun hbs => hs (List.forall_mem_cons.2 ⟨hb, hbs⟩)
      · exact foldl_of_moved h bs ((h b).moves s hb)

end Careful

/-- What no step changes is unchanged in the end. -/
theorem foldl_keeps {σ δ : Type} {step : σ → β → σ} (measure : σ → δ)
    (h : ∀ s b, measure (step s b) = measure s) (bs : List β) (s : σ) :
    measure (bs.foldl step s) = measure s := by
  induction bs generalizing s with
  | nil => rfl
  | cons b bs ih => rw [List.foldl_cons, ih, h]

/-! ### Sweeps -/

variable [Scalar α] {obstacles : List (Position α)} {spacing : α} {points : Array (Position α)}
  {s : Spacing α} {i n : Nat}

/-- Two points are not pushed apart. -/
def FarApart (spacing : α) (p q : Position α) : Prop :=
  Scalar.le (spacing - epsilon) (p.distance q) = true

/-- The point with this number is pushed away neither from a later one nor from an obstacle. -/
structure Free (obstacles : List (Position α)) (spacing : α) (points : Array (Position α)) (i : Nat) :
    Prop where
  later : ∀ j ∈ List.range' (i + 1) (points.size - (i + 1)),
    FarApart spacing (points.getD i .origin) (points.getD j .origin)
  obstacles : ∀ o ∈ obstacles, FarApart spacing (points.getD i .origin) o

theorem careful_pushPair (spacing : α) (i j : Nat) : Careful (pushPair spacing i · j) fun s =>
    FarApart spacing (s.points.getD i .origin) (s.points.getD j .origin) where
  still _ h := if_pos h
  moves _ h := congrArg Spacing.moved (if_neg h)

theorem careful_pushOff (spacing : α) (i : Nat) (o : Position α) :
    Careful (pushOff spacing i · o) fun s => FarApart spacing (s.points.getD i .origin) o where
  still _ h := if_pos h
  moves _ h := congrArg Spacing.moved (if_neg h)

theorem careful_sweepFrom (obstacles : List (Position α)) (spacing : α) (i : Nat) :
    Careful (sweepFrom obstacles spacing · i) fun s => Free obstacles spacing s.points i := by
  have hlater := Careful.foldl (careful_pushPair spacing i) fun s =>
    List.range' (i + 1) (s.points.size - (i + 1))
  have hobstacles := Careful.foldl (careful_pushOff spacing i) fun _ => obstacles
  have hboth := hlater.comp hobstacles
  exact ⟨fun s h => hboth.still s ⟨h.later, h.obstacles⟩,
    fun s h => hboth.moves s fun hs => h ⟨hs.1, hs.2⟩⟩

/-- Nothing is pushed anywhere. -/
def Settled (obstacles : List (Position α)) (spacing : α) (points : Array (Position α)) : Prop :=
  ∀ i < points.size, Free obstacles spacing points i

theorem Settled.pair (h : Settled obstacles spacing points) {j : Nat} (hij : i < j)
    (hj : j < points.size) : FarApart spacing (points.getD i .origin) (points.getD j .origin) := by
  refine (h i (hij.trans hj)).later j ?_
  rw [List.mem_range'_1]
  omega

theorem sweep_of_settled (h : Settled obstacles spacing points) :
    sweep obstacles spacing points = ⟨points, false⟩ :=
  (Careful.foldl (careful_sweepFrom obstacles spacing) fun _ => List.range points.size).still
    ⟨points, false⟩ fun i hi => h i (List.mem_range.1 hi)

theorem settled_of_sweep (h : (sweep obstacles spacing points).moved = false) :
    Settled obstacles spacing points := by
  have hall := (Careful.moved_eq_false_iff (Careful.foldl (careful_sweepFrom obstacles spacing)
    fun _ => List.range points.size) (s := ⟨points, false⟩) rfl).1 h
  exact fun i hi => hall i (List.mem_range.2 hi)

theorem settle_of_settled (h : Settled obstacles spacing points) :
    settle obstacles spacing (n + 1) points = ⟨points, false⟩ := by
  rw [settle, sweep_of_settled h]
  rfl

/-- Sweeps that end because nothing has moved end with points that are far enough apart. -/
theorem settled_of_settle (h : (settle obstacles spacing n points).moved = false) :
    Settled obstacles spacing (settle obstacles spacing n points).points := by
  induction n generalizing points with
  | zero => contradiction
  | succ n ih =>
    rw [settle] at h ⊢
    split at h
    · next hmoved =>
      rw [if_pos hmoved]
      exact ih h
    · next hmoved =>
      have hsettled := settled_of_sweep h
      rwa [if_neg hmoved, sweep_of_settled hsettled]

/-! ### How many points there are -/

theorem size_pushPair (spacing : α) (i : Nat) (s : Spacing α) (j : Nat) :
    (pushPair spacing i s j).points.size = s.points.size := by
  rw [pushPair]
  dsimp only
  split
  · rfl
  · simp

theorem size_pushOff (spacing : α) (i : Nat) (s : Spacing α) (o : Position α) :
    (pushOff spacing i s o).points.size = s.points.size := by
  rw [pushOff]
  dsimp only
  split
  · rfl
  · simp

theorem size_sweep (obstacles : List (Position α)) (spacing : α) (points : Array (Position α)) :
    (sweep obstacles spacing points).points.size = points.size := by
  refine foldl_keeps (Array.size ∘ Spacing.points) (fun s i => ?_) _ _
  exact (foldl_keeps (Array.size ∘ Spacing.points) (size_pushOff spacing i) _ _).trans
    (foldl_keeps (Array.size ∘ Spacing.points) (size_pushPair spacing i) _ _)

theorem size_settle (obstacles : List (Position α)) (spacing : α) (n : Nat)
    (points : Array (Position α)) : (settle obstacles spacing n points).points.size = points.size := by
  induction n generalizing points with
  | zero => rfl
  | succ n ih =>
    rw [settle]
    split
    · rw [ih, size_sweep]
    · exact size_sweep ..

end ModuleAtlas.Spacing
