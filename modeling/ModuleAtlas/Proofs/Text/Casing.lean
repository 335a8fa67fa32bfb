import Mathlib.Data.List.TakeWhile
import ModuleAtlas.Text.Lowercase

/-!
# The lower case of a part

A text is put in lower case character by character, but the form of a capital sigma turns on what
stands around it (`isFinal`). So the lower case of a part need not stand in the lower case of the
whole: within a word, the sigma at the end of the part is no longer a final one. It does stand in the
lower case of every text with the part if and only if the part settles the form of each of its
capital sigmas by itself (`lowercase_infix_iff`).

The characters before a place are listed from the nearest on.
-/

namespace ModuleAtlas.Text

variable {before before' after after' cs u v : List Char} {c : Char}

/-! ### The form of a sigma -/

/-- Whether a capital sigma between the characters gets its final form. -/
def isFinal (before after : List Char) : Bool := nextIsCased before && !nextIsCased after

/-- The nearest character that counts. -/
def nearest? (cs : List Char) : Option Char := cs.find? fun c => !isCaseIgnorable c

theorem nextIsCased_eq (cs : List Char) : nextIsCased cs = (nearest? cs).any isCased := by
  rw [nextIsCased, nearest?, List.find?_not_eq_head?_dropWhile]
  cases cs.dropWhile isCaseIgnorable with
  | nil => rfl
  | cons c _ => exact Option.any_some.symm

theorem nearest?_append (u v : List Char) : nearest? (u ++ v) = (nearest? u).or (nearest? v) :=
  List.find?_append

/-- The nearest of several characters is the first one, if it counts. -/
theorem nearest?_cons (h : isCaseIgnorable c = false) (cs : List Char) :
    nearest? (c :: cs) = some c := by
  rw [nearest?, List.find?_cons, h]
  rfl

theorem isCaseIgnorable_of_nearest? (h : nearest? cs = none) (hc : c ∈ cs) :
    isCaseIgnorable c = true := by
  simpa using List.find?_eq_none.1 h c hc

/-- Lists are searched faster than arrays where a proof is checked. -/
theorem isCaseIgnorable_eq (c : Char) : isCaseIgnorable c =
    caseIgnorableRanges.toList.any fun (first, last) => first ≤ c.toNat && c.toNat ≤ last := by
  rw [isCaseIgnorable, inRanges, Array.any_toList]

theorem isCaseIgnorable_letter : isCaseIgnorable 'a' = false := by
  rw [isCaseIgnorable_eq]
  decide +kernel

theorem isCaseIgnorable_capitalSigma : isCaseIgnorable capitalSigma = false := by
  rw [isCaseIgnorable_eq]
  decide +kernel

/-- Whether the form of a capital sigma between the characters is the same whatever stands around
them. It is if there are characters that count on both sides. The only one before it keeps it from
its final form if it has no case, and the only one behind it if it has a case. -/
def settles (before after : List Char) : Bool :=
  match nearest? before, nearest? after with
  | some _, some _ => true
  | some c, none => !isCased c
  | none, some c => isCased c
  | none, none => false

theorem isFinal_append (h : settles u v = true) (before after : List Char) :
    isFinal (u ++ before) (v ++ after) = isFinal u v := by
  simp only [isFinal, nextIsCased_eq, nearest?_append]
  rw [settles] at h
  cases hu : nearest? u <;> cases hv : nearest? v <;> simp_all

/-- Otherwise one more letter before or behind changes it, where no other character counts. -/
theorem isFinal_of_not_settles (h : settles u v = false) :
    nearest? u = none ∧ isFinal u v = false ∧ isFinal (u ++ ['a']) v = true ∨
      nearest? v = none ∧ isFinal u v = true ∧ isFinal u (v ++ ['a']) = false := by
  have hletter : nearest? ['a'] = some 'a' := nearest?_cons isCaseIgnorable_letter []
  have hcased : isCased 'a' = true := by decide +kernel
  simp only [isFinal, nextIsCased_eq, nearest?_append, hletter]
  rw [settles] at h
  cases hu : nearest? u <;> cases hv : nearest? v <;> simp_all

/-! ### The lower case of a part -/

/-- The lower case of a character between others. -/
def lowerCaseBetween (before : List Char) (c : Char) (after : List Char) : List Char :=
  if c == capitalSigma then
    if isFinal before after then [finalSigma] else [lowerCaseOf c]
  else if c.toNat = 0x130 then ['i', Char.ofNat 0x307]
  else [lowerCaseOf c]

/-- The lower case of the characters between others. -/
def lowerCaseWithin (before after : List Char) : List Char → List Char
  | [] => []
  | c :: cs => lowerCaseBetween before c (cs ++ after) ++ lowerCaseWithin (c :: before) after cs

theorem lowerCaseAfter_eq (before cs : List Char) :
    lowerCaseAfter before cs = lowerCaseWithin before [] cs := by
  induction cs generalizing before with
  | nil => rfl
  | cons c cs ih =>
    rw [lowerCaseWithin, ← ih, List.append_nil]
    rfl

theorem toList_lowercase (s : String) : (lowercase s).toList = lowerCaseWithin [] [] s.toList := by
  rw [lowercase, String.toList_ofList, lowerCaseAfter_eq]

theorem lowerCaseWithin_append (before after u v : List Char) :
    lowerCaseWithin before after (u ++ v) =
      lowerCaseWithin before (v ++ after) u ++ lowerCaseWithin (u.reverse ++ before) after v := by
  induction u generalizing before with
  | nil => rfl
  | cons c u ih =>
    rw [List.cons_append, lowerCaseWithin, lowerCaseWithin, ih]
    simp

/-- What stands around a part counts only for the form of the capital sigmas in it. -/
theorem lowerCaseWithin_congr (h : ∀ u v, cs = u ++ capitalSigma :: v →
      isFinal (u.reverse ++ before) (v ++ after) = isFinal (u.reverse ++ before') (v ++ after')) :
    lowerCaseWithin before after cs = lowerCaseWithin before' after' cs := by
  induction cs generalizing before before' with
  | nil => rfl
  | cons c cs ih =>
    have hhere : lowerCaseBetween before c (cs ++ after) =
        lowerCaseBetween before' c (cs ++ after') := by
      by_cases hc : c = capitalSigma
      · have hsigma : isFinal before (cs ++ after) = isFinal before' (cs ++ after') :=
          h [] cs (by rw [hc, List.nil_append])
        rw [lowerCaseBetween, lowerCaseBetween, hsigma]
      · rw [lowerCaseBetween, lowerCaseBetween, beq_false_of_ne hc]
        rfl
    have hrest : lowerCaseWithin (c :: before) after cs = lowerCaseWithin (c :: before') after' cs := by
      refine ih fun u v hcs => ?_
      have hform := h (c :: u) v (by rw [hcs, List.cons_append])
      simpa using hform
    rw [lowerCaseWithin, lowerCaseWithin, hhere, hrest]

theorem lowerCaseWithin_of_not_mem (h : capitalSigma ∉ cs) :
    lowerCaseWithin before after cs = lowerCaseWithin before' after' cs :=
  lowerCaseWithin_congr fun u v hcs => absurd (by simp [hcs]) h

theorem not_mem_of_nearest? (h : nearest? cs = none) : capitalSigma ∉ cs := fun hmem => by
  simpa [isCaseIgnorable_capitalSigma] using isCaseIgnorable_of_nearest? h hmem

/-- A capital sigma counts itself, so the characters before it and behind it have no say in the form of
one another. -/
theorem lowerCaseWithin_sigma (before after u v : List Char) :
    lowerCaseWithin before after (u ++ capitalSigma :: v) =
      lowerCaseWithin before [capitalSigma] u ++
        (if isFinal (u.reverse ++ before) (v ++ after) then finalSigma else lowerCaseOf capitalSigma) ::
          lowerCaseWithin [capitalSigma] after v := by
  have hu : lowerCaseWithin before (capitalSigma :: v ++ after) u =
      lowerCaseWithin before [capitalSigma] u := by
    refine lowerCaseWithin_congr fun u' v' _ => ?_
    simp only [isFinal, nextIsCased_eq, nearest?_append, List.cons_append,
      nearest?_cons isCaseIgnorable_capitalSigma]
  have hv : lowerCaseWithin (capitalSigma :: (u.reverse ++ before)) after v =
      lowerCaseWithin [capitalSigma] after v := by
    refine lowerCaseWithin_congr fun u' v' _ => ?_
    simp only [isFinal, nextIsCased_eq, nearest?_append,
      nearest?_cons isCaseIgnorable_capitalSigma]
  rw [lowerCaseWithin_append, lowerCaseWithin, hu, hv, lowerCaseBetween, beq_self_eq_true, if_pos rfl]
  split <;> rfl

/-! ### Parts that settle their sigmas -/

/-- The form of each capital sigma among the characters is settled by the others. -/
def Settled (cs : List Char) : Prop :=
  ∀ u v, cs = u ++ capitalSigma :: v → settles u.reverse v = true

theorem settled_of_not_mem (h : capitalSigma ∉ cs) : Settled cs :=
  fun u v hcs => absurd (by simp [hcs]) h

theorem Settled.lowerCaseWithin_eq (h : Settled cs) (before after : List Char) :
    lowerCaseWithin before after cs = lowerCaseWithin [] [] cs := by
  refine lowerCaseWithin_congr fun u v hcs => ?_
  rw [List.append_nil, List.append_nil, isFinal_append (h u v hcs)]

/-- Where one of its characters is exchanged, a part does not stand in a whole with one more. -/
theorem not_infix_of_count {x y z : Char} {part whole : List Char} (hy : y ≠ x) (hz : z ≠ x)
    (hpart : part.Perm (x :: cs)) (hwhole : whole.Perm (z :: y :: cs)) : ¬ part <:+: whole := by
  intro h
  have hle := h.sublist.count_le x
  rw [hpart.count_eq, hwhole.count_eq, List.count_cons_self, List.count_cons_of_ne hz,
    List.count_cons_of_ne hy] at hle
  omega

theorem lowerCaseWithin_sigma_perm (before after u v : List Char) :
    (lowerCaseWithin before after (u ++ capitalSigma :: v)).Perm
      ((if isFinal (u.reverse ++ before) (v ++ after) then finalSigma else 'σ') ::
        (lowerCaseWithin before [capitalSigma] u ++ lowerCaseWithin [capitalSigma] after v)) := by
  have hsigma : lowerCaseOf capitalSigma = 'σ' := by decide +kernel
  rw [lowerCaseWithin_sigma, hsigma]
  exact List.perm_middle

theorem lowerCaseBetween_letter (before after : List Char) :
    lowerCaseBetween before 'a' after = ['a'] := by
  rw [lowerCaseBetween, if_neg (by decide), if_neg (by decide)]
  decide +kernel

theorem lowerCaseWithin_letter_cons (cs : List Char) :
    lowerCaseWithin [] [] ('a' :: cs) = 'a' :: lowerCaseWithin ['a'] [] cs := by
  rw [lowerCaseWithin, lowerCaseBetween_letter]
  rfl

theorem lowerCaseWithin_concat_letter (cs : List Char) :
    lowerCaseWithin [] [] (cs ++ ['a']) = lowerCaseWithin [] ['a'] cs ++ ['a'] := by
  rw [lowerCaseWithin_append, lowerCaseWithin, lowerCaseWithin, lowerCaseBetween_letter]
  rfl

/-- If the form of a capital sigma is not settled, one more letter before or behind the part changes
it. -/
theorem exists_not_infix (h : settles u.reverse v = false) : ∃ a b,
    ¬ lowerCaseWithin [] [] (u ++ capitalSigma :: v) <:+:
      lowerCaseWithin [] [] (a ++ (u ++ capitalSigma :: v) ++ b) := by
  have hpart := lowerCaseWithin_sigma_perm [] [] u v
  rw [List.append_nil, List.append_nil] at hpart
  rcases isFinal_of_not_settles h with ⟨hnone, hhere, hthere⟩ | ⟨hnone, hhere, hthere⟩
  · have hu : lowerCaseWithin ['a'] [capitalSigma] u = lowerCaseWithin [] [capitalSigma] u :=
      lowerCaseWithin_of_not_mem fun hmem => not_mem_of_nearest? hnone (List.mem_reverse.2 hmem)
    have hwhole := lowerCaseWithin_sigma_perm ['a'] [] u v
    rw [List.append_nil, hthere, if_pos rfl, hu, ← List.perm_cons 'a',
      ← lowerCaseWithin_letter_cons] at hwhole
    rw [hhere, if_neg Bool.false_ne_true] at hpart
    refine ⟨['a'], [], ?_⟩
    rw [List.append_nil]
    exact not_infix_of_count (by decide) (by decide) hpart hwhole
  · have hv : lowerCaseWithin [capitalSigma] ['a'] v = lowerCaseWithin [capitalSigma] [] v :=
      lowerCaseWithin_of_not_mem (not_mem_of_nearest? hnone)
    have hwhole := (lowerCaseWithin_sigma_perm [] ['a'] u v).append_right ['a']
    rw [List.append_nil, hthere, if_neg Bool.false_ne_true, hv,
      ← lowerCaseWithin_concat_letter] at hwhole
    rw [hhere, if_pos rfl] at hpart
    refine ⟨[], ['a'], ?_⟩
    exact not_infix_of_count (by decide) (by decide) hpart (hwhole.trans List.perm_append_comm)

/-- The lower case of a part stands in the lower case of each text with the part if and only if the part
settles the form of its capital sigmas. -/
theorem lowercase_infix_iff (cs : List Char) :
    (∀ a b, lowerCaseWithin [] [] cs <:+: lowerCaseWithin [] [] (a ++ cs ++ b)) ↔ Settled cs := by
  constructor
  · intro h u v hcs
    by_contra hsettles
    obtain ⟨a, b, hab⟩ := exists_not_infix (Bool.eq_false_iff.2 hsettles)
    exact hab (hcs ▸ h a b)
  · intro h a b
    rw [lowerCaseWithin_append, lowerCaseWithin_append, h.lowerCaseWithin_eq (a.reverse ++ [])]
    exact ⟨_, _, rfl⟩

end ModuleAtlas.Text
