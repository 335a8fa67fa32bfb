import Mathlib.Data.List.TakeWhile
import Mathlib.Logic.Relation
import ModuleAtlas.Metrics.Measure

/-!
# Counting lines

The lines that are counted are the pieces between line feeds that are not blank (`countLines_eq`):
what is cut off at the ends of a line is blank, and so is a carriage return before a line feed. So the
count goes line by line: it is one or none for a single line (`filled_line`), and a line feed adds up
what stands on its two sides (`filled_append_cons`). All else follows from these two by induction on
lines (`line_induction`): the count is the same whatever blank characters stand behind a text
(`filled_append_blank`), and so whatever blank lines it has and however its lines end
(`countLines_relaid`).
-/

namespace ModuleAtlas

namespace Text

variable {line text space s t : List Char} {c : Char}

/-! ### The lines and the pieces -/

theorem trim_isEmpty (line : List Char) : (trim line).isEmpty = line.all isBlank := by
  have hrest : (trim line).isEmpty = (line.dropWhile isBlank).all isBlank := by
    rw [Bool.eq_iff_iff, List.isEmpty_iff, trim, List.reverse_eq_nil_iff, List.dropWhile_eq_nil_iff]
    simp
  have hfirst : (line.takeWhile isBlank).all isBlank = true := List.all_takeWhile
  rw [hrest, ← Bool.true_and (List.all _ _), ← hfirst, ← List.all_append,
    List.takeWhile_append_dropWhile]

theorem all_withoutReturn (line : List Char) :
    (withoutReturn line).all isBlank = line.all isBlank := by
  rw [withoutReturn]
  split
  · next hlast =>
    obtain ⟨before, rfl⟩ := List.getLast?_eq_some_iff.1 hlast
    have hreturn : ['\r'].all isBlank = true := by decide
    rw [List.dropLast_concat, List.all_append, hreturn, Bool.and_true]
  · rfl

/-- How many of the pieces of a text between line feeds are not blank. -/
def filled (text : List Char) : Nat := (text.splitOn '\n').countP fun piece => !piece.all isBlank

theorem countP_linesOf (text : List Char) :
    (linesOf text).countP (fun line => !(trim line).isEmpty) = filled text := by
  obtain ⟨pieces, last, hpieces⟩ : ∃ pieces last, text.splitOn '\n' = pieces ++ [last] :=
    ⟨_, _, (List.dropLast_concat_getLast (List.splitOn_ne_nil '\n' text)).symm⟩
  have hlast : (Option.toList (Option.filter (!·.isEmpty) (some last))).countP
      (fun line => !line.all isBlank) = [last].countP fun line => !line.all isBlank := by
    cases last <;> rfl
  simp only [linesOf, filled, hpieces, List.dropLast_concat, List.getLast?_concat, trim_isEmpty,
    List.countP_append, List.countP_map, Function.comp_def, all_withoutReturn, hlast]

/-! ### Line by line -/

/-- A text is a single line, or a line feed cuts a line off it. -/
theorem line_induction {motive : List Char → Prop} (line : ∀ l, '\n' ∉ l → motive l)
    (cut : ∀ l rest, '\n' ∉ l → motive rest → motive (l ++ '\n' :: rest)) (text : List Char) :
    motive text := by
  -- the line so far stands before the rest of the text
  suffices h : ∀ l, '\n' ∉ l → motive (l ++ text) from h [] List.not_mem_nil
  induction text with
  | nil => exact fun l hl => (List.append_nil l).symm ▸ line l hl
  | cons c rest ih =>
    intro l hl
    by_cases hc : c = '\n'
    · exact hc ▸ cut l rest hl (ih [] List.not_mem_nil)
    · rw [List.append_cons]
      exact ih (l ++ [c]) (by simp [hl, Ne.symm hc])

theorem filled_append_cons (s t : List Char) : filled (s ++ '\n' :: t) = filled s + filled t := by
  have hcut : (s ++ '\n' :: t).splitOn '\n' = s.splitOn '\n' ++ t.splitOn '\n' :=
    List.splitOnP_append_cons s t rfl
  rw [filled, hcut, List.countP_append, filled, filled]

theorem filled_line (h : '\n' ∉ line) : filled line = if line.all isBlank then 0 else 1 := by
  rw [filled, List.splitOn_eq_singleton h, List.countP_singleton]
  cases line.all isBlank <;> rfl

theorem filled_concat_blank (h : isBlank c = true) (text : List Char) :
    filled (text ++ [c]) = filled text := by
  by_cases hc : c = '\n'
  · have hnil : filled [] = 0 := filled_line List.not_mem_nil
    rw [hc, filled_append_cons, hnil, Nat.add_zero]
  · induction text using line_induction with
    | line l hl =>
      have hl' : '\n' ∉ l ++ [c] := by simp [hl, Ne.symm hc]
      rw [filled_line hl, filled_line hl', List.all_append, List.all_cons, h, List.all_nil,
        Bool.and_true, Bool.and_true]
    | cut l rest hl ih =>
      rw [List.append_assoc, List.cons_append, filled_append_cons, filled_append_cons, ih]

theorem filled_append_blank (h : space.all isBlank = true) (text : List Char) :
    filled (text ++ space) = filled text := by
  induction space generalizing text with
  | nil => rw [List.append_nil]
  | cons c space ih =>
    rw [List.all_cons, Bool.and_eq_true] at h
    rw [List.append_cons, ih h.2, filled_concat_blank h.1]

theorem filled_blank (h : space.all isBlank = true) : filled space = 0 :=
  (filled_append_blank h []).trans (filled_line List.not_mem_nil)

/-! ### How lines end -/

/-- The second text is the first with a carriage return put before some of its line feeds. -/
inductive GainsReturns : List Char → List Char → Prop
  | nil : GainsReturns [] []
  | keep {s t : List Char} (c : Char) : GainsReturns s t → GainsReturns (c :: s) (c :: t)
  | gain {s t : List Char} : GainsReturns s t → GainsReturns ('\n' :: s) ('\r' :: '\n' :: t)

/-- The text with a carriage return before each of its line feeds. -/
def withReturns : List Char → List Char
  | [] => []
  | '\r' :: '\n' :: rest => '\r' :: '\n' :: withReturns rest
  | '\n' :: rest => '\r' :: '\n' :: withReturns rest
  | c :: rest => c :: withReturns rest

theorem gainsReturns_withReturns (text : List Char) : GainsReturns text (withReturns text) := by
  fun_induction withReturns text with
  | case1 => exact .nil
  | case2 rest ih => exact .keep _ (.keep _ ih)
  | case3 rest ih => exact .gain ih
  | case4 c rest _ _ ih => exact .keep c ih

/-- What stands before is part of the line that gains a carriage return. -/
theorem filled_gainsReturns (h : GainsReturns s t) (before : List Char) :
    filled (before ++ t) = filled (before ++ s) := by
  induction h generalizing before with
  | nil => rfl
  | keep c _ ih => simpa using ih (before ++ [c])
  | gain _ ih =>
    have hreturn : isBlank '\r' = true := by decide
    rw [List.append_cons, filled_append_cons, filled_append_cons, filled_concat_blank hreturn]
    exact congrArg _ (ih [])

end Text

/-! ### The count -/

open Text

theorem countLines_eq (text : String) : countLines text = filled text.toList :=
  countP_linesOf text.toList

/-- The second text has the lines of the first, but for blank ones, and its lines may end in another
way. -/
inductive Relaid : String → String → Prop
  | blankFirst (space text : String) : space.toList.all isBlank = true →
      Relaid text (space ++ "\n" ++ text)
  | blankBetween (a space b : String) : space.toList.all isBlank = true →
      Relaid (a ++ "\n" ++ b) (a ++ "\n" ++ space ++ "\n" ++ b)
  | blankLast (text space : String) : space.toList.all isBlank = true →
      Relaid text (text ++ "\n" ++ space)
  | newline (text : String) : Relaid text (text ++ "\n")
  | returns {text text' : String} : GainsReturns text.toList text'.toList → Relaid text text'

theorem countLines_append (a b : String) :
    countLines (a ++ "\n" ++ b) = countLines a + countLines b := by
  have htext : (a ++ "\n" ++ b).toList = a.toList ++ '\n' :: b.toList := by simp
  rw [countLines_eq, htext, filled_append_cons, countLines_eq, countLines_eq]

theorem countLines_relaid {text text' : String} (h : Relaid text text') :
    countLines text' = countLines text := by
  have hblank {space : String} (hspace : space.toList.all isBlank = true) : countLines space = 0 :=
    (countLines_eq space).trans (filled_blank hspace)
  cases h with
  | blankFirst space text hspace => rw [countLines_append, hblank hspace, Nat.zero_add]
  | blankBetween a space b hspace =>
    rw [countLines_append, countLines_append, countLines_append, hblank hspace, Nat.add_zero]
  | blankLast text space hspace => rw [countLines_append, hblank hspace, Nat.add_zero]
  | newline text =>
    rw [countLines_eq, String.toList_append, countLines_eq]
    exact filled_append_blank (by decide) _
  | returns hreturns =>
    rw [countLines_eq, countLines_eq]
    exact filled_gainsReturns hreturns []

theorem relaid_withReturns (text : String) : Relaid text (.ofList (withReturns text.toList)) :=
  .returns (String.toList_ofList.symm ▸ gainsReturns_withReturns text.toList)

theorem linesOfCode_measure (verdict : Source.Verdict) (name text : String) :
    (measure verdict name text).linesOfCode = countLines text := by
  rw [measure]
  dsimp only
  split <;> rfl

/-- A line feed adds up the lines of code on its two sides, and a single line is one unless it is
blank. So there are as many in a text when blank lines are put in or taken out, when line feeds are
added or removed at its end, and when its lines, be it some or all, end in a carriage return and a
line feed instead. The metrics tell of this number whether the text makes sense or not. -/
theorem linesOfCode_additive :
    (∀ a b, countLines (a ++ "\n" ++ b) = countLines a + countLines b) ∧
    (∀ line : String, '\n' ∉ line.toList →
      countLines line = if line.toList.all isBlank then 0 else 1) ∧
    (∀ text text', Relation.EqvGen Relaid text text' → countLines text' = countLines text) ∧
    (∀ text : String, Relaid text (.ofList (withReturns text.toList))) ∧
    ∀ verdict name text, (measure verdict name text).linesOfCode = countLines text := by
  refine ⟨countLines_append, fun line hline => ?_, fun text text' h => ?_, relaid_withReturns,
    linesOfCode_measure⟩
  · rw [countLines_eq, filled_line hline]
  · induction h with
    | rel _ _ h => exact countLines_relaid h
    | refl _ => rfl
    | symm _ _ _ ih => exact ih.symm
    | trans _ _ _ _ _ ih ih' => exact ih'.trans ih

/-- A line with a carriage return within it, and two lines between which a blank one is put before
all get another end. -/
theorem linesOfCode_additive_relaid :
    ('\n' ∉ "a\rb".toList ∧ countLines "a\rb" = 1) ∧
    Relation.EqvGen Relaid "a\nb" "a\r\n\u2003\r\nb\r\n" ∧
      countLines "a\r\n\u2003\r\nb\r\n" = 2 := by
  obtain ⟨hadds, hline, hrelaid, hreturns, -⟩ := linesOfCode_additive
  have hone {line : String} (hend : '\n' ∉ line.toList)
      (hfilled : line.toList.all isBlank = false) : countLines line = 1 := by
    rw [hline line hend, hfilled]
    rfl
  have hblank : Relaid "a\nb" "a\n\u2003\nb" := .blankBetween "a" "\u2003" "b" (by decide)
  have hend : Relaid "a\n\u2003\nb" "a\n\u2003\nb\n" := .newline _
  have hall : Relaid "a\n\u2003\nb\n" "a\r\n\u2003\r\nb\r\n" := hreturns "a\n\u2003\nb\n"
  have hequiv : Relation.EqvGen Relaid "a\nb" "a\r\n\u2003\r\nb\r\n" :=
    .trans _ _ _ (.rel _ _ hblank) (.trans _ _ _ (.rel _ _ hend) (.rel _ _ hall))
  refine ⟨⟨by decide, hone (by decide) (by decide)⟩, hequiv, ?_⟩
  calc countLines "a\r\n\u2003\r\nb\r\n" = countLines "a\nb" := hrelaid _ _ hequiv
    _ = countLines "a" + countLines "b" := hadds "a" "b"
    _ = 2 := by rw [hone (by decide) (by decide), hone (by decide) (by decide)]

end ModuleAtlas
