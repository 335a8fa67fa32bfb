import Mathlib.Data.List.TakeWhile
import ModuleAtlas.Grammar.Name
import ModuleAtlas.Source.Item

/-!
# Reading literals

A string between two quotes of one kind, without that quote, escapes and line ends in it, is a literal
of the string (`IsLiteral`). Wherever it stands in a script, it is read as one node that covers the
whole literal and nothing else (`exists_quotedText`).

A script is looked at as the characters before a place and those behind it: there the lexemes are
prefixes of a list (`scanWhile_append`).
-/

namespace ModuleAtlas.Grammar

open Source

variable {before after : List Char} {c quote : Char} {s text : String}

/-- The text is the string between two quotes, spelled with its own characters. -/
structure IsLiteral (quote : Char) (text s : String) : Prop where
  isQuote : quote = '"' ∨ quote = '\''
  toList_eq : text.toList = quote :: s.toList ++ [quote]
  plain : ∀ c ∈ s.toList, c ≠ quote ∧ c ≠ '\\' ∧ endsLine c = false

/-! ### Places in a script -/

theorem scanWhile_append (test : Char → Bool) (before after : List Char) :
    scanWhile test (before ++ after).toArray before.length =
      before.length + (after.takeWhile test).length := by
  induction after generalizing before with
  | nil => rw [scanWhile, dif_neg (by simp)]; simp
  | cons c after ih =>
    have hlt : before.length < (before ++ c :: after).toArray.size := by simp
    have hc : (before ++ c :: after).toArray[before.length] = c := by simp
    rw [scanWhile, dif_pos hlt, hc]
    cases htest : test c with
    | false => simp [htest]
    | true =>
      have hnext := ih (before ++ [c])
      rw [List.append_assoc, List.singleton_append, List.length_append, List.length_singleton] at hnext
      rw [if_pos rfl, hnext, List.takeWhile_cons_of_pos htest, List.length_cons, Nat.add_right_comm]
      rfl

theorem charAt_append (before : List Char) (c : Char) (after : List Char) :
    charAt (before ++ c :: after).toArray before.length = c := by
  simp [charAt]

/-- How often a place can be passed that is not the end of the script. -/
theorem size_sub_append (before : List Char) (c : Char) (after : List Char) :
    (before ++ c :: after).toArray.size + 1 - before.length = after.length + 2 := by
  rw [List.size_toArray, List.length_append, List.length_cons]
  omega

/-- No blanks and comments are passed where something else stands. -/
theorem skipTrivia_append (hseparator : Text.isSeparator c = false) (hslash : c ≠ '/') :
    skipTrivia (before ++ c :: after).toArray before.length = before.length := by
  have hscan : scanWhile Text.isSeparator (before ++ c :: after).toArray before.length =
      before.length := by
    rw [scanWhile_append, List.takeWhile_cons_of_neg (by simp [hseparator])]
    rfl
  have hcomment : commentEnd? (before ++ c :: after).toArray before.length = none := by
    rw [commentEnd?, charAt_append, if_pos (by simpa using hslash)]
  rw [skipTrivia, size_sub_append, skipTriviaIn, hscan, hcomment]

/-! ### Quoted texts -/

theorem skipTrivia_quote (hquote : quote = '"' ∨ quote = '\'') (before after : List Char) :
    skipTrivia (before ++ quote :: after).toArray before.length = before.length := by
  rcases hquote with rfl | rfl <;> exact skipTrivia_append (by decide) (by decide)

/-- The inside of a literal ends where its second quote stands. -/
theorem quotedEndIn_append (h : IsLiteral quote text s) (before after : List Char) (fuel : Nat) :
    quotedEndIn quote (before ++ (s.toList ++ quote :: after)).toArray (fuel + 1) before.length =
      before.length + s.toList.length := by
  have hplain (c : Char) (hc : c ∈ s.toList) :
      (c != quote && c != '\\' && c != '\r' && c != '\n') = true := by
    obtain ⟨hquote, hescape, hline⟩ := h.plain c hc
    have hreturn : c ≠ '\r' := by rintro rfl; simp [endsLine] at hline
    have hfeed : c ≠ '\n' := by rintro rfl; simp [endsLine] at hline
    simp [hquote, hescape, hreturn, hfeed]
  have hscan : scanWhile (fun c => c != quote && c != '\\' && c != '\r' && c != '\n')
      (before ++ (s.toList ++ quote :: after)).toArray before.length =
        before.length + s.toList.length := by
    rw [scanWhile_append, List.takeWhile_append_of_pos hplain, List.takeWhile_cons_of_neg (by simp),
      List.append_nil]
  have hescape : escapeEnd? (before ++ (s.toList ++ quote :: after)).toArray
      (before.length + s.toList.length) = none := by
    have hchar := charAt_append (before ++ s.toList) quote after
    rw [List.append_assoc, List.length_append] at hchar
    have hbackslash : quote ≠ '\\' := by rcases h.isQuote with rfl | rfl <;> decide
    rw [escapeEnd?, hchar, if_pos (by simp [hbackslash])]
  rw [quotedEndIn, hscan, hescape]

/-- What has one reading is followed by the rest of the phrase. -/
theorem bind_of_eq {α β : Type} {r : Reader α} {f : α → Reader β} {setting : Setting} {i j : Nat}
    {p p' : Progress} {a : α} (h : r setting i p = ([(a, j)], p')) :
    (r >>= f) setting i p = f a setting j p' := by
  show Reader.bind r f setting i p = _
  rw [Reader.bind, h]

theorem mark_quote (hquote : quote = '"' ∨ quote = '\'') (before after : List Char) (markup : Bool)
    (p : Progress) :
    Reader.mark (String.singleton quote) ⟨(before ++ quote :: after).toArray, markup⟩ before.length p =
      ([(.leaf (.token (String.singleton quote)) before.length (before.length + 1),
        before.length + 1)], p) := by
  have hlength : (String.singleton quote).length = 1 := by simp
  have hstands : standsAt (before ++ quote :: after).toArray before.length
      (String.singleton quote) = true := by
    simp [standsAt, charAt_append]
  rw [Reader.mark, Reader.markUnless, Reader.lexeme]
  dsimp only
  rw [skipTrivia_quote hquote, hstands, hlength]
  rfl

theorem closing_append (h : IsLiteral quote text s) (before after : List Char) (markup : Bool)
    (p : Progress) :
    quotedText.closing quote ⟨(before ++ (s.toList ++ quote :: after)).toArray, markup⟩
        before.length p =
      ([(before.length + s.toList.length + 1, before.length + s.toList.length + 1)], p) := by
  have hstop := skipTrivia_quote h.isQuote (before ++ s.toList) after
  have hchar := charAt_append (before ++ s.toList) quote after
  rw [List.append_assoc, List.length_append] at hstop hchar
  have hfuel : (before ++ (s.toList ++ quote :: after)).toArray.size + 1 - before.length =
      s.toList.length + after.length + 1 + 1 := by
    simp
    omega
  rw [quotedText.closing]
  dsimp only
  rw [hfuel, quotedEndIn_append h, hstop, hchar, beq_self_eq_true, if_pos rfl]

/-- A node has the text that it covers. -/
theorem textIn_append {t : Tree} (hstart : t.start = before.length)
    (hstop : t.stop = before.length + text.toList.length) (after : List Char) :
    t.textIn (before ++ text.toList ++ after).toArray = text := by
  have hextract : ((before ++ text.toList ++ after).toArray.extract t.start t.stop).toList =
      text.toList := by
    rw [hstart, hstop, List.append_assoc, List.extract_toArray, List.extract_eq_take_drop,
      Nat.add_sub_cancel_left, List.drop_left, List.take_left]
  rw [Tree.textIn, hextract, String.ofList_toList]

/-- A literal is read as one node with its text. -/
theorem exists_quotedText (h : IsLiteral quote text s) (before after : List Char) (markup : Bool)
    (p : Progress) :
    ∃ t, quotedText quote ⟨(before ++ text.toList ++ after).toArray, markup⟩ before.length p =
        ([(t, t.stop)], p) ∧ t.textIn (before ++ text.toList ++ after).toArray = text := by
  have hscript : before ++ text.toList ++ after =
      before ++ quote :: (s.toList ++ quote :: after) := by
    rw [h.toList_eq]
    simp
  have hlength : text.toList.length = 1 + s.toList.length + 1 := by
    rw [h.toList_eq, List.length_append, List.length_cons, List.length_singleton, Nat.add_comm 1]
  have hclosing := closing_append h (before ++ [quote]) after markup p
  rw [List.append_assoc, List.singleton_append, List.length_append, List.length_singleton] at hclosing
  refine ⟨.leaf .literal before.length (before.length + 1 + s.toList.length + 1), ?_,
    textIn_append rfl ?_ after⟩
  · rw [hscript, quotedText, bind_of_eq (mark_quote h.isQuote before _ markup p), bind_of_eq hclosing]
    rfl
  · show before.length + 1 + s.toList.length + 1 = _
    rw [hlength, Nat.add_assoc, Nat.add_assoc, Nat.add_assoc]

end ModuleAtlas.Grammar
