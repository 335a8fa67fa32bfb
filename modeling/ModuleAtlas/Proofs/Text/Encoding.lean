import Mathlib.Data.List.Basic
import ModuleAtlas.Text.Utf8

/-!
# Texts and their bytes

A text is read back from its own bytes (`decode?_encode`), whatever comes behind each character
(`decodeFrom_encodeChar`). A byte below 128 stands for its character alone (`not_mem_encodeChar`), so
that a text is cut at such a character into the same pieces as its bytes (`splitOn_encode`).
-/

namespace ModuleAtlas.Text.Utf8

variable {c : Char} {n d m bits low high : Nat} {p : Pending} {bs : List UInt8}

/-! ### Reading a character -/

theorem toNat_ofNat (h : n < 256) : (UInt8.ofNat n).toNat = n := by
  rw [UInt8.toNat_ofNat', Nat.mod_eq_of_lt h]

theorem decodeFrom_char (hn : n < 256) (h : start n = some (.inl c)) :
    decodeFrom none (.ofNat n :: bs) = some c :: decodeFrom none bs := by
  rw [decodeFrom, begin, toNat_ofNat hn, h]

theorem decodeFrom_start (hn : n < 256) (h : start n = some (.inr p)) :
    decodeFrom none (.ofNat n :: bs) = decodeFrom (some p) bs := by
  rw [decodeFrom, begin, toNat_ofNat hn, h]

theorem decodeFrom_inner (hd : d < 64) (hlow : low ≤ d + 0x80) (hhigh : d + 0x80 ≤ high) :
    decodeFrom (some ⟨bits, m + 2, low, high⟩) (.ofNat (d + 0x80) :: bs) =
      decodeFrom (some ⟨bits * 64 + d, m + 1, 0x80, 0xbf⟩) bs := by
  have hmissing : ¬m + 2 = 1 := by omega
  rw [decodeFrom, toNat_ofNat (by omega), if_pos ⟨hlow, hhigh⟩, if_neg hmissing,
    Nat.add_sub_cancel]
  rfl

theorem decodeFrom_last (hd : d < 64) (hlow : low ≤ d + 0x80) (hhigh : d + 0x80 ≤ high) :
    decodeFrom (some ⟨bits, 1, low, high⟩) (.ofNat (d + 0x80) :: bs) =
      some (Char.ofNat (bits * 64 + d)) :: decodeFrom none bs := by
  rw [decodeFrom, toNat_ofNat (by omega), if_pos ⟨hlow, hhigh⟩, if_pos rfl, Nat.add_sub_cancel]

theorem start_one (h : n < 0x80) : start n = some (.inl (Char.ofNat n)) := if_pos h

theorem start_two : ∀ d < 32, 2 ≤ d → start (d + 0xc0) = some (.inr ⟨d, 1, 0x80, 0xbf⟩) := by
  decide

theorem start_three : ∀ d < 16, start (d + 0xe0) =
    some (.inr ⟨d, 2, if d = 0 then 0xa0 else 0x80, if d = 13 then 0x9f else 0xbf⟩) := by
  decide

theorem start_four : ∀ d < 5, start (d + 0xf0) =
    some (.inr ⟨d, 3, if d = 0 then 0x90 else 0x80, if d = 4 then 0x8f else 0xbf⟩) := by
  decide

/-- A character is read from its own bytes, whatever comes behind them. -/
theorem decodeFrom_encodeChar (c : Char) (bs : List UInt8) :
    decodeFrom none (String.utf8EncodeChar c ++ bs) = some c :: decodeFrom none bs := by
  have hvalid : c.val.toNat < 0xd800 ∨ 0xdfff < c.val.toNat ∧ c.val.toNat < 0x110000 := c.valid
  have hchar : Char.ofNat c.val.toNat = c := Char.ofNat_toNat c
  rw [String.utf8EncodeChar]
  generalize c.val.toNat = v at *
  -- The four cases are those of the number of bytes.
  split
  · rw [List.singleton_append, decodeFrom_char (by omega) (start_one (by omega)), hchar]
  split
  · have hbits : v / 64 % 32 * 64 + v % 64 = v := by omega
    rw [List.cons_append, List.singleton_append,
      decodeFrom_start (by omega) (start_two _ (by omega) (by omega)),
      decodeFrom_last (by omega) (by omega) (by omega), hbits, hchar]
  split
  · have hbits : (v / 4096 % 16 * 64 + v / 64 % 64) * 64 + v % 64 = v := by omega
    rw [List.cons_append, List.cons_append, List.singleton_append,
      decodeFrom_start (by omega) (start_three _ (by omega)),
      decodeFrom_inner (by omega) (by split_ifs <;> omega) (by split_ifs <;> omega),
      decodeFrom_last (by omega) (by omega) (by omega), hbits, hchar]
  · have hbits : ((v / 262144 % 8 * 64 + v / 4096 % 64) * 64 + v / 64 % 64) * 64 + v % 64 = v := by
      omega
    rw [List.cons_append, List.cons_append, List.cons_append, List.singleton_append,
      decodeFrom_start (by omega) (start_four _ (by omega)),
      decodeFrom_inner (by omega) (by split_ifs <;> omega) (by split_ifs <;> omega),
      decodeFrom_inner (by omega) (by omega) (by omega),
      decodeFrom_last (by omega) (by omega) (by omega), hbits, hchar]

theorem decodeAll_encode (s : String) : decodeAll (encode s) = s.toList.map some := by
  rw [decodeAll, encode]
  generalize s.toList = cs
  induction cs with
  | nil => rfl
  | cons c cs ih => rw [List.flatMap_cons, decodeFrom_encodeChar, ih, List.map_cons]

theorem decode?_encode (s : String) : decode? (encode s) = some s := by
  rw [decode?, decodeAll_encode, List.mapM_map]
  have hall : s.toList.mapM (id ∘ some) = some s.toList := by
    simpa using List.mapM_pure (m := Option) (l := s.toList) (f := id)
  rw [hall, Option.map_some, String.ofList_toList]

theorem encode_injective : Function.Injective encode := by
  intro s t h
  have hdecode := congrArg decode? h
  rwa [decode?_encode, decode?_encode, Option.some.injEq] at hdecode

theorem decodeLossy_encode (s : String) : decodeLossy (encode s) = s := by
  rw [decodeLossy, decodeAll_encode, List.map_map]
  exact (congrArg String.ofList (List.map_id _)).trans String.ofList_toList

/-! ### Characters of one byte -/

/-- A byte below 128 occurs in its own character only. -/
theorem not_mem_encodeChar {d : Char} (hd : d.toNat < 0x80) (hne : c ≠ d) :
    UInt8.ofNat d.toNat ∉ String.utf8EncodeChar c := by
  have hval : c.val.toNat ≠ d.toNat := fun h => hne (Char.toNat_inj.1 h)
  rw [String.utf8EncodeChar]
  generalize c.val.toNat = v at *
  intro hmem
  repeat' split at hmem
  all_goals
    simp only [List.mem_cons, List.not_mem_nil, or_false, ← UInt8.toNat_inj,
      UInt8.toNat_ofNat'] at hmem
    omega

/-! ### Pieces -/

section Pieces

variable {α β : Type} [BEq α] [LawfulBEq α] [BEq β] [LawfulBEq β] {a : α} {b : β} {xs ys : List α}

theorem splitOn_append_of_not_mem (h : a ∉ xs) (ys : List α) :
    (xs ++ ys).splitOn a = (ys.splitOn a).modifyHead (xs ++ ·) := by
  induction xs with
  | nil => exact (congrFun List.modifyHead_id _).symm
  | cons x xs ih =>
    obtain ⟨hx, hxs⟩ := not_or.1 (List.mem_cons.not.1 h)
    have hne : ¬(x == a) = true := by simpa using Ne.symm hx
    rw [List.cons_append, List.splitOn_cons_eq_if_modifyHead, if_neg hne, ih hxs,
      List.modifyHead_modifyHead]
    rfl

theorem splitOn_flatMap {f : α → List β} (hself : f a = [b]) (hother : ∀ x, x ≠ a → b ∉ f x)
    (xs : List α) : (xs.flatMap f).splitOn b = (xs.splitOn a).map (List.flatMap f) := by
  induction xs with
  | nil => simp
  | cons x xs ih =>
    rw [List.flatMap_cons, List.splitOn_cons_eq_if_modifyHead]
    by_cases hx : x = a
    · subst hx
      rw [hself, List.singleton_append, List.splitOn_cons_eq_if_modifyHead, if_pos BEq.rfl,
        if_pos BEq.rfl, ih]
      rfl
    · have hne : ¬(x == a) = true := by simpa using hx
      rw [splitOn_append_of_not_mem (hother x hx), ih, if_neg hne]
      obtain ⟨piece, pieces, hsplit⟩ := List.exists_cons_of_ne_nil (List.splitOn_ne_nil a xs)
      rw [hsplit]
      rfl

/-- Each piece stands in the list, and has no separator. -/
theorem piece_of_mem_splitOn {xs ys : List α} (h : ys ∈ xs.splitOn a) : a ∉ ys ∧ ys <:+: xs := by
  by_cases hmem : a ∈ xs
  · obtain ⟨front, behind, hxs, hfront⟩ := List.eq_append_cons_of_mem hmem
    rw [hxs] at h ⊢
    rw [List.splitOn_append_cons_self_of_not_mem hfront, List.mem_cons] at h
    rcases h with rfl | h
    · exact ⟨hfront, (List.prefix_append _ _).isInfix⟩
    · obtain ⟨hnot, hpiece⟩ := piece_of_mem_splitOn h
      have hsuffix : behind <:+ front ++ a :: behind :=
        (List.suffix_cons a behind).trans (List.suffix_append front _)
      exact ⟨hnot, hpiece.trans hsuffix.isInfix⟩
  · rw [List.splitOn_eq_singleton hmem, List.mem_singleton] at h
    subst h
    exact ⟨hmem, List.infix_rfl⟩
termination_by xs.length
decreasing_by
  rw [hxs, List.length_append, List.length_cons]
  omega

end Pieces

/-- Between bytes below 128 there are texts. -/
theorem splitOn_encode {d : Char} (hd : d.toNat < 0x80) (s : String) :
    (encode s).splitOn (.ofNat d.toNat) =
      (s.toList.splitOn d).map (List.flatMap String.utf8EncodeChar) := by
  refine splitOn_flatMap ?_ (fun c hc => not_mem_encodeChar hd hc) _
  exact if_pos (Nat.le_of_lt_succ hd)

/-- A piece of the bytes of a text are the bytes of a piece of the text. -/
theorem exists_piece {d : Char} (hd : d.toNat < 0x80) {s : String} {piece : List UInt8}
    (h : piece ∈ (encode s).splitOn (.ofNat d.toNat)) :
    ∃ t : String, piece = encode t ∧ t.toList <:+: s.toList := by
  rw [splitOn_encode hd] at h
  obtain ⟨cs, hcs, rfl⟩ := List.mem_map.1 h
  refine ⟨.ofList cs, ?_, ?_⟩
  · rw [encode, String.toList_ofList]
  · rw [String.toList_ofList]
    exact (piece_of_mem_splitOn hcs).2

end ModuleAtlas.Text.Utf8
