import Mathlib.Data.List.Basic
import ModuleAtlas.Proofs.FileSystem.Locations

/-!
# Down from a path

What it means to read a relative path from another one, for its segments, its components and where
it leads.

* `Path.exists_segments_join`: the segments come behind those of the other path, but for an empty one
  at its end;
* `Path.components_child`: a name that is added becomes the last component;
* `Snapshot.hasEntry_iff`: a path that leads anywhere leads to something;
* `Snapshot.isDirectory_of_join`: a path from which another one leads anywhere leads to a directory.
-/

namespace ModuleAtlas

namespace Path

variable {p q : Path} {name : Name}

theorem splitOn_append_cons (xs ys : List UInt8) :
    (xs ++ separator :: ys).splitOn separator = xs.splitOn separator ++ ys.splitOn separator :=
  List.splitOnP_append_cons xs ys (by decide)

theorem segments_ne_nil (p : Path) : p.segments ≠ [] := List.splitOn_ne_nil separator p.text

theorem isAbsolute_name (hn : ProperName name) : (Path.mk name).isAbsolute = false := by
  obtain ⟨b, bs, rfl⟩ := List.exists_cons_of_ne_nil hn.ne_nil
  have hb : b ≠ separator := fun hb => hn.no_separator (hb ▸ List.mem_cons_self)
  simpa [isAbsolute] using hb

theorem segments_name (hn : ProperName name) : (Path.mk name).segments = [name] :=
  List.splitOn_eq_singleton hn.no_separator

/-! ### Joined paths -/

section Join

variable (hp : p.text ≠ []) (hq : q.isAbsolute = false)
include hp hq

/-- A separator is put between the two texts if there is none yet. -/
theorem text_join :
    p.text.getLast? = some separator ∧ (p.join q).text = p.text ++ q.text ∨
      p.text.getLast? ≠ some separator ∧ (p.join q).text = p.text ++ separator :: q.text := by
  have hempty : p.text.isEmpty = false := by simpa using hp
  rw [join, hq, hempty]
  by_cases hlast : p.text.getLast? = some separator
  · exact .inl ⟨hlast, by simp [hlast]⟩
  · exact .inr ⟨hlast, by simp [hlast]⟩

theorem exists_text_join : ∃ more, (p.join q).text = p.text ++ more := by
  obtain ⟨-, h⟩ | ⟨-, h⟩ := text_join hp hq
  · exact ⟨_, h⟩
  · exact ⟨_, h⟩

theorem text_join_ne_nil : (p.join q).text ≠ [] := by
  obtain ⟨more, h⟩ := exists_text_join hp hq
  simp [h, hp]

theorem isAbsolute_join : (p.join q).isAbsolute = p.isAbsolute := by
  obtain ⟨more, h⟩ := exists_text_join hp hq
  rw [isAbsolute, isAbsolute, h, List.head?_append_of_ne_nil _ hp]

/-- The segments of the path that is read come last. -/
theorem exists_segments_join : ∃ lead, lead ≠ [] ∧
    (p.segments = lead ∨ p.segments = lead ++ [[]]) ∧
      (p.join q).segments = lead ++ q.segments := by
  obtain ⟨hlast, htext⟩ | ⟨-, htext⟩ := text_join hp hq
  · obtain ⟨front, hfront⟩ := List.getLast?_eq_some_iff.1 hlast
    refine ⟨front.splitOn separator, List.splitOn_ne_nil separator front, .inr ?_, ?_⟩
    · rw [segments, hfront, splitOn_append_cons]
      rfl
    · rw [segments, htext, hfront, List.append_assoc, List.singleton_append, splitOn_append_cons,
        segments]
  · refine ⟨p.segments, p.segments_ne_nil, .inl rfl, ?_⟩
    rw [segments, htext, splitOn_append_cons, segments, segments]

end Join

theorem components_child (hp : p.text ≠ []) (hn : ProperName name) :
    (p.child name).components = p.components ++ [.named name] := by
  have hq := isAbsolute_name hn
  obtain ⟨lead, hne, hlead, hjoin⟩ := exists_segments_join hp hq
  obtain ⟨first, rest, rfl⟩ := List.exists_cons_of_ne_nil hne
  rw [segments_name hn, List.cons_append] at hjoin
  have hstep : stepOf name = some (.named name) := by
    simp [stepOf, hn.not_void, hn.not_up]
  have hp : ∃ more, p.segments = first :: (rest ++ more) ∧ more.filterMap stepOf = [] := by
    rcases hlead with h | h
    · exact ⟨[], by simpa using h, rfl⟩
    · exact ⟨[[]], by simpa using h, rfl⟩
  obtain ⟨more, hp, hmore⟩ := hp
  have habs : (p.child name).isAbsolute = p.isAbsolute := isAbsolute_join ‹_› hq
  rw [components, child, hjoin, components, hp]
  rw [child] at habs
  simp only [habs, List.filterMap_append, hmore, List.filterMap_cons_some hstep,
    List.filterMap_nil, List.append_nil]
  split
  · rfl
  · split
    · rfl
    · rw [List.append_assoc]

end Path

namespace Snapshot

variable {s : Snapshot} {l m here : Location} {names more front : List Name} {name segment : Name}
  {p q : Path} {e : Entry} {last stay : Bool} {links left : Nat}

/-! ### Segment by segment -/

/-- What one segment does on a way: how many links may still be followed, where it leads, and which
segments come next. A link is followed unless the way ends there and is to stay. -/
def turn (s : Snapshot) (stay : Bool) (links : Nat) (here : Location) (segment : Name) :
    Except Trouble (Nat × Location × List Name) :=
  match s.top.at? here with
  | some (.directory children _) =>
    if Path.isVoid segment then .ok (links, here, [])
    else if segment == [46, 46] then .ok (links, here.dropLast, [])
    else if maxName < segment.length then .error .nameTooLong
    else
      match children.lookup segment with
      | none => .error .noSuchEntry
      | some (.link target) =>
        if stay then .ok (links, here ++ [segment], [])
        else
          match links with
          | 0 => .error .tooManyLinks
          | links + 1 => .ok (links, if target.isAbsolute then [] else here, target.segments)
      | some _ => .ok (links, here ++ [segment], [])
  | some .closed => if segment.isEmpty then .ok (links, here, []) else .error .permissionDenied
  | some _ => .error .notADirectory
  | none => .error .noSuchEntry

/-- A way goes on from where its first segment leads. -/
theorem follow_cons (s : Snapshot) (last : Bool) (links : Nat) (here : Location) (segment : Name)
    (rest : List Name) : s.follow last links here (segment :: rest) =
      s.turn (rest.isEmpty && !last) links here segment >>= fun (left, m, front) =>
        s.follow last left m (front ++ rest) := by
  rw [follow, turn]
  rcases s.top.at? here with _ | _ | _ | ⟨children, readable⟩ | _
  · rfl
  · rfl
  · rfl
  · simp only
    split
    · rfl
    split
    · rfl
    split
    · rfl
    rcases children.lookup segment with _ | _ | target | _ | _
    · rfl
    · rfl
    · simp only
      split
      · next hstay =>
        have hrest : rest = [] := by
          rw [Bool.and_eq_true, List.isEmpty_iff] at hstay
          exact hstay.1
        subst hrest
        show _ = s.follow last links (here ++ [segment]) ([] ++ [])
        rw [List.nil_append, follow]
      · cases links <;> rfl
    · rfl
    · rfl
  · simp only
    split <;> rfl

theorem follow_cons_eq_ok_iff {rest : List Name} :
    s.follow last links here (segment :: rest) = .ok l ↔
      ∃ left m front, s.turn (rest.isEmpty && !last) links here segment = .ok (left, m, front) ∧
        s.follow last left m (front ++ rest) = .ok l := by
  rw [follow_cons, bind_eq_ok_iff]
  constructor
  · rintro ⟨⟨left, m, front⟩, hturn, h⟩
    exact ⟨left, m, front, hturn, h⟩
  · rintro ⟨left, m, front, hturn, h⟩
    exact ⟨(left, m, front), hturn, h⟩

/-- A segment is looked up in a directory, and behind it either fewer links may be followed or no more
segments come than before. -/
theorem turn_eq_ok (h : s.turn stay links here segment = .ok (left, m, front)) :
    (∃ e, s.top.at? here = some e ∧ e.isDirectory = true) ∧
      (left < links ∨ left = links ∧ front = []) := by
  revert h
  rw [turn]
  rcases s.top.at? here with _ | _ | _ | ⟨children, readable⟩ | _
  · rintro ⟨⟩
  · rintro ⟨⟩
  · rintro ⟨⟩
  · intro h
    refine ⟨⟨_, rfl, rfl⟩, ?_⟩
    simp only at h
    grind
  · intro h
    refine ⟨⟨_, rfl, rfl⟩, ?_⟩
    simp only at h
    grind

/-- Induction on ways as `turn` goes on with them. -/
theorem way_induction {motive : Nat → List Name → Prop} (nil : ∀ links, motive links [])
    (cons : ∀ links segment rest,
      (∀ left front, left < links ∨ left = links ∧ front = [] → motive left (front ++ rest)) →
        motive links (segment :: rest)) (links : Nat) (names : List Name) : motive links names := by
  induction links using Nat.strongRecOn generalizing names with
  | ind links ih =>
    induction names with
    | nil => exact nil links
    | cons segment rest ihrest =>
      refine cons links segment rest ?_
      rintro left front (hlt | ⟨rfl, rfl⟩)
      · exact ih left hlt (front ++ rest)
      · exact ihrest

/-- In a directory an empty segment stays where it is. -/
theorem follow_void (hat : s.top.at? here = some e) (he : e.isDirectory = true) :
    s.follow last links here ([] :: names) = s.follow last links here names := by
  rw [follow, hat]
  cases e with
  | file | link => contradiction
  | directory | closed => rfl

/-- Segments behind which others come lead to a directory, and also with an empty one behind them. -/
theorem exists_follow_append (h : s.follow last links here (names ++ name :: more) = .ok l) :
    ∃ m e, s.top.at? m = some e ∧ e.isDirectory = true ∧
      s.follow true links here names = .ok m ∧ s.follow true links here (names ++ [[]]) = .ok m := by
  induction links, names using way_induction generalizing here with
  | nil links =>
    rw [List.nil_append, follow_cons_eq_ok_iff] at h
    obtain ⟨left, m, front, hturn, -⟩ := h
    obtain ⟨⟨e, hat, he⟩, -⟩ := turn_eq_ok hturn
    refine ⟨here, e, hat, he, by rw [follow], ?_⟩
    rw [List.nil_append, follow_void hat he, follow]
  | cons links segment rest ih =>
    rw [List.cons_append, follow_cons_eq_ok_iff] at h
    obtain ⟨left, m, front, hturn, h⟩ := h
    -- as more segments come, a link is followed here whatever becomes of the last one
    have hstay : ((rest ++ name :: more).isEmpty && !last) = false := by simp
    rw [hstay] at hturn
    rw [← List.append_assoc] at h
    obtain ⟨k, e, hat, he, hk, hvoid⟩ := ih left front (turn_eq_ok hturn).2 h
    rw [List.append_assoc] at hvoid
    have hfollowed (names : List Name) (hm : s.follow true left m (front ++ names) = .ok k) :
        s.follow true links here (segment :: names) = .ok k := by
      rw [follow_cons_eq_ok_iff, Bool.not_true, Bool.and_false]
      exact ⟨left, m, front, hturn, hm⟩
    exact ⟨k, e, hat, he, hfollowed rest hk, hfollowed (rest ++ [[]]) hvoid⟩

/-- Whether a way may stay at a link makes a difference only where it comes to one. -/
theorem turn_of_stay (h : s.turn stay links here segment = .ok (left, m, front)) :
    s.turn false links here segment = .ok (left, m, front) ∨
      front = [] ∧ ∃ target, s.top.at? m = some (.link target) := by
  revert h
  rw [turn, turn]
  cases hat : s.top.at? here with
  | none => rintro ⟨⟩
  | some e =>
    cases e with
    | file | link => rintro ⟨⟩
    | closed => exact .inl
    | directory children readable =>
      have hnext : s.top.at? (here ++ [segment]) = children.lookup segment := Entry.at?_concat hat
      simp only
      grind

/-- A way that ends at what is no link leads there also if links at the end are followed. -/
theorem follow_of_not_link (h : s.follow last links here names = .ok l)
    (hlink : ∀ target, s.top.at? l ≠ some (.link target)) :
    s.follow true links here names = .ok l := by
  induction links, names using way_induction generalizing here with
  | nil links =>
    rw [follow] at h ⊢
    exact h
  | cons links segment rest ih =>
    obtain ⟨left, m, front, hturn, h⟩ := follow_cons_eq_ok_iff.1 h
    rw [follow_cons_eq_ok_iff, Bool.not_true, Bool.and_false]
    rcases turn_of_stay hturn with hsame | ⟨rfl, target, hm⟩
    · exact ⟨left, m, front, hsame, ih left front (turn_eq_ok hturn).2 h⟩
    · cases hstay : (rest.isEmpty && !last) with
      | false =>
        rw [hstay] at hturn
        exact ⟨left, m, [], hturn, ih left [] (turn_eq_ok hturn).2 h⟩
      | true =>
        -- the way ends at a link
        rw [Bool.and_eq_true, List.isEmpty_iff] at hstay
        rw [hstay.1, List.append_nil, follow] at h
        obtain rfl := Except.ok.inj h
        exact absurd hm (hlink target)

theorem text_ne_nil_of_locateFrom (h : s.locateFrom last p = .ok l) : p.text ≠ [] := by
  intro hp
  rw [locateFrom, hp] at h
  contradiction

theorem locate_of_locateFrom (h : s.locateFrom last p = .ok l)
    (hlink : ∀ target, s.top.at? l ≠ some (.link target)) : s.locate p = .ok l := by
  have hempty : p.text.isEmpty = false := by simpa using text_ne_nil_of_locateFrom h
  rw [locateFrom, hempty] at h
  rw [locate, locateFrom, hempty]
  exact follow_of_not_link h hlink

theorem ownEntry?_eq_some_iff :
    s.ownEntry? p = some e ↔ ∃ l, s.locateFrom false p = .ok l ∧ s.top.at? l = some e := by
  unfold ownEntry?
  cases s.locateFrom false p <;> simp

/-- There is something wherever a segment leads. -/
theorem isSome_at?_of_turn (h : s.turn stay links here segment = .ok (left, m, front)) :
    (s.top.at? m).isSome = true := by
  obtain ⟨e, hat, he⟩ := (turn_eq_ok h).1
  have hback : (s.top.at? here.dropLast).isSome = true := by
    rcases List.eq_nil_or_concat here with rfl | ⟨up, name, rfl⟩
    · rfl
    · rw [List.concat_eq_append, Entry.at?_append] at hat
      obtain ⟨e, he, -⟩ := Option.bind_eq_some_iff.1 hat
      rw [List.concat_eq_append, List.dropLast_concat, he]
      rfl
  have hhere : (s.top.at? here).isSome = true := by rw [hat]; rfl
  rw [turn, hat] at h
  cases e with
  | file | link => contradiction
  | closed =>
    simp only at h
    grind
  | directory children readable =>
    have hnext : s.top.at? (here ++ [segment]) = children.lookup segment := Entry.at?_concat hat
    have htop : (s.top.at? []).isSome = true := rfl
    simp only at h
    grind

theorem isSome_at?_of_follow (h : s.follow last links here names = .ok l)
    (hhere : names = [] → (s.top.at? here).isSome = true) : (s.top.at? l).isSome = true := by
  induction links, names using way_induction generalizing here with
  | nil links =>
    rw [follow] at h
    exact Except.ok.inj h ▸ hhere rfl
  | cons links segment rest ih =>
    obtain ⟨left, m, front, hturn, h⟩ := follow_cons_eq_ok_iff.1 h
    exact ih left front (turn_eq_ok hturn).2 h fun _ => isSome_at?_of_turn hturn

/-- A path that leads anywhere leads to something. -/
theorem hasEntry_iff : s.hasEntry p = true ↔ ∃ l, s.locate p = .ok l := by
  constructor
  · intro h
    obtain ⟨e, he⟩ := Option.isSome_iff_exists.1 h
    obtain ⟨l, hl, -⟩ := entry?_eq_some_iff.1 he
    exact ⟨l, hl⟩
  · rintro ⟨l, hl⟩
    have hempty : p.text.isEmpty = false := by simpa using text_ne_nil_of_locateFrom hl
    have hfollow := hl
    rw [locate, locateFrom, hempty] at hfollow
    have hat := isSome_at?_of_follow hfollow fun hnil => absurd hnil p.segments_ne_nil
    obtain ⟨e, he⟩ := Option.isSome_iff_exists.1 hat
    rw [hasEntry, entry?_eq_some_iff.2 ⟨l, hl, he⟩]
    rfl

/-! ### Paths that others are read from -/

/-- What a relative path is read from is a directory, if it leads anywhere from there. -/
theorem isDirectory_of_join (hp : p.text ≠ []) (hq : q.isAbsolute = false)
    (h : s.locate (p.join q) = .ok l) : s.isDirectory p = true := by
  obtain ⟨lead, -, hlead, hjoin⟩ := Path.exists_segments_join hp hq
  obtain ⟨name, more, hmore⟩ := List.exists_cons_of_ne_nil q.segments_ne_nil
  have hempty : p.text.isEmpty = false := by simpa using hp
  have hjoined : (p.join q).text.isEmpty = false := by simpa using Path.text_join_ne_nil hp hq
  rw [locate, locateFrom, hjoined, Path.isAbsolute_join hp hq, hjoin, hmore] at h
  obtain ⟨m, e, hat, he, hm, hvoid⟩ := exists_follow_append h
  have hlocate : s.locate p = .ok m := by
    rw [locate, locateFrom, hempty]
    rcases hlead with hlead | hlead
    · rw [hlead]
      exact hm
    · rw [hlead]
      exact hvoid
  exact isDirectory_iff.2 ⟨e, entry?_eq_some_iff.2 ⟨m, hlocate, hat⟩, he⟩

end Snapshot

end ModuleAtlas
