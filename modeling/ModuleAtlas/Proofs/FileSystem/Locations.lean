import Mathlib.Data.List.Basic
import ModuleAtlas.FileSystem.Snapshot

/-!
# Locations and their paths

In a well-formed tree, where a directory has no two entries of one name and every name is one step
of a path, a location and its path (`Snapshot.pathOf`) say the same.

* `components_pathOf` and `pathOf_beq_iff`: different locations have different paths, also to `==`;
* `child_pathOf`: the path of an entry is that of its directory with its name added;
* `locateFrom_pathOf` and `canonical_pathOf`: the path of an entry other than a link leads nowhere
  but to that entry, so it is its own canonical path.
-/

namespace ModuleAtlas

theorem bind_eq_ok_iff {ε β γ : Type} {x : Except ε β} {f : β → Except ε γ} {c : γ} :
    (x >>= f) = .ok c ↔ ∃ b, x = .ok b ∧ f b = .ok c := by
  cases x <;> simp [Bind.bind, Except.bind]

theorem map_eq_ok_iff {ε β γ : Type} {x : Except ε β} {f : β → γ} {c : γ} :
    x.map f = .ok c ↔ ∃ b, x = .ok b ∧ f b = c := by
  cases x <;> simp [Except.map]

/-- What an entry can be called: a name is neither `.` nor `..`, is not empty and has no separator
in it. -/
structure ProperName (name : Name) : Prop where
  not_void : Path.isVoid name = false
  not_up : name ≠ [46, 46]
  no_separator : Path.separator ∉ name

instance (name : Name) : Decidable (ProperName name) :=
  decidable_of_iff (Path.isVoid name = false ∧ name ≠ [46, 46] ∧ Path.separator ∉ name)
    ⟨fun h => ⟨h.1, h.2.1, h.2.2⟩, fun h => ⟨h.not_void, h.not_up, h.no_separator⟩⟩

theorem ProperName.ne_nil {name : Name} (h : ProperName name) : name ≠ [] := by
  rintro rfl
  exact absurd h.not_void (by decide)

namespace Entry

/-- In every directory the names are proper, and no two entries have the same one, as any file
system sees to it. -/
inductive WellFormed : Entry → Prop
  | file (content : List UInt8) : WellFormed (.file content)
  | link (target : Path) : WellFormed (.link target)
  | directory {children : List (Name × Entry)} (distinct : (children.map (·.1)).Nodup)
    (proper : ∀ c ∈ children, ProperName c.1) (below : ∀ c ∈ children, WellFormed c.2)
    (readable : Bool) : WellFormed (.directory children readable)
  | closed : WellFormed .closed

variable {e f : Entry} {children : List (Name × Entry)} {readable : Bool} {name : Name}
  {l m : Location}

@[simp] theorem at?_nil (e : Entry) : e.at? [] = some e := by
  cases e <;> rfl

theorem at?_directory :
    (directory children readable).at? (name :: l) = (children.lookup name).bind (·.at? l) := by
  rw [at?]
  cases children.lookup name <;> rfl

/-- Only directories have anything in them. -/
theorem at?_cons (h : e.at? (name :: l) = some f) :
    ∃ children readable inner, e = directory children readable ∧
      children.lookup name = some inner ∧ inner.at? l = some f := by
  cases e with
  | file | link | closed => simp [at?] at h
  | directory children readable =>
    rw [at?_directory] at h
    obtain ⟨inner, hinner, hf⟩ := Option.bind_eq_some_iff.1 h
    exact ⟨children, readable, inner, rfl, hinner, hf⟩

theorem at?_append (e : Entry) (l m : Location) : e.at? (l ++ m) = (e.at? l).bind (·.at? m) := by
  induction l generalizing e with
  | nil => simp
  | cons name l ih =>
    cases e with
    | file | link | closed => rfl
    | directory children =>
      rw [List.cons_append, at?_directory, at?_directory]
      cases children.lookup name with
      | none => rfl
      | some inner => exact ih inner

theorem at?_concat (h : e.at? l = some (directory children readable)) :
    e.at? (l ++ [name]) = children.lookup name := by
  rw [at?_append, h, Option.bind_some, at?_directory]
  simp

theorem mem_of_lookup (h : children.lookup name = some e) : (name, e) ∈ children := by
  obtain ⟨before, behind, rfl, -⟩ := List.lookup_eq_some_iff.1 h
  simp

theorem lookup_of_mem (hd : (children.map (·.1)).Nodup) (h : (name, e) ∈ children) :
    children.lookup name = some e := by
  obtain ⟨before, behind, rfl⟩ := List.append_of_mem h
  refine List.lookup_eq_some_iff.2 ⟨before, behind, rfl, fun c hc => ?_⟩
  rw [List.map_append, List.map_cons] at hd
  have hne := (List.nodup_append.1 hd).2.2 c.1 (List.mem_map_of_mem hc) name List.mem_cons_self
  simpa using Ne.symm hne

theorem isFile_iff : e.isFile = true ↔ ∃ content, e = file content := by
  cases e <;> simp [isFile]

namespace WellFormed

theorem at? (hw : e.WellFormed) (h : e.at? l = some f) : f.WellFormed := by
  induction l generalizing e with
  | nil =>
    rw [at?_nil] at h
    exact Option.some.inj h ▸ hw
  | cons name l ih =>
    obtain ⟨children, readable, inner, rfl, hinner, h⟩ := at?_cons h
    cases hw with
    | directory _ _ below => exact ih (below _ (mem_of_lookup hinner)) h

/-- The way to an entry has proper names only. -/
theorem proper (hw : e.WellFormed) (h : e.at? l = some f) : ∀ n ∈ l, ProperName n := by
  induction l generalizing e with
  | nil => simp
  | cons name l ih =>
    obtain ⟨children, readable, inner, rfl, hinner, h⟩ := at?_cons h
    cases hw with
    | directory _ proper below =>
      have hmem := mem_of_lookup hinner
      exact List.forall_mem_cons.2 ⟨proper _ hmem, ih (below _ hmem) h⟩

end WellFormed

end Entry

namespace Snapshot

variable {s : Snapshot} {l m here : Location} {names : List Name} {name : Name} {e f : Entry}
  {p q : Path} {last : Bool} {links : Nat}

/-! ### The path of a location -/

theorem segments_pathOf (h : ∀ n ∈ l, ProperName n) (hl : l ≠ []) :
    (pathOf l).segments = [] :: l := by
  obtain ⟨name, rest, rfl⟩ := List.exists_cons_of_ne_nil hl
  have htext : (pathOf (name :: rest)).text =
      [Path.separator].intercalate ([] :: name :: rest) := by
    rw [List.intercalate_cons_of_ne_nil (List.cons_ne_nil _ _)]
    rfl
  rw [Path.segments, htext, List.splitOn_intercalate _ _ (List.cons_ne_nil _ _)]
  exact List.forall_mem_cons.2 ⟨by simp, fun n hn => (h n hn).no_separator⟩

theorem segments_pathOf_nil : (pathOf []).segments = [[], []] := by decide

theorem filterMap_stepOf (h : ∀ n ∈ l, ProperName n) :
    l.filterMap Path.stepOf = l.map Component.named := by
  induction l with
  | nil => rfl
  | cons name l ih =>
    obtain ⟨hname, hl⟩ := List.forall_mem_cons.1 h
    have hstep : Path.stepOf name = some (.named name) := by
      simp [Path.stepOf, hname.not_void, hname.not_up]
    rw [List.filterMap_cons_some hstep, ih hl, List.map_cons]

theorem isAbsolute_pathOf (l : Location) : (pathOf l).isAbsolute = true := rfl

/-- The path of a location has its names as components. -/
theorem components_pathOf (h : ∀ n ∈ l, ProperName n) :
    (pathOf l).components = .root :: l.map .named := by
  by_cases hl : l = []
  · subst hl
    decide
  · rw [Path.components, segments_pathOf h hl]
    simp [isAbsolute_pathOf, filterMap_stepOf h]

theorem pathOf_beq_iff (hl : ∀ n ∈ l, ProperName n) (hm : ∀ n ∈ m, ProperName n) :
    (pathOf l == pathOf m) = true ↔ l = m := by
  have hinj : Function.Injective Component.named := fun _ _ h => Component.named.inj h
  rw [Path.beq_iff, components_pathOf hl, components_pathOf hm]
  simp [List.map_inj_right hinj]

/-- But for the top, a path is its names with a separator before each. -/
theorem text_pathOf (hl : l ≠ []) : (pathOf l).text = l.flatMap (Path.separator :: ·) := by
  induction l with
  | nil => contradiction
  | cons name l ih =>
    cases l with
    | nil => simp [pathOf]
    | cons next l =>
      rw [List.flatMap_cons, ← ih (List.cons_ne_nil _ _), pathOf, List.intercalate_cons_cons]
      simp [pathOf]

/-- Such a path does not end with a separator. -/
theorem getLast?_text_pathOf (h : ∀ n ∈ l, ProperName n) (hl : l ≠ []) :
    (pathOf l).text.getLast? ≠ some Path.separator := by
  obtain ⟨m, k, rfl⟩ := (List.eq_nil_or_concat' l).resolve_left hl
  have hk : ProperName k := h k (by simp)
  obtain ⟨bs, b, rfl⟩ := (List.eq_nil_or_concat' k).resolve_left hk.ne_nil
  have hb : b ≠ Path.separator := fun hb => hk.no_separator (by simp [hb])
  rw [text_pathOf hl, List.flatMap_append, List.flatMap_singleton, ← List.cons_append,
    ← List.append_assoc, List.getLast?_concat]
  exact fun h => hb (Option.some.inj h)

/-- To add a name to the path of a directory gives the path of the entry of that name. -/
theorem child_pathOf (h : ∀ n ∈ l, ProperName n) (hn : ProperName name) :
    (pathOf l).child name = pathOf (l ++ [name]) := by
  have hrel : (Path.mk name).isAbsolute = false := by
    cases name with
    | nil => rfl
    | cons b bs =>
      have hb : b ≠ Path.separator := fun hb => hn.no_separator (hb ▸ List.mem_cons_self)
      simpa [Path.isAbsolute] using hb
  rw [Path.child, Path.join, hrel]
  by_cases hl : l = []
  · subst hl
    simp [pathOf]
  · have htext : (pathOf (l ++ [name])).text = (pathOf l).text ++ Path.separator :: name := by
      rw [text_pathOf (by simp), text_pathOf hl, List.flatMap_append, List.flatMap_singleton]
    have hempty : (pathOf l).text.isEmpty = false := rfl
    have hlast := getLast?_text_pathOf h hl
    simp [hempty, hlast, ← htext]

/-! ### Where paths lead -/

/-- Names lead to the entry of that location, unless one of them is too long. -/
theorem follow_names (hn : ∀ n ∈ names, ProperName n) (he : s.top.at? (here ++ names) = some e)
    (hlink : ∀ target, e ≠ .link target) (h : s.follow last links here names = .ok l) :
    l = here ++ names := by
  induction names generalizing here with
  | nil =>
    rw [follow] at h
    simpa using h.symm
  | cons name rest ih =>
    obtain ⟨hname, hrest⟩ := List.forall_mem_cons.1 hn
    have hat := he
    rw [Entry.at?_append] at hat
    obtain ⟨d, hd, hat⟩ := Option.bind_eq_some_iff.1 hat
    obtain ⟨children, readable, inner, rfl, hinner, hat⟩ := Entry.at?_cons hat
    rw [follow, hd] at h
    simp only [hname.not_void, hname.not_up, hinner, beq_iff_eq, Bool.false_eq_true, if_false] at h
    split at h
    · contradiction
    · cases inner with
      | link target =>
        cases rest with
        | nil =>
          simp at hat
          exact absurd hat.symm (hlink target)
        | cons => simp [Entry.at?] at hat
      | file | directory | closed =>
        rw [List.append_cons]
        exact ih hrest (by simpa using he) h

/-- A void segment stays where it is. -/
theorem follow_nil_cons (h : s.follow last links here ([] :: names) = .ok l) :
    s.follow last links here names = .ok l := by
  rw [follow] at h
  split at h
  · simpa [Path.isVoid] using h
  · simpa using h
  · contradiction
  · contradiction

/-- The path of an entry leads nowhere else. -/
theorem locateFrom_pathOf (hl : ∀ n ∈ l, ProperName n) (he : s.top.at? l = some e)
    (hlink : ∀ target, e ≠ .link target) (h : s.locateFrom last (pathOf l) = .ok m) : m = l := by
  have h : s.follow last maxLinks [] (pathOf l).segments = .ok m := h
  by_cases hnil : l = []
  · subst hnil
    rw [segments_pathOf_nil] at h
    exact follow_names hl he hlink (follow_nil_cons (follow_nil_cons h))
  · rw [segments_pathOf hl hnil] at h
    exact follow_names hl he hlink (follow_nil_cons h)

theorem canonical_eq_ok_iff : s.canonical p = .ok q ↔ ∃ l, s.locate p = .ok l ∧ pathOf l = q := by
  rw [canonical]
  cases s.locate p <;> simp [Except.map]

/-- The path of an entry is its own canonical path. -/
theorem canonical_pathOf (hl : ∀ n ∈ l, ProperName n) (he : s.top.at? l = some e)
    (hlink : ∀ target, e ≠ .link target) (h : s.canonical (pathOf l) = .ok p) : p = pathOf l := by
  obtain ⟨m, hm, rfl⟩ := canonical_eq_ok_iff.1 h
  rw [locateFrom_pathOf hl he hlink hm]

/-! ### What paths lead to -/

theorem entry?_eq_some_iff :
    s.entry? p = some e ↔ ∃ l, s.locate p = .ok l ∧ s.top.at? l = some e := by
  unfold entry?
  cases s.locate p <;> simp

theorem entry?_pathOf (hl : ∀ n ∈ l, ProperName n) (he : s.top.at? l = some e)
    (hlink : ∀ target, e ≠ .link target) (h : s.entry? (pathOf l) = some f) : f = e := by
  obtain ⟨m, hm, hat⟩ := entry?_eq_some_iff.1 h
  obtain rfl := locateFrom_pathOf hl he hlink hm
  exact Option.some.inj (hat.symm.trans he)

theorem isFile_iff : s.isFile p = true ↔ ∃ content, s.entry? p = some (.file content) := by
  rw [isFile, Option.any_eq_true]
  simp only [Entry.isFile_iff]
  constructor
  · rintro ⟨_, he, content, rfl⟩
    exact ⟨content, he⟩
  · rintro ⟨content, he⟩
    exact ⟨_, he, content, rfl⟩

theorem isDirectory_iff :
    s.isDirectory p = true ↔ ∃ e, s.entry? p = some e ∧ e.isDirectory = true := by
  rw [isDirectory, Option.any_eq_true]

end Snapshot

end ModuleAtlas
