import Mathlib.Data.List.Basic
import ModuleAtlas.Proofs.FileSystem.Descent
import ModuleAtlas.Proofs.Graph.Order
import ModuleAtlas.Scan

/-!
# What a walk comes by

A walk comes by a thing on the way down to it, through readable directories and into none that has an
ignored name (`Reaches`).

* `mem_walk_iff`, by induction on the tree: it comes by all that there is at the end of such a way.
* `ascending_walk`, by the same induction: paths ascend from one find to the next. The entries of a
  directory come in the order of their names, and paths that part at two names are ordered as these
  names are (`compare_lt_of_parting`).

`mem_files_iff` and `mem_warnings_iff` say what a scan makes of the finds.
-/

namespace ModuleAtlas

/-- The path of what lies further down, name by name. -/
def Path.below (p : Path) (names : Location) : Path := names.foldl Path.child p

namespace Scan

open Snapshot

variable {settings : ScanSettings} {p q : Path} {names : Location} {name : Name}
  {e f : Entry} {children : List (Name × Entry)} {readable : Bool} {x : Find}

/-! ### Paths further down -/

theorem text_child_ne_nil (hp : p.text ≠ []) (hn : ProperName name) : (p.child name).text ≠ [] :=
  Path.text_join_ne_nil hp (Path.isAbsolute_name hn)

theorem components_below (hp : p.text ≠ []) (hn : ∀ n ∈ names, ProperName n) :
    (p.below names).components = p.components ++ names.map .named := by
  induction names generalizing p with
  | nil => simp [Path.below]
  | cons name names ih =>
    obtain ⟨hname, hnames⟩ := List.forall_mem_cons.1 hn
    have hbelow : p.below (name :: names) = (p.child name).below names := rfl
    rw [hbelow, ih (text_child_ne_nil hp hname) hnames, Path.components_child hp hname]
    simp

/-- Further down from the path of a location lie the paths of locations. -/
theorem below_pathOf {l : Location} (hn : ∀ n ∈ l ++ names, ProperName n) :
    (pathOf l).below names = pathOf (l ++ names) := by
  induction names generalizing l with
  | nil => simp [Path.below]
  | cons name names ih =>
    have hl : ∀ n ∈ l, ProperName n := fun n hmem => hn n (List.mem_append_left _ hmem)
    have hname : ProperName name := hn name (by simp)
    have hbelow : (pathOf l).below (name :: names) = ((pathOf l).child name).below names := rfl
    rw [List.append_cons] at hn ⊢
    rw [hbelow, child_pathOf hl hname, ih hn]

/-! ### The way down -/

/-- A walk gets from an entry to another one by these names: through readable directories, and into
none that has an ignored name. -/
def Reaches (settings : ScanSettings) : Entry → Location → Entry → Prop
  | e, [], f => e = f
  | .directory children readable, name :: rest, f =>
    readable = true ∧ ∃ inner, children.lookup name = some inner ∧
      (inner.isDirectory = true → Text.Utf8.decodeLossy name ∉ settings.ignoredNames) ∧
        Reaches settings inner rest f
  | _, _ :: _, _ => False

theorem isIgnored_eq_false_iff {n : String} :
    settings.isIgnored n = false ↔ n ∉ settings.ignoredNames := by
  simp [ScanSettings.isIgnored]

@[simp] theorem reaches_nil : Reaches settings e [] f ↔ e = f := by
  cases e <;> simp [Reaches]

/-- Into what is no readable directory a walk does not get any further. -/
theorem reaches_of_not_readable (h : ∀ children, e ≠ .directory children true) :
    Reaches settings e names f ↔ names = [] ∧ e = f := by
  cases names with
  | nil => simp
  | cons name rest =>
    cases e with
    | file | link | closed => simp [Reaches]
    | directory children readable =>
      have hreadable : readable ≠ true := fun hr => h children (hr ▸ rfl)
      simp [Reaches, hreadable]

theorem Reaches.at?_eq (h : Reaches settings e names f) : e.at? names = some f := by
  induction names generalizing e with
  | nil => rw [reaches_nil.1 h, Entry.at?_nil]
  | cons name rest ih =>
    cases e with
    | file | link | closed => exact h.elim
    | directory children readable =>
      obtain ⟨-, inner, hinner, -, hrest⟩ := h
      rw [Entry.at?_directory, hinner, Option.bind_some, ih hrest]

/-- In other words, the names lead to the entry, the directories passed on the way are readable, and
no name of a directory behind the first is ignored. -/
theorem reaches_iff : Reaches settings e names f ↔ e.at? names = some f ∧
    (∀ k < names.length, ∃ children, e.at? (names.take k) = some (.directory children true)) ∧
      ∀ d ∈ if f.isDirectory then names else names.dropLast,
        Text.Utf8.decodeLossy d ∉ settings.ignoredNames := by
  induction names generalizing e with
  | nil => simp
  | cons name rest ih =>
    cases e with
    | file | link | closed => simp [Reaches, Entry.at?]
    | directory children readable =>
      rw [List.length_cons, Nat.forall_lt_succ_left]
      simp only [List.take_zero, List.take_succ_cons, Entry.at?_nil, Entry.at?_directory, Reaches]
      cases hinner : children.lookup name with
      | none => simp
      | some inner =>
        simp only [Option.some.injEq, exists_eq_left', Option.bind_some, ih, Entry.directory.injEq]
        -- the first name is that of a directory, unless the way ends with it at something else
        have hname (hat : inner.at? rest = some f) :
            ((inner.isDirectory = true → Text.Utf8.decodeLossy name ∉ settings.ignoredNames) ∧
              ∀ d ∈ if f.isDirectory then rest else rest.dropLast,
                Text.Utf8.decodeLossy d ∉ settings.ignoredNames) ↔
            ∀ d ∈ if f.isDirectory then name :: rest else (name :: rest).dropLast,
              Text.Utf8.decodeLossy d ∉ settings.ignoredNames := by
          cases rest with
          | nil =>
            rw [Entry.at?_nil, Option.some.injEq] at hat
            subst hat
            cases inner.isDirectory <;> simp
          | cons next more =>
            obtain ⟨_, _, _, rfl, -⟩ := Entry.at?_cons hat
            cases f.isDirectory <;> simp [Entry.isDirectory]
        constructor
        · rintro ⟨hreadable, hfirst, hat, hway, hrest⟩
          exact ⟨hat, ⟨hreadable, hway⟩, (hname hat).1 ⟨hfirst, hrest⟩⟩
        · rintro ⟨hat, ⟨hreadable, hway⟩, hnames⟩
          obtain ⟨hfirst, hrest⟩ := (hname hat).2 hnames
          exact ⟨hreadable, hfirst, hat, hway, hrest⟩

/-! ### Finds -/

/-- What a walk comes by at an entry itself. -/
def findAt? (p : Path) : Entry → Option Find
  | .file _ => some (.file p)
  | .link _ | .directory _ true => none
  | .directory _ false | .closed => some (.denied p)

theorem findAt?_eq_file_iff :
    findAt? p e = some (.file q) ↔ ∃ content, e = .file content ∧ p = q := by
  unfold findAt?
  split <;> simp

theorem findAt?_eq_denied_iff : findAt? p e = some (.denied q) ↔
    ((∃ children, e = .directory children false) ∨ e = .closed) ∧ p = q := by
  unfold findAt?
  split <;> simp

theorem path_of_findAt? (h : findAt? p e = some x) : x.path = p := by
  unfold findAt? at h
  split at h <;> simp_all only [reduceCtorEq, Option.some.injEq]
  all_goals exact h ▸ rfl

theorem walkChildren_eq (settings : ScanSettings) (p : Path) (children : List (Name × Entry)) :
    walkChildren settings p children = children.map fun c =>
      (c.1, if c.2.isDirectory && settings.isIgnored (Text.Utf8.decodeLossy c.1) then []
        else walk settings (p.child c.1) c.2) := by
  induction children with
  | nil => rfl
  | cons c rest ih => rw [walkChildren, ih, List.map_cons]

/-- What is found in an entry of a directory, which is no directory with an ignored name. -/
theorem mem_walkChild_iff {c : Name × Entry} :
    (x ∈ if c.2.isDirectory && settings.isIgnored (Text.Utf8.decodeLossy c.1) then []
      else walk settings (p.child c.1) c.2) ↔
        (c.2.isDirectory = true → Text.Utf8.decodeLossy c.1 ∉ settings.ignoredNames) ∧
          x ∈ walk settings (p.child c.1) c.2 := by
  rw [← isIgnored_eq_false_iff]
  cases c.2.isDirectory <;> cases settings.isIgnored (Text.Utf8.decodeLossy c.1) <;> simp

theorem mem_walk_directory_iff : x ∈ walk settings p (.directory children true) ↔ ∃ c ∈ children,
    (c.2.isDirectory = true → Text.Utf8.decodeLossy c.1 ∉ settings.ignoredNames) ∧
      x ∈ walk settings (p.child c.1) c.2 := by
  rw [walk, if_pos rfl, inOrder, walkChildren_eq]
  simp only [List.mem_flatMap, List.mem_mergeSort, List.mem_map, ← mem_walkChild_iff]
  constructor
  · rintro ⟨_, ⟨c, hc, rfl⟩, hx⟩
    exact ⟨c, hc, hx⟩
  · rintro ⟨c, hc, hx⟩
    exact ⟨_, ⟨c, hc, rfl⟩, hx⟩

theorem mem_walk_of_not_readable (h : ∀ children, e ≠ .directory children true) :
    x ∈ walk settings p e ↔
      ∃ names f, Reaches settings e names f ∧ findAt? (p.below names) f = some x := by
  have hhere : x ∈ walk settings p e ↔ findAt? p e = some x := by
    cases e with
    | file | link | closed => simp [walk, findAt?, eq_comm]
    | directory children readable =>
      cases readable with
      | true => exact absurd rfl (h children)
      | false => simp [walk, findAt?, eq_comm]
  simp only [hhere, reaches_of_not_readable h, and_assoc, exists_and_left, exists_eq_left,
    exists_eq_left']
  rfl

/-- A walk comes by what there is at the end of a way down. -/
theorem mem_walk_iff (hw : e.WellFormed) : x ∈ walk settings p e ↔
    ∃ names f, Reaches settings e names f ∧ findAt? (p.below names) f = some x := by
  induction hw generalizing p with
  | file | link | closed => exact mem_walk_of_not_readable (by simp)
  | @directory children distinct _ _ readable ih =>
    cases readable with
    | false => exact mem_walk_of_not_readable (by simp)
    | true =>
      rw [mem_walk_directory_iff]
      constructor
      · rintro ⟨c, hc, hentered, hx⟩
        obtain ⟨names, f, hreaches, hf⟩ := (ih c hc).1 hx
        exact ⟨c.1 :: names, f, ⟨rfl, c.2, Entry.lookup_of_mem distinct hc, hentered, hreaches⟩, hf⟩
      · rintro ⟨names, f, hreaches, hf⟩
        cases names with
        | nil =>
          rw [reaches_nil] at hreaches
          subst hreaches
          contradiction
        | cons name rest =>
          obtain ⟨-, inner, hinner, hentered, hrest⟩ := hreaches
          have hc := Entry.mem_of_lookup hinner
          exact ⟨(name, inner), hc, hentered, (ih _ hc).2 ⟨rest, f, hrest, hf⟩⟩

/-! ### In which order -/

/-- Paths that part at two names are ordered as these names are. -/
theorem compare_lt_of_parting {name' : Name} {way rest rest' : List Component}
    (hp : p.components = way ++ .named name :: rest)
    (hq : q.components = way ++ .named name' :: rest') (h : compare name name' = .lt) :
    compare p q = .lt := by
  show List.compareLex compare p.components q.components = .lt
  rw [hp, hq]
  clear hp hq
  induction way with
  | nil =>
    have hnames : compare (Component.named name) (.named name') = .lt := by
      show (compare 3 3).then (compare name name') = .lt
      rw [h]
      rfl
    rw [List.nil_append, List.nil_append, List.compareLex_cons_cons, hnames]
    rfl
  | cons c way ih =>
    have hc : compare c c = .eq := Std.ReflCmp.compare_self
    rw [List.cons_append, List.cons_append, List.compareLex_cons_cons, hc]
    exact ih

theorem exists_components_of_mem_walk (hw : e.WellFormed) (hp : p.text ≠ [])
    (h : x ∈ walk settings p e) : ∃ rest, x.path.components = p.components ++ rest := by
  obtain ⟨names, f, hreaches, hx⟩ := (mem_walk_iff hw).1 h
  rw [path_of_findAt? hx, components_below hp (hw.proper hreaches.at?_eq)]
  exact ⟨_, rfl⟩

/-- The entries of a directory are gone through in the ascending order of their names. -/
theorem pairwise_inOrder {found : List (Name × List Find)} (hd : (found.map (·.1)).Nodup)
    {r : Find → Find → Prop} (hin : ∀ c ∈ found, c.2.Pairwise r)
    (hbetween : ∀ c ∈ found, ∀ d ∈ found, compare c.1 d.1 = .lt → ∀ x ∈ c.2, ∀ y ∈ d.2, r x y) :
    (inOrder found).Pairwise r := by
  have hperm := List.mergeSort_perm found fun a b => (compare a.1 b.1).isLE
  have hle := pairwise_mergeSort_compare (fun c : Name × List Find => c.1) found
  have hne := (hperm.map (·.1)).symm.nodup hd
  rw [List.nodup_iff_pairwise_ne, List.pairwise_map] at hne
  rw [inOrder, List.pairwise_flatMap]
  refine ⟨fun c hc => hin c (hperm.mem_iff.1 hc), (hle.and hne).imp_of_mem ?_⟩
  intro c d hc hd ⟨hle, hne⟩
  refine hbetween c (hperm.mem_iff.1 hc) d (hperm.mem_iff.1 hd) ?_
  have heq : compare c.1 d.1 ≠ .eq := fun heq => hne (Std.LawfulEqCmp.eq_of_compare heq)
  revert hle heq
  cases compare c.1 d.1 <;> simp

/-- A walk comes by paths in their ascending order. -/
theorem ascending_walk (hw : e.WellFormed) (hp : p.text ≠ []) :
    (walk settings p e).Pairwise fun x y => compare x.path y.path = .lt := by
  induction hw generalizing p with
  | file | link | closed =>
    rw [walk]
    simp
  | @directory children distinct proper below readable ih =>
    cases readable with
    | false => simp [walk]
    | true =>
      rw [walk, if_pos rfl, walkChildren_eq]
      refine pairwise_inOrder ?_ ?_ ?_
      · simpa [Function.comp_def] using distinct
      · simp only [List.forall_mem_map]
        intro c hc
        split
        · exact .nil
        · exact ih c hc (text_child_ne_nil hp (proper c hc))
      · simp only [List.forall_mem_map]
        intro c hc d hd hlt x hx y hy
        obtain ⟨rest, hx⟩ := exists_components_of_mem_walk (below c hc)
          (text_child_ne_nil hp (proper c hc)) (mem_walkChild_iff.1 hx).2
        obtain ⟨rest', hy⟩ := exists_components_of_mem_walk (below d hd)
          (text_child_ne_nil hp (proper d hd)) (mem_walkChild_iff.1 hy).2
        rw [Path.components_child hp (proper c hc), List.append_assoc] at hx
        rw [Path.components_child hp (proper d hd), List.append_assoc] at hy
        exact compare_lt_of_parting hx hy hlt

/-! ### Outcomes -/

variable {s : Snapshot} {root : Path} {outcome : Outcome} {found : List Find} {w : Warning}

theorem Find.path_of_supported? (h : x.supported? settings = some q) : x.path = q := by
  cases x with
  | denied => contradiction
  | file p =>
    rw [supported?, Option.ite_none_right_eq_some, Option.some.injEq] at h
    exact h.2

theorem Find.path_of_warning? (h : x.warning? = some w) : x.path = w.path := by
  cases x with
  | file => contradiction
  | denied p => exact congrArg Warning.path (Option.some.inj h)

theorem mem_files_iff :
    q ∈ (outcomeOf settings found).files ↔ settings.isSupported q = true ∧ .file q ∈ found := by
  rw [outcomeOf, sorted, List.mem_mergeSort, List.mem_filterMap]
  constructor
  · rintro ⟨x, hx, hq⟩
    cases x with
    | denied => contradiction
    | file p =>
      obtain rfl := Find.path_of_supported? hq
      rw [Find.supported?, Option.ite_none_right_eq_some] at hq
      exact ⟨hq.1, hx⟩
  · rintro ⟨hq, hmem⟩
    exact ⟨_, hmem, by rw [Find.supported?, if_pos hq]⟩

theorem mem_warnings_iff : w ∈ (outcomeOf settings found).warnings ↔
    ∃ p, .denied p ∈ found ∧ w = ⟨p, .unlisted p .permissionDenied⟩ := by
  rw [outcomeOf, List.mem_filterMap]
  constructor
  · rintro ⟨x, hx, hw⟩
    cases x with
    | file => contradiction
    | denied p => exact ⟨p, hx, (Option.some.inj hw).symm⟩
  · rintro ⟨p, hmem, rfl⟩
    exact ⟨_, hmem, rfl⟩

theorem run_eq_ok_iff : run s settings root = .ok outcome ↔
    ∃ e, s.entry? root = some e ∧ outcomeOf settings (finds s settings root e) = outcome := by
  rw [run]
  cases s.entry? root <;> simp

end Scan

end ModuleAtlas
