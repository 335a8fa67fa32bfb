import Mathlib
import ModuleAtlas.Proofs.FileSystem.OwnPaths

/-!
# What a scan finds

What a scan finds are the files sought, each once, in the ascending order of their paths
(`scan_finds`), and for each directory that bars its way there is a warning, in the ascending order of
their paths too (`scan_warns`). Both are said of the ways down from the root, name by name.
-/

namespace ModuleAtlas

/-- What is in the directory cannot be listed. -/
def Entry.Unlistable (e : Entry) : Prop := (∃ children, e = .directory children false) ∨ e = .closed

/-- From a location the names lead down through readable directories. -/
def Snapshot.ReadableWay (s : Snapshot) (l names : Location) : Prop :=
  ∀ k < names.length, ∃ children, s.top.at? (l ++ names.take k) = some (.directory children true)

namespace Scan

open Snapshot

variable {s : Snapshot} {settings : ScanSettings} {p root : Path} {l names : Location}
  {e f : Entry} {outcome : Outcome} {x : Find} {content : List UInt8}

/-- A path with one of the extensions, of a file: either of the root itself, where no link is
followed, or of one further down, by readable directories whose names are not ignored. -/
def Sought (s : Snapshot) (settings : ScanSettings) (root p : Path) : Prop :=
  (∃ bytes extension, p.extension? = some bytes ∧ Text.Utf8.decode? bytes = some extension ∧
    extension ∈ settings.extensions) ∧
  ((p = root ∧ ∃ content, s.ownEntry? root = some (.file content)) ∨
    ∃ l names content, s.locate root = .ok l ∧ names ≠ [] ∧ root.below names = p ∧
      s.top.at? (l ++ names) = some (.file content) ∧ s.ReadableWay l names ∧
      ∀ d ∈ names.dropLast, Text.Utf8.decodeLossy d ∉ settings.ignoredNames)

/-- The path of a directory that cannot be listed: either of the root or of one further down, by
readable directories, and behind the root no name is ignored. -/
def Barred (s : Snapshot) (settings : ScanSettings) (root p : Path) : Prop :=
  ∃ l names e, s.locate root = .ok l ∧ root.below names = p ∧ s.top.at? (l ++ names) = some e ∧
    e.Unlistable ∧ s.ReadableWay l names ∧
    ∀ d ∈ names, Text.Utf8.decodeLossy d ∉ settings.ignoredNames

theorem isSupported_iff : settings.isSupported p = true ↔ ∃ bytes extension,
    p.extension? = some bytes ∧ Text.Utf8.decode? bytes = some extension ∧
      extension ∈ settings.extensions := by
  rw [ScanSettings.isSupported]
  cases p.extension? with
  | none => simp
  | some bytes => cases h : Text.Utf8.decode? bytes <;> simp [h]

theorem isDirectory_of_unlistable (h : e.Unlistable) : e.isDirectory = true := by
  obtain ⟨children, rfl⟩ | rfl := h <;> rfl

/-! ### Ways down from the root -/

/-- Of a walk from the entry at a location, in terms of the snapshot. -/
theorem reaches_iff_at? (hat : s.top.at? l = some e) : Reaches settings e names f ↔
    s.top.at? (l ++ names) = some f ∧ s.ReadableWay l names ∧
      ∀ d ∈ if f.isDirectory then names else names.dropLast,
        Text.Utf8.decodeLossy d ∉ settings.ignoredNames := by
  have hdown (names : Location) : s.top.at? (l ++ names) = e.at? names := by
    rw [Entry.at?_append, hat, Option.bind_some]
  simp only [ReadableWay, hdown, reaches_iff]

/-- Only in a directory there is anything further down. -/
theorem eq_nil_of_not_directory (hat : s.top.at? l = some e) (he : e.isDirectory = false)
    (hf : s.top.at? (l ++ names) = some f) : names = [] := by
  cases names with
  | nil => rfl
  | cons name rest =>
    rw [Entry.at?_append, hat, Option.bind_some] at hf
    obtain ⟨_, _, _, rfl, -⟩ := Entry.at?_cons hf
    contradiction

/-- What stands at a path is what it leads to, or a link. -/
theorem ownEntry?_cases (hl : s.locate root = .ok l) (hat : s.top.at? l = some e)
    (h : s.ownEntry? root = some f) : f = e ∨ ∃ target, f = .link target := by
  obtain ⟨m, hm, hf⟩ := ownEntry?_eq_some_iff.1 h
  refine or_iff_not_imp_right.2 fun hlink => ?_
  have hm := locate_of_locateFrom hm fun target ht =>
    hlink ⟨target, Option.some.inj (hf.symm.trans ht)⟩
  obtain rfl := Except.ok.inj (hl.symm.trans hm)
  exact Option.some.inj (hf.symm.trans hat)

/-- In a directory all is found that there is at the end of a way down. -/
theorem mem_finds_of_directory (hs : s.top.WellFormed) (hat : s.top.at? l = some e)
    (he : e.isDirectory = true) : x ∈ finds s settings root e ↔
      ∃ names f, (s.top.at? (l ++ names) = some f ∧ s.ReadableWay l names ∧
        ∀ d ∈ if f.isDirectory then names else names.dropLast,
          Text.Utf8.decodeLossy d ∉ settings.ignoredNames) ∧
        findAt? (root.below names) f = some x := by
  rw [finds, if_pos he, mem_walk_iff (hs.at? hat)]
  simp only [reaches_iff_at? hat]

/-- A root that is no directory is the only thing that may be found. -/
theorem mem_finds_of_not_directory (hl : s.locate root = .ok l) (hat : s.top.at? l = some e)
    (he : e.isDirectory = false) : x ∈ finds s settings root e ↔
      (∃ content, s.ownEntry? root = some (.file content)) ∧ x = .file root := by
  rw [finds, he, if_neg Bool.false_ne_true]
  cases hown : s.ownEntry? root with
  | none => simp
  | some own =>
    cases own with
    | file => simp [walk]
    | link => simp [walk]
    | directory | closed =>
      obtain rfl | ⟨_, ⟨⟩⟩ := ownEntry?_cases hl hat hown
      contradiction

theorem file_mem_finds_iff (hs : s.top.WellFormed) (hl : s.locate root = .ok l)
    (hat : s.top.at? l = some e) : .file p ∈ finds s settings root e ↔
      (p = root ∧ ∃ content, s.ownEntry? root = some (.file content)) ∨
        ∃ l names content, s.locate root = .ok l ∧ names ≠ [] ∧ root.below names = p ∧
          s.top.at? (l ++ names) = some (.file content) ∧ s.ReadableWay l names ∧
          ∀ d ∈ names.dropLast, Text.Utf8.decodeLossy d ∉ settings.ignoredNames := by
  cases hdir : e.isDirectory with
  | true =>
    rw [mem_finds_of_directory hs hat hdir]
    constructor
    · rintro ⟨names, f, ⟨hfile, hway, hnames⟩, hf⟩
      obtain ⟨content, rfl, rfl⟩ := findAt?_eq_file_iff.1 hf
      refine .inr ⟨l, names, content, hl, ?_, rfl, hfile, hway, hnames⟩
      rintro rfl
      rw [List.append_nil, hat, Option.some.injEq] at hfile
      subst hfile
      contradiction
    · rintro (⟨-, content, hown⟩ | ⟨m, names, content, hm, -, rfl, hfile, hway, hnames⟩)
      · obtain rfl | ⟨_, ⟨⟩⟩ := ownEntry?_cases hl hat hown
        contradiction
      · obtain rfl := Except.ok.inj (hl.symm.trans hm)
        exact ⟨names, _, ⟨hfile, hway, hnames⟩, rfl⟩
  | false =>
    rw [mem_finds_of_not_directory hl hat hdir, Find.file.injEq, and_comm, eq_comm]
    refine (or_iff_left ?_).symm
    rintro ⟨m, names, content, hm, hne, -, hfile, -⟩
    obtain rfl := Except.ok.inj (hl.symm.trans hm)
    exact hne (eq_nil_of_not_directory hat hdir hfile)

theorem denied_mem_finds_iff (hs : s.top.WellFormed) (hl : s.locate root = .ok l)
    (hat : s.top.at? l = some e) :
    .denied p ∈ finds s settings root e ↔ Barred s settings root p := by
  cases hdir : e.isDirectory with
  | true =>
    rw [mem_finds_of_directory hs hat hdir]
    constructor
    · rintro ⟨names, f, ⟨hat, hway, hnames⟩, hf⟩
      obtain ⟨hunlistable, rfl⟩ := findAt?_eq_denied_iff.1 hf
      rw [if_pos (isDirectory_of_unlistable hunlistable)] at hnames
      exact ⟨l, names, f, hl, rfl, hat, hunlistable, hway, hnames⟩
    · rintro ⟨m, names, f, hm, rfl, hat, hunlistable, hway, hnames⟩
      obtain rfl := Except.ok.inj (hl.symm.trans hm)
      refine ⟨names, f, ⟨hat, hway, ?_⟩, findAt?_eq_denied_iff.2 ⟨hunlistable, rfl⟩⟩
      rwa [if_pos (isDirectory_of_unlistable hunlistable)]
  | false =>
    rw [mem_finds_of_not_directory hl hat hdir]
    refine iff_of_false (fun h => by simp at h) ?_
    rintro ⟨m, names, f, hm, -, hf, hunlistable, -⟩
    obtain rfl := Except.ok.inj (hl.symm.trans hm)
    obtain rfl := eq_nil_of_not_directory hat hdir hf
    rw [List.append_nil, hat, Option.some.injEq] at hf
    rw [hf, isDirectory_of_unlistable hunlistable] at hdir
    contradiction

theorem ascending_finds (hs : s.top.WellFormed) (hl : s.locate root = .ok l)
    (hat : s.top.at? l = some e) :
    (finds s settings root e).Pairwise fun x y => compare x.path y.path = .lt := by
  have hroot : root.text ≠ [] := text_ne_nil_of_locateFrom hl
  rw [finds]
  split
  · exact ascending_walk (hs.at? hat) hroot
  · cases hown : s.ownEntry? root with
    | none => exact .nil
    | some own =>
      obtain ⟨m, -, hm⟩ := ownEntry?_eq_some_iff.1 hown
      exact ascending_walk (hs.at? hm) hroot

/-! ### What a scan gives -/

theorem ascending_files (hs : s.top.WellFormed) (h : run s settings root = .ok outcome) :
    outcome.files.Pairwise fun p q => compare p q = .lt := by
  obtain ⟨e, hroot, rfl⟩ := run_eq_ok_iff.1 h
  obtain ⟨l, hl, hat⟩ := entry?_eq_some_iff.1 hroot
  have hfiles : ((finds s settings root e).filterMap (Find.supported? settings)).Pairwise
      fun p q => compare p q = .lt := by
    refine List.pairwise_filterMap.2 ((ascending_finds hs hl hat).imp ?_)
    intro x y hlt p hp q hq
    rwa [← Find.path_of_supported? hp, ← Find.path_of_supported? hq]
  -- the finds come in the order in which they are sorted then
  rw [outcomeOf, sorted, List.mergeSort_of_pairwise (hfiles.imp fun hlt => by rw [hlt]; rfl)]
  exact hfiles

/-- No warning is about a file. -/
theorem warnings_apart (hs : s.top.WellFormed) (h : run s settings root = .ok outcome) :
    ∀ w ∈ outcome.warnings, ∀ p ∈ outcome.files, (w.path == p) = false := by
  obtain ⟨e, hroot, rfl⟩ := run_eq_ok_iff.1 h
  obtain ⟨l, hl, hat⟩ := entry?_eq_some_iff.1 hroot
  intro w hw p hp
  obtain ⟨d, hd, rfl⟩ := mem_warnings_iff.1 hw
  rw [← Bool.not_eq_true, ← Path.compare_eq_iff]
  intro heq
  have hsame : Find.denied d = .file p :=
    eq_of_compare_eq (ascending_finds hs hl hat) hd (mem_files_iff.1 hp).2 heq
  contradiction

/-- Whatever is at the root, a scan finds the files sought. -/
theorem exists_outcome (hs : s.top.WellFormed) (hroot : s.entry? root = some e) :
    ∃ outcome, run s settings root = .ok outcome ∧
      ∀ p, p ∈ outcome.files ↔ Sought s settings root p := by
  obtain ⟨l, hl, hat⟩ := entry?_eq_some_iff.1 hroot
  refine ⟨_, run_eq_ok_iff.2 ⟨e, hroot, rfl⟩, fun p => ?_⟩
  rw [mem_files_iff, file_mem_finds_iff hs hl hat, isSupported_iff, Sought]

/-- The warnings of a scan come in the ascending order of their paths, and there is one for a directory
if and only if that bars the way. -/
theorem scan_warns (hs : s.top.WellFormed) (h : run s settings root = .ok outcome) :
    (outcome.warnings.Pairwise fun v w => compare v.path w.path = .lt) ∧
      ∀ w, w ∈ outcome.warnings ↔
        Barred s settings root w.path ∧ w.obstacle = .unlisted w.path .permissionDenied := by
  obtain ⟨e, hroot, rfl⟩ := run_eq_ok_iff.1 h
  obtain ⟨l, hl, hat⟩ := entry?_eq_some_iff.1 hroot
  constructor
  · refine List.pairwise_filterMap.2 ((ascending_finds hs hl hat).imp ?_)
    intro x y hlt v hv w hw
    rwa [← Find.path_of_warning? hv, ← Find.path_of_warning? hw]
  · intro w
    rw [mem_warnings_iff, ← denied_mem_finds_iff hs hl hat]
    obtain ⟨path, obstacle⟩ := w
    simp

/-- Nothing but a root that does not exist makes a scan fail. Otherwise it finds the files sought, each
once, in ascending order. -/
theorem scan_finds (hs : s.top.WellFormed) (settings : ScanSettings) (root : Path) :
    (∀ failure, run s settings root = .error failure ↔
      s.hasEntry root = false ∧ failure = .notFound .directory root) ∧
    (s.hasEntry root = true → ∃ outcome, run s settings root = .ok outcome ∧
      (outcome.files.Pairwise fun p q => compare p q = .lt) ∧
      ∀ p, p ∈ outcome.files ↔ Sought s settings root p) := by
  cases hroot : s.entry? root with
  | none =>
    have hrun : run s settings root = .error (.notFound .directory root) := by
      rw [run, hroot]
    simp [hasEntry, hroot, hrun, eq_comm]
  | some e =>
    obtain ⟨outcome, hrun, hfiles⟩ : ∃ outcome, run s settings root = .ok outcome ∧
        ∀ p, p ∈ outcome.files ↔ Sought s settings root p := exists_outcome hs hroot
    refine ⟨fun failure => ?_, fun _ => ⟨outcome, hrun, ascending_files hs hrun, hfiles⟩⟩
    simp [hasEntry, hroot, hrun]

/-- A directory /dist: files a.ts and dist.ts in it, a file .ts without an extension, a link l.ts to
a.ts and a directory of the name dist with a file b.ts. -/
def nestedSnapshot : Snapshot where
  top := .directory [([100, 105, 115, 116], .directory [([46, 116, 115], .file []),
    ([100, 105, 115, 116], .directory [([98, 46, 116, 115], .file [])] true),
    ([100, 105, 115, 116, 46, 116, 115], .file []), ([97, 46, 116, 115], .file []),
    ([108, 46, 116, 115], .link (.ofString "a.ts"))] true)] true
  working := []

theorem wellFormed_nestedSnapshot : nestedSnapshot.top.WellFormed := by
  refine .directory (by decide) (by decide) (List.forall_mem_singleton.2 ?_) true
  refine .directory (by decide) (by decide) ?_ true
  simp only [List.forall_mem_cons]
  exact ⟨.file _, .directory (by decide) (by decide) (by simpa using .file _) true, .file _, .file _,
    .link _, by simp⟩

/-- Of these a scan of the directory finds two, though the directory has an ignored name itself. -/
theorem scan_finds_nested : nestedSnapshot.hasEntry (.ofString "/dist") = true ∧
    run nestedSnapshot .standard (.ofString "/dist") =
      .ok ⟨[.ofString "/dist/a.ts", .ofString "/dist/dist.ts"], []⟩ ∧
    Sought nestedSnapshot .standard (.ofString "/dist") (.ofString "/dist/dist.ts") ∧
    ¬ Sought nestedSnapshot .standard (.ofString "/dist") (.ofString "/dist/dist/b.ts") := by
  have hroot : nestedSnapshot.hasEntry (.ofString "/dist") = true := by cbv
  have hrun : run nestedSnapshot .standard (.ofString "/dist") =
      .ok ⟨[.ofString "/dist/a.ts", .ofString "/dist/dist.ts"], []⟩ := by cbv
  obtain ⟨outcome, houtcome, -, hsought⟩ :=
    (scan_finds wellFormed_nestedSnapshot .standard (.ofString "/dist")).2 hroot
  obtain rfl := Except.ok.inj (hrun.symm.trans houtcome)
  refine ⟨hroot, hrun, (hsought _).1 (List.mem_cons_of_mem _ List.mem_cons_self), ?_⟩
  rw [← hsought]
  simp only [List.mem_cons, List.not_mem_nil, or_false, not_or]
  exact ⟨mt (congrArg Path.text) (by decide), mt (congrArg Path.text) (by decide)⟩

end Scan

end ModuleAtlas
