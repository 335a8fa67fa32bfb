import ModuleAtlas.Proofs.Analysis.Isolation
import ModuleAtlas.Proofs.FileSystem.OwnContent
import ModuleAtlas.Proofs.Text.Encoding

/-!
# Every file of a directory

No file of a scan gets lost: each has a node under the path that the scan found it by, and whatever
keeps a file or a directory from being looked into is said in one warning (`run_covers`).

* A file is loaded with a warning if its bytes are no text, or if the text makes sense in neither
  dialect (`loadFile_warning_iff`).
* An analysis fails because of its root (`rootOf_eq_error_iff`), whatever is below it.
-/

namespace ModuleAtlas

namespace Analysis

open Source

variable {verdict : Verdict} {s : Snapshot} {extensions : List String} {root p dir : Path}
  {o : Obstacle} {f : Failure}

/-! ### What is wrong with a file -/

/-- Why a file cannot be looked into: its bytes are no text, or its text makes sense neither in the
dialect that suits the file nor in the other one. -/
inductive Flawed (verdict : Verdict) (s : Snapshot) (p : Path) : Obstacle → Prop
  | bytes {content : List UInt8} (holds : s.Holds p content)
    (garbled : Text.Utf8.decode? content = none) : Flawed verdict s p (.unreadable .notText)
  | text {content : List UInt8} {text : String} {first last : Fault} (holds : s.Holds p content)
    (decoded : Text.Utf8.decode? content = some text)
    (suitable : verdict (.ofPath p) text = .error first)
    (other : verdict (Dialect.ofPath p).other text = .error last) :
    Flawed verdict s p (.senseless last)

theorem localImports_eq_error_iff {text : String} {fault : Fault} :
    localImports verdict p text = .error fault ↔
      (∃ first, verdict (.ofPath p) text = .error first) ∧
        verdict (Dialect.ofPath p).other text = .error fault := by
  rw [localImports, Reading.of?]
  cases verdict (.ofPath p) text with
  | ok tree => simp [Except.map]
  | error first => cases verdict (Dialect.ofPath p).other text <;> simp [Except.map]

theorem importsOf_eq_error_iff : importsOf verdict s extensions root p = .error o ↔
    (∃ t, s.readText p = .error t ∧ .unreadable t = o) ∨
      ∃ text fault, s.readText p = .ok text ∧ localImports verdict p text = .error fault ∧
        .senseless fault = o := by
  rw [importsOf]
  cases s.readText p with
  | error t => simp
  | ok text => cases h : localImports verdict p text <;> simp [h]

theorem readText_of_read {content : List UInt8} (h : s.read p = .ok content) : s.readText p =
    match Text.Utf8.decode? content with
    | some t => .ok t
    | none => .error .notText := by
  rw [Snapshot.readText, h]
  rfl

/-- A file is loaded with a warning if and only if it is flawed, and the warning says how. -/
theorem loadFile_warning_iff {content : List UInt8} (hs : s.top.WellFormed)
    (hp : s.Holds p content) (hread : s.read p = .ok content) {w : Warning} :
    (loadFile verdict s extensions root p).warning = some w ↔
      w.path = p ∧ Flawed verdict s p w.obstacle := by
  have hwarning : (loadFile verdict s extensions root p).warning = some w ↔
      w.path = p ∧ importsOf verdict s extensions root p = .error w.obstacle := by
    obtain ⟨path, obstacle⟩ := w
    rw [loadFile]
    cases importsOf verdict s extensions root p <;> simp [eq_comm]
  rw [hwarning, importsOf_eq_error_iff, readText_of_read hread]
  refine and_congr_right fun _ => ⟨?_, fun h => ?_⟩
  · rintro (⟨t, ht, ho⟩ | ⟨text, fault, htext, hfault, ho⟩)
    · split at ht
      · contradiction
      · next hnone =>
        obtain rfl := Except.error.inj ht
        exact ho ▸ .bytes hp hnone
    · split at htext
      · next hsome =>
        obtain rfl := Except.ok.inj htext
        obtain ⟨⟨first, hfirst⟩, hlast⟩ := localImports_eq_error_iff.1 hfault
        exact ho ▸ .text hp hsome hfirst hlast
      · contradiction
  · generalize w.obstacle = o at h
    cases h with
    | bytes holds garbled =>
      rw [hp.unique holds hs, garbled]
      exact .inl ⟨_, rfl, rfl⟩
    | text holds decoded suitable other =>
      rw [hp.unique holds hs, decoded]
      exact .inr ⟨_, _, rfl, localImports_eq_error_iff.2 ⟨⟨_, suitable⟩, other⟩, rfl⟩

/-! ### What is wrong with a root -/

/-- Why a directory cannot be analysed. -/
inductive RootFault (s : Snapshot) (dir : Path) : Failure → Prop
  | unnamed (empty : dir.text = []) : RootFault s dir (.input .directoryRequired)
  | missing (named : dir.text ≠ []) (missing : s.hasEntry dir = false) :
    RootFault s dir (.notFound .directory dir)
  | noDirectory (there : s.hasEntry dir = true) (other : s.isDirectory dir = false) :
    RootFault s dir (.input (.notADirectory dir))

theorem rootOf_eq_error_iff : rootOf s dir = .error f ↔ RootFault s dir f := by
  rw [rootOf]
  constructor
  · intro h
    split at h
    · next hempty => exact Except.error.inj h ▸ .unnamed (by simpa using hempty)
    split at h
    · next hnamed hmissing =>
      exact Except.error.inj h ▸ .missing (by simpa using hnamed) (by simpa using hmissing)
    split at h
    · next hthere hother =>
      exact Except.error.inj h ▸ .noDirectory (by simpa using hthere) (by simpa using hother)
    · next hthere _ =>
      -- what is there has a canonical path
      obtain ⟨l, hl⟩ := Snapshot.hasEntry_iff.1 (by simpa using hthere)
      rw [Snapshot.canonical_eq_ok_iff.2 ⟨l, hl, rfl⟩] at h
      contradiction
  · intro h
    cases h with
    | unnamed empty => simp [empty]
    | missing named missing => simp [named, missing]
    | noDirectory there other =>
      obtain ⟨l, hl⟩ := Snapshot.hasEntry_iff.1 there
      have hnamed := Snapshot.text_ne_nil_of_locateFrom hl
      simp [hnamed, there, other]

/-- What is right with a root is that it can be scanned. -/
theorem exists_run_of_rootOf (hs : s.top.WellFormed) (hfit : s.top.NamesFit)
    (settings : ScanSettings) (h : rootOf s dir = .ok root) :
    ∃ found, Scan.run s settings root = .ok found := by
  obtain ⟨-, d, e, hat, he, rfl⟩ := canonical_of_rootOf h
  have hlink (target : Path) : e ≠ .link target := by
    rintro rfl
    contradiction
  have hlocate := Snapshot.locate_pathOf hs hfit (Snapshot.isDirectory_top hat he) hat hlink
  exact ⟨_, Scan.run_eq_ok_iff.2 ⟨e, Snapshot.entry?_eq_some_iff.2 ⟨d, hlocate, hat⟩, rfl⟩⟩

/-! ### All files -/

variable {α γ : Type} [Scalar α] {r : RandomSource α γ} {settings : Settings α} {a : Analysis α}
  {found : Scan.Outcome}

theorem Loads.ascending_warnings {load : Path → Loaded} (h : Loads s found load) :
    (found.files.filterMap fun p => (load p).warning).Pairwise fun v w =>
      compare v.path w.path = .lt := by
  rw [List.pairwise_filterMap]
  refine h.ascending.imp fun {p q} hlt v hv w hw => ?_
  rwa [h.path_warning p v hv, h.path_warning q w hw]

/-- The warnings that files are loaded with say of each flawed one what is wrong with it. -/
theorem mem_warnings_iff (hs : s.top.WellFormed) (hfit : s.top.NamesFit)
    (htop : s.top.isDirectory = true) (h : Loads s found (loadFile verdict s extensions root))
    {w : Warning} :
    (w ∈ found.files.filterMap fun p => (loadFile verdict s extensions root p).warning) ↔
      w.path ∈ found.files ∧ Flawed verdict s w.path w.obstacle := by
  have hwarning (p : Path) (hp : p ∈ found.files) :
      (loadFile verdict s extensions root p).warning = some w ↔
        w.path = p ∧ Flawed verdict s p w.obstacle := by
    obtain ⟨l, content, hl, hpath⟩ := h.own p hp
    have hholds : s.Holds p content := ⟨l, hl, hpath⟩
    exact loadFile_warning_iff hs hholds (hholds.read_eq hs hfit htop)
  rw [List.mem_filterMap]
  constructor
  · rintro ⟨p, hp, hw⟩
    obtain ⟨rfl, hflawed⟩ := (hwarning p hp).1 hw
    exact ⟨hp, hflawed⟩
  · rintro ⟨hp, hflawed⟩
    exact ⟨w.path, hp, (hwarning _ hp).2 ⟨rfl, hflawed⟩⟩

/-- The nodes of an analysis are the files of a scan of the root by its canonical path, in the order
of the scan, and under the paths that the scan found them by. The warnings of the scan come first, one
for each directory that bars its way. Behind them come those about files, in the order of their paths,
and there is one for a file if and only if the file is flawed. An analysis fails if and only if
something is wrong with the root; but the program stops if the core is to be placed in a zone without
room. -/
theorem run_covers (hs : s.top.WellFormed) (hfit : s.top.NamesFit) (verdict : Verdict)
    (r : RandomSource α γ) (settings : Settings α) (dir : Path) :
    (∀ a, run verdict r s settings dir = .ok a → s.canonical dir = .ok a.root ∧
      ∃ found, Scan.run s settings.scan a.root = .ok found ∧
        a.graph.nodes.map (·.id) = found.files ∧ a.stats.files = found.files.length ∧
        ((found.warnings.Pairwise fun v w => compare v.path w.path = .lt) ∧
          ∀ w, w ∈ found.warnings ↔ Scan.Barred s settings.scan a.root w.path ∧
            w.obstacle = .unlisted w.path .permissionDenied) ∧
        ∃ told, a.warnings = found.warnings ++ told ∧
          (told.Pairwise fun v w => compare v.path w.path = .lt) ∧
          ∀ w, w ∈ told ↔ w.path ∈ found.files ∧ Flawed verdict s w.path w.obstacle) ∧
    (∀ f, RootFault s dir f → run verdict r s settings dir = .error f) ∧
    ∀ f, run verdict r s settings dir = .error f → RootFault s dir f ∨
      f = .noRoom ∧ settings.layout.strategy = .zoned ∧ ¬settings.layout.HasRoom := by
  refine ⟨fun a ha => ?_, fun f hf => ?_, fun f hf => ?_⟩
  · obtain ⟨root, found, hroot, hfound, hloaded⟩ := run_eq_ok_iff.1 ha
    obtain ⟨hcanonical, d, e, hat, he, rfl⟩ := canonical_of_rootOf hroot
    have hloads : Loads s found
        (loadFile verdict s settings.scan.extensions (Snapshot.pathOf d)) :=
      loads hs hat he hfound rfl
    have hids := hloads.map_id hloaded
    have hstats : a.stats.files = a.graph.nodes.length := by
      obtain ⟨g, -, rfl⟩ := ofLoaded_eq_ok_iff.1 hloaded
      rfl
    rw [root_of_ofLoaded hloaded]
    refine ⟨hcanonical, found, hfound, hids, ?_, Scan.scan_warns hs hfound, _,
      hloads.warnings_eq hloaded, hloads.ascending_warnings, fun w =>
        mem_warnings_iff hs hfit (Snapshot.isDirectory_top hat he) hloads⟩
    rw [hstats, ← hids, List.length_map]
  · rw [run, rootOf_eq_error_iff.2 hf]
    rfl
  · cases hroot : rootOf s dir with
    | error fault =>
      rw [run, hroot] at hf
      obtain rfl := Except.error.inj hf
      exact .inl (rootOf_eq_error_iff.1 hroot)
    | ok root =>
      obtain ⟨found, hfound⟩ := exists_run_of_rootOf hs hfit settings.scan hroot
      rw [run_eq hroot hfound] at hf
      obtain ⟨a, ha⟩ | ⟨hnoRoom, hzoned⟩ := ofLoaded_returns settings r root found.warnings
        (found.files.map (loadFile verdict s settings.scan.extensions root))
      · rw [ha] at hf
        contradiction
      · rw [hnoRoom] at hf
        exact .inr ⟨(Except.error.inj hf).symm, hzoned⟩

/-- A text that makes no sense. -/
def senselessText : String := "("

/-- In /r a file a.ts whose only byte begins no text, a file b.ts that makes no sense, an empty file
c.ts, and a directory d in which nothing can be looked up. -/
def flawedFiles : List (Name × Entry) :=
  [([97, 46, 116, 115], .file [255]), ([98, 46, 116, 115], .file (Text.Utf8.encode senselessText)),
   ([99, 46, 116, 115], .file []), ([100], .closed)]

def flawedSnapshot : Snapshot := ⟨.directory [([114], .directory flawedFiles true)] true, []⟩

theorem wellFormed_flawedSnapshot : flawedSnapshot.top.WellFormed := by
  have hfiles : ∀ c ∈ flawedFiles, c.2.WellFormed := by
    simp only [flawedFiles, List.forall_mem_cons]
    exact ⟨.file _, .file _, .file _, .closed, by simp⟩
  exact .directory (by decide) (by decide)
    (List.forall_mem_singleton.2 (.directory (by decide) (by decide) hfiles true)) true

theorem namesFit_flawedSnapshot : flawedSnapshot.top.NamesFit := by
  have hfiles : ∀ c ∈ flawedFiles, c.1.length ≤ Snapshot.maxName ∧ c.2.NamesFit := by
    simp only [flawedFiles, List.forall_mem_cons]
    have hfit (content : List UInt8) : (Entry.file content).NamesFit :=
      Entry.namesFit_of_leaf (by simp)
    exact ⟨⟨by decide, hfit _⟩, ⟨by decide, hfit _⟩, ⟨by decide, hfit _⟩,
      ⟨by decide, Entry.namesFit_of_leaf (by simp)⟩, by simp⟩
  exact Entry.namesFit_directory (List.forall_mem_singleton.2
    ⟨by decide, Entry.namesFit_directory hfiles⟩)

/-- A scan comes by the directory, but not into it. -/
theorem run_scan_flawedSnapshot : Scan.run flawedSnapshot .standard (.ofString "/r") =
    .ok ⟨[.ofString "/r/a.ts", .ofString "/r/b.ts", .ofString "/r/c.ts"],
      [⟨.ofString "/r/d", .unlisted (.ofString "/r/d") .permissionDenied⟩]⟩ := by
  cbv

/-- What the texts of these files mean. -/
def flawedVerdict : Verdict := fun _ text =>
  if text = senselessText then .error ⟨1, 1⟩ else .ok (.node ⟨.program, none, 0, 0⟩ [])

/-- All three files are nodes. There is a warning about the directory, and behind it one for each of the
first two files. -/
theorem run_covers_flawed : ∃ (a : Analysis Float) (told : List Warning),
    run flawedVerdict zeros flawedSnapshot .standard (.ofString "/r") = .ok a ∧
    a.graph.nodes.map (·.id) = [.ofString "/r/a.ts", .ofString "/r/b.ts", .ofString "/r/c.ts"] ∧
    a.warnings = ⟨.ofString "/r/d", .unlisted (.ofString "/r/d") .permissionDenied⟩ :: told ∧
    ⟨.ofString "/r/a.ts", .unreadable .notText⟩ ∈ told ∧
    ⟨.ofString "/r/b.ts", .senseless ⟨1, 1⟩⟩ ∈ told ∧
    run flawedVerdict zeros flawedSnapshot .standard (.ofString "/r/a.ts") =
      (.error (.input (.notADirectory (.ofString "/r/a.ts"))) : Except Failure (Analysis Float)) := by
  have hroot : rootOf flawedSnapshot (.ofString "/r") = .ok (.ofString "/r") := by cbv
  have hcanonical : flawedSnapshot.canonical (.ofString "/r") = .ok (.ofString "/r") := by cbv
  obtain ⟨a, ha⟩ : ∃ a : Analysis Float,
      run flawedVerdict zeros flawedSnapshot .standard (.ofString "/r") = .ok a := by
    rw [run_eq hroot run_scan_flawedSnapshot]
    obtain ha | ⟨-, hzoned, -⟩ := ofLoaded_returns (α := Float) Settings.standard zeros _ _ _
    · exact ha
    · contradiction
  obtain ⟨hcovers, -, -⟩ := run_covers (α := Float) wellFormed_flawedSnapshot
    namesFit_flawedSnapshot flawedVerdict zeros .standard (.ofString "/r")
  obtain ⟨hroot', found, hscan, hids, -, -, told, hwarnings, -, htold⟩ := hcovers a ha
  rw [← Except.ok.inj (hcanonical.symm.trans hroot')] at hscan
  obtain rfl := Except.ok.inj (run_scan_flawedSnapshot.symm.trans hscan)
  obtain ⟨-, hfaults, -⟩ := run_covers (α := Float) wellFormed_flawedSnapshot
    namesFit_flawedSnapshot flawedVerdict zeros .standard (.ofString "/r/a.ts")
  refine ⟨a, told, ha, hids, hwarnings, (htold _).2 ⟨List.mem_cons_self, ?_⟩,
    (htold _).2 ⟨List.mem_cons_of_mem _ List.mem_cons_self, ?_⟩,
    hfaults _ (.noDirectory (by cbv) (by cbv))⟩
  · exact .bytes ⟨[[114], [97, 46, 116, 115]], by cbv, by cbv⟩ (by cbv)
  · have hfault (d : Dialect) : flawedVerdict d senselessText = .error ⟨1, 1⟩ := if_pos rfl
    exact .text ⟨[[114], [98, 46, 116, 115]], by cbv, by cbv⟩ (Text.Utf8.decode?_encode senselessText)
      (hfault _) (hfault _)

end Analysis

end ModuleAtlas
