import Mathlib
import ModuleAtlas.Analysis
import ModuleAtlas.Proofs.FileSystem.OwnPaths
import ModuleAtlas.Proofs.Graph.Stages

/-!
# The edges of an analysis

Which edges the graph of a directory has (`run_edges`). Three things come together:

* what is read off a file: the modules that it names by a path (`NamesByPath`), and of these the
  ones that mean a file (`mem_dependencies_loadFile`);
* what becomes of the import lists: an edge for each import of a file that is a node, whatever stages
  follow (`containsEdge_of_ofLoaded`);
* that nodes and ends of edges are the same paths when they are the same files, since both are own
  paths of files.
-/

namespace ModuleAtlas

open Source

/-! ### Imports of a file -/

/-- A text is read in the dialect asked for, or in one in which it makes sense if it makes none in
that. -/
theorem Source.Reading.of?_eq_ok_iff {verdict : Verdict} {d : Dialect} {text : String}
    {r : Reading} : Reading.of? verdict d text = .ok r ↔
      r.text = text ∧ verdict r.dialect text = .ok r.tree ∧
        (r.dialect = d ∨ ∃ fault, verdict d text = .error fault) := by
  obtain ⟨text', dialect, tree⟩ := r
  rw [Reading.of?]
  cases hd : verdict d text with
  | ok found =>
    simp only [Except.ok.injEq, Reading.mk.injEq, reduceCtorEq, exists_false, or_false]
    constructor
    · rintro ⟨rfl, rfl, rfl⟩
      exact ⟨rfl, hd, rfl⟩
    · rintro ⟨rfl, htree, rfl⟩
      exact ⟨rfl, rfl, Except.ok.inj (hd.symm.trans htree)⟩
  | error fault =>
    simp only [Except.error.injEq, exists_eq', or_true, and_true]
    -- there are but two dialects
    have hother (h : verdict dialect text = .ok tree) : d.other = dialect := by
      have hne : dialect ≠ d := by
        rintro rfl
        simp [hd] at h
      revert hne
      cases d <;> cases dialect <;> simp [Dialect.other]
    cases ho : verdict d.other text with
    | error last =>
      simp only [reduceCtorEq, false_iff]
      rintro ⟨rfl, h⟩
      simp [hother h, h] at ho
    | ok found =>
      simp only [Except.ok.injEq, Reading.mk.injEq]
      constructor
      · rintro ⟨rfl, rfl, rfl⟩
        exact ⟨rfl, ho⟩
      · rintro ⟨rfl, h⟩
        obtain rfl := hother h
        exact ⟨rfl, rfl, Except.ok.inj (ho.symm.trans h)⟩

namespace Source.Item

/-- The item imports or exports from the module of that name. -/
def Names (item : Item) (name : String) : Prop :=
  item = .importFrom name ∨ item = .exportFrom name ∨ item = .exportAll name

theorem module?_eq_some_iff {item : Item} {name : String} :
    item.module? = some name ↔ item.Names name := by
  cases item <;> simp [module?, Names]

end Source.Item

theorem isLocalName_iff {name : String} : isLocalName name = true ↔
    ∃ rest, name.toList = '.' :: rest ∨ name.toList = '/' :: rest := by
  rw [isLocalName]
  cases name.toList <;> simp [exists_or]

theorem mem_localNames {items : List Item} {name : String} : name ∈ localNames items ↔
    (∃ item ∈ items, item.Names name) ∧
      ∃ rest, name.toList = '.' :: rest ∨ name.toList = '/' :: rest := by
  simp only [localNames, List.mem_filter, List.mem_filterMap, Item.module?_eq_some_iff,
    isLocalName_iff]

namespace Analysis

variable {verdict : Verdict} {s : Snapshot} {extensions : List String} {root p d : Path}
  {name text : String}

/-- The file names a module by a path: its content is text that makes sense in a dialect, the one
that suits the file or else the other, and in an import or an export of that text stands a name that
begins with a dot or a slash. -/
def NamesByPath (verdict : Verdict) (s : Snapshot) (p : Path) (name : String) : Prop :=
  ∃ content text dialect tree,
    s.read p = .ok content ∧ Text.Utf8.decode? content = some text ∧
    verdict dialect text = .ok tree ∧
    (dialect = .ofPath p ∨ ∃ fault, verdict (.ofPath p) text = .error fault) ∧
    (∃ item ∈ itemsOf text.toList.toArray tree, item.Names name) ∧
    ∃ rest, name.toList = '.' :: rest ∨ name.toList = '/' :: rest

theorem readText_eq_ok_iff : s.readText p = .ok text ↔
    ∃ content, s.read p = .ok content ∧ Text.Utf8.decode? content = some text := by
  rw [Snapshot.readText, bind_eq_ok_iff]
  refine exists_congr fun content => and_congr_right fun _ => ?_
  cases Text.Utf8.decode? content <;> simp

theorem importsOf_eq_ok_iff {dependencies : List Path} :
    importsOf verdict s extensions root p = .ok dependencies ↔
      ∃ text names, s.readText p = .ok text ∧ localImports verdict p text = .ok names ∧
        names.filterMap (Resolve.resolve? s extensions root p) = dependencies := by
  rw [importsOf]
  cases s.readText p with
  | error t => simp
  | ok text => cases h : localImports verdict p text <;> simp [h]

theorem namesByPath_iff : NamesByPath verdict s p name ↔
    ∃ text names, s.readText p = .ok text ∧ localImports verdict p text = .ok names ∧
      name ∈ names := by
  constructor
  · rintro ⟨content, text, dialect, tree, hread, hdecode, htree, hdialect, hname⟩
    let r : Reading := ⟨text, dialect, tree⟩
    have hr : Reading.of? verdict (.ofPath p) text = .ok r :=
      Reading.of?_eq_ok_iff.2 ⟨rfl, htree, hdialect⟩
    exact ⟨text, localNames r.items, readText_eq_ok_iff.2 ⟨content, hread, hdecode⟩,
      map_eq_ok_iff.2 ⟨r, hr, rfl⟩, mem_localNames.2 hname⟩
  · rintro ⟨text, names, hread, hnames, hname⟩
    obtain ⟨content, hcontent, hdecode⟩ := readText_eq_ok_iff.1 hread
    obtain ⟨r, hr, rfl⟩ := map_eq_ok_iff.1 hnames
    obtain ⟨rfl, htree, hdialect⟩ := Reading.of?_eq_ok_iff.1 hr
    exact ⟨content, r.text, r.dialect, r.tree, hcontent, hdecode, htree, hdialect,
      mem_localNames.1 hname⟩

/-- What a file imports is what the modules mean that it names by a path. -/
theorem mem_dependencies_loadFile :
    d ∈ (loadFile verdict s extensions root p).file.dependencies ↔
      ∃ name, NamesByPath verdict s p name ∧
        Resolve.resolve? s extensions root p name = some d := by
  have hload : d ∈ (loadFile verdict s extensions root p).file.dependencies ↔
      ∃ dependencies, importsOf verdict s extensions root p = .ok dependencies ∧
        d ∈ dependencies := by
    rw [loadFile]
    cases importsOf verdict s extensions root p <;> simp
  simp only [hload, importsOf_eq_ok_iff, namesByPath_iff]
  constructor
  · rintro ⟨_, ⟨text, names, hread, hnames, rfl⟩, hd⟩
    obtain ⟨name, hname, hd⟩ := List.mem_filterMap.1 hd
    exact ⟨name, ⟨text, names, hread, hnames, hname⟩, hd⟩
  · rintro ⟨name, ⟨text, names, hread, hnames, hname⟩, hd⟩
    exact ⟨_, ⟨text, names, hread, hnames, rfl⟩, List.mem_filterMap.2 ⟨name, hname, hd⟩⟩

theorem path_loadFile :
    (loadFile verdict s extensions root p).file.path = (s.canonical p).toOption.getD p := by
  rw [loadFile]
  cases importsOf verdict s extensions root p <;> rfl

/-! ### Edges of an analysis -/

variable {α γ : Type} [Scalar α] {r : RandomSource α γ} {settings : Settings α} {a : Analysis α}
  {dir : Path} {before : List Warning} {loaded : List Loaded} {found : Scan.Outcome}

theorem ofLoaded_eq_ok_iff : ofLoaded settings r root before loaded = .ok a ↔
    ∃ g, (graphOf settings.roles ((sorted loaded).map (·.file))).arrange? settings.layout r =
        some g ∧
      ⟨root, g, g.stats, before ++ (sorted loaded).filterMap (·.warning)⟩ = a := by
  rw [ofLoaded]
  cases (graphOf settings.roles ((sorted loaded).map (·.file))).arrange? settings.layout r <;> simp

/-- The graph of an analysis is that of its files after some stages. -/
theorem stages_of_ofLoaded (h : ofLoaded settings r root before loaded = .ok a) :
    Relation.ReflTransGen Graph.Stage
      (Graph.ofFiles .origin ((sorted loaded).map (·.file)) : Graph α) a.graph := by
  obtain ⟨g, hg, rfl⟩ := ofLoaded_eq_ok_iff.1 h
  exact ((Relation.ReflTransGen.single .markCycles).tail (.classify settings.roles)).tail
    (Graph.stage_arrange? hg)

theorem coherent_of_ofLoaded (h : ofLoaded settings r root before loaded = .ok a) :
    a.graph.Coherent :=
  Graph.coherent_of_stages (stages_of_ofLoaded h)

theorem containsEdge_of_ofLoaded (h : ofLoaded settings r root before loaded = .ok a)
    (u v : Path) : a.graph.containsEdge u v =
      (Graph.ofFiles .origin ((sorted loaded).map (·.file)) : Graph α).containsEdge u v :=
  Graph.containsEdge_of_stages (stages_of_ofLoaded h) u v

theorem root_of_ofLoaded (h : ofLoaded settings r root before loaded = .ok a) : a.root = root := by
  obtain ⟨g, -, rfl⟩ := ofLoaded_eq_ok_iff.1 h
  rfl

theorem run_eq_ok_iff : run verdict r s settings dir = .ok a ↔
    ∃ root found, rootOf s dir = .ok root ∧ Scan.run s settings.scan root = .ok found ∧
      ofLoaded settings r root found.warnings
        (found.files.map (loadFile verdict s settings.scan.extensions root)) = .ok a := by
  simp only [run, bind_eq_ok_iff]
  constructor
  · rintro ⟨root, hroot, found, hfound, h⟩
    exact ⟨root, found, hroot, hfound, h⟩
  · rintro ⟨root, found, hroot, hfound, h⟩
    exact ⟨root, hroot, found, hfound, h⟩

/-- The root of an analysis is a directory, by its own path. -/
theorem canonical_of_rootOf (h : rootOf s dir = .ok root) : s.canonical dir = .ok root ∧
    ∃ l e, s.top.at? l = some e ∧ e.isDirectory = true ∧ Snapshot.pathOf l = root := by
  rw [rootOf] at h
  split at h
  · contradiction
  split at h
  · contradiction
  split at h
  · contradiction
  next hdir =>
  rw [Bool.not_eq_true, Bool.not_eq_false'] at hdir
  obtain ⟨e, hentry, he⟩ := Snapshot.isDirectory_iff.1 hdir
  obtain ⟨l, hl, hat⟩ := Snapshot.entry?_eq_some_iff.1 hentry
  have hc : s.canonical dir = .ok (Snapshot.pathOf l) := Snapshot.canonical_eq_ok_iff.2 ⟨l, hl, rfl⟩
  rw [hc] at h
  obtain rfl := Except.ok.inj h
  exact ⟨hc, l, e, hat, he, rfl⟩

theorem mem_sorted_files {files : List Path} {f : SourceFile} :
    f ∈ (sorted (files.map (loadFile verdict s extensions root))).map (·.file) ↔
      ∃ p ∈ files, (loadFile verdict s extensions root p).file = f := by
  simp [sorted, List.mem_mergeSort]

/-- The graph of a directory has an edge from one path to another if and only if they are scanned
files of the directory and the first one names, in an import or an export, a module by a path that
means the second one. Which way that path takes, through links or up and down the tree, makes no
difference. -/
theorem run_edges (hs : s.top.WellFormed) (hrun : run verdict r s settings dir = .ok a) :
    s.canonical dir = .ok a.root ∧ ∃ found, Scan.run s settings.scan a.root = .ok found ∧
      ∀ u v, a.graph.containsEdge u v = true ↔
        ∃ p ∈ found.files, ∃ q ∈ found.files, (p == u) = true ∧ (q == v) = true ∧
          ∃ name, NamesByPath verdict s p name ∧
            Resolve.resolve? s settings.scan.extensions a.root p name = some q := by
  obtain ⟨root, found, hroot, hfound, hloaded⟩ := run_eq_ok_iff.1 hrun
  obtain ⟨hcanonical, l, e, hat, he, rfl⟩ := canonical_of_rootOf hroot
  have hown (p : Path) (hp : p ∈ found.files) : s.OwnPath p :=
    Snapshot.ownPath_of_mem_files hs hat he hfound hp
  rw [root_of_ofLoaded hloaded]
  refine ⟨hcanonical, found, hfound, fun u v => ?_⟩
  have hpath (p : Path) (hp : p ∈ found.files) : (loadFile verdict s settings.scan.extensions
      (Snapshot.pathOf l) p).file.path = p := by
    rw [path_loadFile, (hown p hp).canonical hs]
  rw [containsEdge_of_ofLoaded hloaded, Graph.containsEdge_ofFiles]
  constructor
  · rintro ⟨_, hf, _, hk, hu, hv, d, hd, hdk⟩
    obtain ⟨p, hp, rfl⟩ := mem_sorted_files.1 hf
    obtain ⟨q, hq, rfl⟩ := mem_sorted_files.1 hk
    rw [hpath q hq] at hv hdk
    rw [hpath p hp] at hu
    obtain ⟨name, hname, hresolve⟩ := mem_dependencies_loadFile.1 hd
    obtain rfl := ((Resolve.ownPath_of_resolve? hresolve).beq_iff hs (hown q hq)).1 hdk
    exact ⟨p, hp, d, hq, hu, hv, name, hname, hresolve⟩
  · rintro ⟨p, hp, q, hq, hu, hv, name, hname, hresolve⟩
    refine ⟨_, mem_sorted_files.2 ⟨p, hp, rfl⟩, _, mem_sorted_files.2 ⟨q, hq, rfl⟩, ?_, ?_, q,
      mem_dependencies_loadFile.2 ⟨name, hname, hresolve⟩, ?_⟩
    · rwa [hpath p hp]
    · rwa [hpath q hq]
    · rw [hpath q hq]
      exact BEq.rfl

/-- A text that names `./l/b`. -/
def linkedText : String := "import \"./l/b\""

/-- A file a.ts of that text, an empty file b.ts and a link l to the directory that they are in. -/
def linkedFiles : List (Name × Entry) :=
  [([97, 46, 116, 115], .file (Text.Utf8.encode linkedText)), ([98, 46, 116, 115], .file []),
   ([108], .link (.ofString "."))]

/-- The working directory is /r, with these files. -/
def linkedSnapshot : Snapshot :=
  ⟨.directory [([114], .directory linkedFiles true)] true, [[114]]⟩

theorem wellFormed_linkedSnapshot : linkedSnapshot.top.WellFormed := by
  have hfiles : ∀ c ∈ linkedFiles, c.2.WellFormed := by
    simp only [linkedFiles, List.forall_mem_cons]
    exact ⟨.file _, .file _, .link _, by simp⟩
  exact .directory (by decide) (by decide)
    (List.forall_mem_singleton.2 (.directory (by decide) (by decide) hfiles true)) true

/-- The tree of that text. -/
def linkedTree : Tree :=
  .node ⟨.program, none, 0, 14⟩
    [.node ⟨.importStatement, none, 0, 14⟩
      [.node ⟨.token "import", none, 0, 6⟩ [], .node ⟨.literal, some .source, 7, 14⟩ []]]

/-- What the texts of these files mean. -/
def linkedVerdict : Verdict := fun _ text =>
  .ok (if text = linkedText then linkedTree else .node ⟨.program, none, 0, 0⟩ [])

/-- A source of the number 0 only. -/
def zeros : RandomSource Float Unit := ⟨fun s => (0, s), fun _ => (), ()⟩

/-- The directory is given as the working one, and a.ts imports b.ts by way of the link. -/
theorem run_edges_linked : ∃ a : Analysis Float,
    run linkedVerdict zeros linkedSnapshot .standard (.ofString ".") = .ok a ∧
    a.root = .ofString "/r" ∧
    a.graph.containsEdge (.ofString "/r/a.ts") (.ofString "/r/b.ts") = true := by
  have hroot : rootOf linkedSnapshot (.ofString ".") = .ok (.ofString "/r") := by cbv
  have hfound : Scan.run linkedSnapshot .standard (.ofString "/r") =
      .ok ⟨[.ofString "/r/a.ts", .ofString "/r/b.ts"], []⟩ := by cbv
  obtain ⟨a, ha⟩ : ∃ a, ofLoaded Settings.standard zeros (.ofString "/r") []
      ([.ofString "/r/a.ts", .ofString "/r/b.ts"].map
        (loadFile linkedVerdict linkedSnapshot ScanSettings.standard.extensions (.ofString "/r"))) =
      .ok a := ⟨_, rfl⟩
  have hrun : run linkedVerdict zeros linkedSnapshot .standard (.ofString ".") = .ok a :=
    run_eq_ok_iff.2 ⟨_, _, hroot, hfound, ha⟩
  obtain ⟨-, found, hscan, hedges⟩ := run_edges wellFormed_linkedSnapshot hrun
  have ha : a.root = .ofString "/r" := root_of_ofLoaded ha
  rw [ha] at hscan hedges
  obtain rfl := Except.ok.inj (hfound.symm.trans hscan)
  have hitems : itemsOf linkedText.toList.toArray linkedTree = [.importFrom "./l/b"] := by
    decide +kernel
  have hname : NamesByPath linkedVerdict linkedSnapshot (.ofString "/r/a.ts") "./l/b" := by
    refine ⟨Text.Utf8.encode linkedText, linkedText, .plain, linkedTree, by cbv, by cbv, rfl,
      .inl (by cbv), ⟨.importFrom "./l/b", ?_, .inl rfl⟩, ['/', 'l', '/', 'b'], .inl (by cbv)⟩
    rw [hitems]
    exact List.mem_cons_self
  have hresolve : Resolve.resolve? linkedSnapshot ScanSettings.standard.extensions (.ofString "/r")
      (.ofString "/r/a.ts") "./l/b" = some (.ofString "/r/b.ts") := by cbv
  exact ⟨a, hrun, ha, (hedges _ _).2 ⟨_, List.mem_cons_self, _,
    List.mem_cons_of_mem _ List.mem_cons_self, BEq.rfl, BEq.rfl, "./l/b", hname, hresolve⟩⟩

end Analysis

end ModuleAtlas
