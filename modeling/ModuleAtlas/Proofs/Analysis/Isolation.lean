import ModuleAtlas.Proofs.Analysis.Edges
import ModuleAtlas.Proofs.FileSystem.Contents
import ModuleAtlas.Proofs.FileSystem.ScannedFiles
import ModuleAtlas.Proofs.Layout.Room

/-!
# One file and the others

What an analysis says about the other files does not depend on the content of one of them
(`run_isolated`). The files are found and loaded one by one, each by its own path, and of what is
loaded only the imports and the warning of a file depend on its content (`loadFile_eq`); since a scan
finds files in order and each once, no more than these change in what is made of all files.
-/

namespace ModuleAtlas

namespace Graph

variable {α : Type} {nodes : List (Node α)} {edges edges' : List Edge} {e : Edge}

/-- Ascending edges are determined by which they are. -/
theorem Ascending.eq_of_mem_iff (h : Ascending edges) (h' : Ascending edges')
    (hmem : ∀ e, e ∈ edges ↔ e ∈ edges') : edges = edges' := by
  have hnodup {es : List Edge} (hes : Ascending es) : es.Nodup := by
    refine hes.imp fun {e f} hlt hef => ?_
    rw [hef, Edge.compare_eq_iff.2 BEq.rfl] at hlt
    contradiction
  have hperm : edges.Perm edges' := (List.perm_ext_iff_of_nodup (hnodup h) (hnodup h')).2 hmem
  refine hperm.eq_of_pairwise (fun e f _ _ hef hfe => ?_) h h'
  have hswap : compare f e = (compare e f).swap := Std.OrientedCmp.eq_swap
  rw [hswap, hef] at hfe
  contradiction

/-- If no edge is written in two ways, the edges are all the given ones between nodes. -/
theorem mem_edges_assemble_iff (h : ∀ e ∈ edges, ∀ f ∈ edges, (e == f) = true → e = f) :
    e ∈ (assemble nodes edges).edges ↔
      e ∈ edges ∧ HasFile nodes e.source ∧ HasFile nodes e.target := by
  refine ⟨mem_edges_assemble, fun ⟨he, hends⟩ => ?_⟩
  have hcontains : (assemble nodes edges).edges.contains e = true :=
    contains_assemble.2 ⟨List.contains_iff_exists_mem_beq.2 ⟨e, he, BEq.rfl⟩, hends⟩
  obtain ⟨f, hf, hef⟩ := List.contains_iff_exists_mem_beq.1 hcontains
  rwa [h e he f (mem_edges_assemble hf).1 hef]

end Graph

/-- What a node has from its file alone. -/
def Node.header {α : Type} (n : Node α) : Path × String × String := (n.id, n.label, n.relativePath)

namespace Analysis

open Source

variable {verdict : Verdict} {s t u : Snapshot} {extensions : List String} {root p f dir : Path}
  {l : Location} {found : Scan.Outcome} {o : Obstacle}

/-! ### One file -/

theorem rootOf_emptied (s : Snapshot) (dir : Path) : rootOf s.emptied dir = rootOf s dir := by
  rw [rootOf, rootOf, Snapshot.hasEntry_emptied, Snapshot.isDirectory_emptied,
    Snapshot.canonical_emptied]

theorem resolve?_eq (h : s.emptied = t.emptied) (extensions : List String) (root p : Path) :
    Resolve.resolve? s extensions root p = Resolve.resolve? t extensions root p := by
  funext name
  rw [← Resolve.resolve?_emptied s, h, Resolve.resolve?_emptied t]

theorem canonical_eq (h : s.emptied = t.emptied) (p : Path) : s.canonical p = t.canonical p := by
  rw [← s.canonical_emptied, h, t.canonical_emptied]

/-- All other files are loaded the same. -/
theorem loadFile_eq (h : s.DifferIn l t) (hp : s.locate p ≠ .ok l) :
    loadFile verdict s extensions root p = loadFile verdict t extensions root p := by
  have himports :
      importsOf verdict s extensions root p = importsOf verdict t extensions root p := by
    rw [importsOf, importsOf, h.readText_eq hp, resolve?_eq h.emptied_eq]
  rw [loadFile, loadFile, canonical_eq h.emptied_eq, himports]

/-- How a file is called does not depend on what is in it. -/
theorem displayName_loadFile : (loadFile verdict s extensions root p).file.displayName =
    Path.displayName root ((s.canonical p).toOption.getD p) := by
  rw [loadFile]
  cases importsOf verdict s extensions root p <;> rfl

theorem loadFile_of_error (h : importsOf verdict s extensions root p = .error o) :
    (loadFile verdict s extensions root p).file.dependencies = [] ∧
      (loadFile verdict s extensions root p).warning = some ⟨p, o⟩ := by
  rw [loadFile, h]
  exact ⟨rfl, rfl⟩

/-- A warning is about the file that has been loaded. -/
theorem path_of_warning {w : Warning}
    (h : (loadFile verdict s extensions root p).warning = some w) : w.path = p := by
  rw [loadFile] at h
  cases himports : importsOf verdict s extensions root p with
  | ok dependencies =>
    rw [himports] at h
    contradiction
  | error o =>
    rw [himports] at h
    exact Option.some.inj h ▸ rfl

/-! ### All files -/

/-- The files of a scan, each of them loaded by its own path. The warnings of the scan are about other
things. -/
structure Loads (s : Snapshot) (found : Scan.Outcome) (load : Path → Loaded) : Prop where
  own : ∀ p ∈ found.files, s.OwnPath p
  ascending : found.files.Pairwise fun p q => compare p q = .lt
  path_load : ∀ p ∈ found.files, (load p).file.path = p
  own_dependencies : ∀ p ∈ found.files, ∀ d ∈ (load p).file.dependencies, s.OwnPath d
  path_warning : ∀ p w, (load p).warning = some w → w.path = p
  apart : ∀ w ∈ found.warnings, ∀ p ∈ found.files, (w.path == p) = false

namespace Loads

variable {load : Path → Loaded} (h : Loads s found load)
include h

theorem distinct : found.files.Pairwise fun p q => (p == q) = false := by
  refine h.ascending.imp fun {p q} hlt => ?_
  rw [← Bool.not_eq_true, ← Path.compare_eq_iff, hlt]
  decide

/-- They are in order already. -/
theorem sorted_eq : sorted (found.files.map load) = found.files.map load := by
  refine List.mergeSort_of_pairwise (List.pairwise_map.2 ?_)
  refine h.ascending.imp_of_mem fun {p q} hp hq hlt => ?_
  rw [h.path_load p hp, h.path_load q hq, hlt]
  rfl

theorem beq_iff_eq (hs : s.top.WellFormed) {q : Path} (hp : p ∈ found.files)
    (hq : q ∈ found.files) : (p == q) = true ↔ p = q :=
  (h.own p hp).beq_iff hs (h.own q hq)

variable {α γ : Type} [Scalar α] {r : RandomSource α γ} {settings : Settings α} {a : Analysis α}
  (ha : ofLoaded settings r root found.warnings (found.files.map load) = .ok a)
include ha

theorem outline_eq : a.graph.outline =
    (Graph.ofFiles .origin (found.files.map fun p => (load p).file) : Graph α).outline := by
  have hstages := stages_of_ofLoaded ha
  rw [h.sorted_eq, List.map_map] at hstages
  exact Graph.outline_of_stages hstages

/-- Each file has a node, in this order. -/
theorem headers : a.graph.nodes.map Node.header =
    found.files.map fun p => (Node.ofFile (.origin : Position α) (load p).file).header := by
  have hheader {β : Type} (g : Graph β) :
      g.nodes.map Node.header = g.outline.nodes.map Node.header := by
    rw [Graph.outline, List.map_map]
    rfl
  have hdistinct : Graph.DistinctIds
      ((found.files.map fun p => (load p).file).map (Node.ofFile (.origin : Position α))) := by
    rw [List.map_map]
    refine List.pairwise_map.2 (h.distinct.imp_of_mem fun {p q} hp hq hpq => ?_)
    show ((load p).file.path == (load q).file.path) = false
    rw [h.path_load p hp, h.path_load q hq, hpq]
  rw [hheader, h.outline_eq ha, ← hheader, Graph.ofFiles, Graph.nodes_assemble,
    Graph.distinct_eq_self hdistinct, List.map_map, List.map_map, List.map_map]
  rfl

theorem map_id : a.graph.nodes.map (·.id) = found.files := by
  have hids := congrArg (List.map (·.1)) (h.headers ha)
  rw [List.map_map, List.map_map] at hids
  exact hids.trans ((List.map_congr_left fun p hp => h.path_load p hp).trans (List.map_id _))

/-- There is an edge for each file of the scan that another one depends on. -/
theorem mem_edges_iff (hs : s.top.WellFormed) {e : Edge} : e ∈ a.graph.edges ↔
    e.source ∈ found.files ∧ e.target ∈ found.files ∧
      e.target ∈ (load e.source).file.dependencies := by
  have hgiven {d : Edge} : d ∈ Graph.edgesOf (found.files.map fun p => (load p).file) ↔
      d.source ∈ found.files ∧ d.target ∈ (load d.source).file.dependencies := by
    simp only [Graph.edgesOf, List.mem_flatMap, List.mem_map]
    constructor
    · rintro ⟨_, ⟨p, hp, rfl⟩, k, hk, rfl⟩
      simp only [h.path_load p hp]
      exact ⟨hp, hk⟩
    · rintro ⟨hd, hk⟩
      exact ⟨_, ⟨_, hd, rfl⟩, _, hk, by rw [h.path_load _ hd]⟩
  have hone : ∀ d ∈ Graph.edgesOf (found.files.map fun p => (load p).file),
      ∀ k ∈ Graph.edgesOf (found.files.map fun p => (load p).file), (d == k) = true → d = k := by
    intro d hd k hk hdk
    obtain ⟨hsource, htarget⟩ := Edge.beq_iff.1 hdk
    rw [hgiven] at hd hk
    have hs' := (h.beq_iff_eq hs hd.1 hk.1).1 hsource
    have ht' := ((h.own_dependencies _ hd.1 _ hd.2).beq_iff hs
      (h.own_dependencies _ hk.1 _ hk.2)).1 htarget
    cases d
    cases k
    simp_all
  have hedges : a.graph.edges = (Graph.ofFiles .origin (found.files.map fun p => (load p).file) :
      Graph α).edges := congrArg (·.edges) (h.outline_eq ha)
  rw [hedges, Graph.ofFiles, Graph.mem_edges_assemble_iff hone, hgiven, Graph.hasFile_ofFile,
    Graph.hasFile_ofFile]
  constructor
  · rintro ⟨⟨hsource, hdep⟩, -, _, hmem, htarget⟩
    obtain ⟨q, hq, rfl⟩ := List.mem_map.1 hmem
    rw [h.path_load q hq] at htarget
    have heq := ((h.own q hq).beq_iff hs (h.own_dependencies _ hsource _ hdep)).1 htarget
    exact ⟨hsource, heq ▸ hq, hdep⟩
  · rintro ⟨hsource, htarget, hdep⟩
    refine ⟨⟨hsource, hdep⟩, ⟨_, List.mem_map_of_mem hsource, ?_⟩, _,
      List.mem_map_of_mem htarget, ?_⟩
    · rw [h.path_load _ hsource]
      exact BEq.rfl
    · rw [h.path_load _ htarget]
      exact BEq.rfl

/-- Behind the warnings of the scan come those of the files, in the order of the files. -/
theorem warnings_eq :
    a.warnings = found.warnings ++ found.files.filterMap fun p => (load p).warning := by
  obtain ⟨g, -, rfl⟩ := ofLoaded_eq_ok_iff.1 ha
  show found.warnings ++ (sorted (found.files.map load)).filterMap (·.warning) = _
  rw [h.sorted_eq, List.filterMap_map]
  rfl

omit ha in
theorem filter_warnings_of_ne {rest : List Path} (hrest : ∀ p ∈ rest, (p == f) = false) :
    (rest.filterMap fun p => (load p).warning).filter (·.path == f) = [] := by
  refine List.filter_eq_nil_iff.2 fun w hw => ?_
  obtain ⟨p, hp, hwarning⟩ := List.mem_filterMap.1 hw
  rw [h.path_warning p w hwarning, hrest p hp]
  decide

/-- About a file there is the warning that it has been loaded with. -/
theorem warnings_about (hf : f ∈ found.files) :
    a.warnings.filter (·.path == f) = (load f).warning.toList := by
  obtain ⟨before, behind, hfiles⟩ := List.append_of_mem hf
  have hdistinct := h.distinct
  have hscan : found.warnings.filter (·.path == f) = [] :=
    List.filter_eq_nil_iff.2 fun w hw => by simp [h.apart w hw f hf]
  rw [hfiles, List.pairwise_append, List.pairwise_cons] at hdistinct
  have hbefore := h.filter_warnings_of_ne fun p hp =>
    hdistinct.2.2 p hp f List.mem_cons_self
  have hbehind := h.filter_warnings_of_ne fun p hp => by
    rw [BEq.comm]
    exact hdistinct.2.1.1 p hp
  rw [h.warnings_eq ha, hfiles, List.filter_append, hscan, List.nil_append, List.filterMap_append,
    List.filter_append, hbefore, List.nil_append, List.filterMap_cons]
  cases hwarning : (load f).warning with
  | none => exact hbehind
  | some w =>
    have hpath : (w.path == f) = true := by
      rw [h.path_warning f w hwarning]
      exact BEq.rfl
    simp only [List.filter_cons, hpath, if_true, hbehind]
    rfl

end Loads

theorem loads (hs : s.top.WellFormed) {d : Location} {e : Entry} {settings : ScanSettings}
    (hat : s.top.at? d = some e) (he : e.isDirectory = true)
    (hfound : Scan.run s settings (Snapshot.pathOf d) = .ok found)
    (hu : s.emptied = u.emptied) :
    Loads s found (loadFile verdict u extensions (Snapshot.pathOf d)) where
  own p hp := Snapshot.ownPath_of_mem_files hs hat he hfound hp
  ascending := Scan.ascending_files hs hfound
  path_load p hp := by
    rw [path_loadFile, ← canonical_eq hu]
    exact (Snapshot.ownPath_of_mem_files hs hat he hfound hp).canonical hs
  own_dependencies p _ k hk := by
    obtain ⟨name, -, hresolve⟩ := mem_dependencies_loadFile.1 hk
    rw [← resolve?_eq hu] at hresolve
    exact Resolve.ownPath_of_resolve? hresolve
  path_warning _ _ := path_of_warning
  apart := Scan.warnings_apart hs hfound

/-! ### Two analyses -/

variable {α γ : Type} [Scalar α] {r : RandomSource α γ} {settings : Settings α} {a b : Analysis α}

/-- The analyses say the same about all files but one: they have the same nodes, as far as these do
not depend on edges, and the same edges and warnings but for those from that file and about it, of
which there is no more than one. -/
structure AgreeBut (f : Path) (a b : Analysis α) : Prop where
  root : a.root = b.root
  nodes : a.graph.nodes.map Node.header = b.graph.nodes.map Node.header
  edges : a.graph.edges.filter (fun e => !(e.source == f)) =
    b.graph.edges.filter fun e => !(e.source == f)
  warnings : a.warnings.filter (fun w => !(w.path == f)) =
    b.warnings.filter fun w => !(w.path == f)
  few : (a.warnings.filter (·.path == f)).length ≤ 1 ∧ (b.warnings.filter (·.path == f)).length ≤ 1

/-- The file is a node without imports, and there is one warning about it. -/
structure Dropped (f : Path) (o : Obstacle) (a : Analysis α) : Prop where
  node : f ∈ a.graph.nodes.map (·.id)
  imports : ∀ e ∈ a.graph.edges, (e.source == f) = false
  warning : a.warnings.filter (·.path == f) = [⟨f, o⟩]

/-- If the content of the file is no text, or makes sense in no dialect, then that is the warning. -/
def DropsNonsense (verdict : Verdict) (u : Snapshot) (f : Path) (a : Analysis α) : Prop :=
  (∀ content, u.read f = .ok content → Text.Utf8.decode? content = none →
    Dropped f (.unreadable .notText) a) ∧
  ∀ text, u.readText f = .ok text → (∀ d, ∃ fault, verdict d text = .error fault) →
    ∃ d fault, verdict d text = .error fault ∧ Dropped f (.senseless fault) a

section Loaded

variable (hs : s.top.WellFormed)
  (h : Loads s found (loadFile verdict u settings.scan.extensions root)) (hf : f ∈ found.files)
  (ha : ofLoaded settings r root found.warnings
    (found.files.map (loadFile verdict u settings.scan.extensions root)) = .ok a)
include hs h hf ha

theorem dropped_of_error (ho : importsOf verdict u settings.scan.extensions root f = .error o) :
    Dropped f o a := by
  obtain ⟨hdependencies, hwarning⟩ := loadFile_of_error ho
  refine ⟨by rwa [h.map_id ha], fun e he => ?_, by rw [h.warnings_about ha hf, hwarning]; rfl⟩
  obtain ⟨hsource, -, htarget⟩ := (h.mem_edges_iff ha hs).1 he
  rw [← Bool.not_eq_true, h.beq_iff_eq hs hsource hf]
  rintro rfl
  rw [hdependencies] at htarget
  contradiction

theorem dropsNonsense : DropsNonsense verdict u f a := by
  constructor
  · intro content hread hdecode
    have htext : u.readText f = .error .notText := by
      simp [Snapshot.readText, hread, hdecode, bind, Except.bind]
    refine dropped_of_error hs h hf ha ?_
    rw [importsOf, htext]
  · intro text htext hfaults
    obtain ⟨first, hfirst⟩ := hfaults (.ofPath f)
    obtain ⟨fault, hfault⟩ := hfaults (Dialect.ofPath f).other
    refine ⟨_, fault, hfault, dropped_of_error hs h hf ha ?_⟩
    have himports : localImports verdict f text = .error fault := by
      rw [localImports, Reading.of?, hfirst, hfault]
      rfl
    rw [importsOf, htext]
    simp only [himports]

end Loaded

theorem agreeBut {load load' : Path → Loaded} (hs : s.top.WellFormed) (h : Loads s found load)
    (h' : Loads s found load') (hf : f ∈ found.files)
    (hheader : ∀ p ∈ found.files, (load p).file.displayName = (load' p).file.displayName)
    (hload : ∀ p ∈ found.files, p ≠ f → load p = load' p)
    (ha : ofLoaded settings r root found.warnings (found.files.map load) = .ok a)
    (hb : ofLoaded settings r root found.warnings (found.files.map load') = .ok b) :
    AgreeBut f a b where
  root := by rw [root_of_ofLoaded ha, root_of_ofLoaded hb]
  nodes := by
    rw [h.headers ha, h'.headers hb]
    refine List.map_congr_left fun p hp => ?_
    rw [Node.header, Node.header, Node.ofFile, Node.ofFile, h.path_load p hp, h'.path_load p hp,
      hheader p hp]
  edges := by
    have hascending {c : Analysis α} {load : Path → Loaded} (h : Loads s found load)
        (hc : ofLoaded settings r root found.warnings (found.files.map load) = .ok c) :
        Graph.Ascending (c.graph.edges.filter fun e => !(e.source == f)) := by
      have hedges : c.graph.edges =
          (Graph.ofFiles .origin (found.files.map fun p => (load p).file) : Graph α).edges :=
        congrArg (·.edges) (h.outline_eq hc)
      rw [hedges]
      exact (Graph.coherent_assemble _ _).ascending.filter _
    refine (hascending h ha).eq_of_mem_iff (hascending h' hb) fun e => ?_
    simp only [List.mem_filter, h.mem_edges_iff ha hs, h'.mem_edges_iff hb hs]
    refine and_congr_left fun hne => and_congr_right fun hsource => ?_
    rw [Bool.not_eq_true', ← Bool.not_eq_true, h.beq_iff_eq hs hsource hf] at hne
    rw [hload _ hsource hne]
  warnings := by
    rw [h.warnings_eq ha, h'.warnings_eq hb, List.filter_append, List.filter_append,
      List.filter_filterMap, List.filter_filterMap]
    refine congrArg _ (List.filterMap_congr fun p hp => ?_)
    by_cases hne : p = f
    · subst hne
      have hnone {load : Path → Loaded} (h : Loads s found load) :
          (load p).warning.filter (fun w => !(w.path == p)) = none := by
        rw [Option.filter_eq_none_iff]
        intro w hw
        rw [h.path_warning p w hw]
        simp
      rw [hnone h, hnone h']
    · rw [hload p hp hne]
  few := by
    rw [h.warnings_about ha hf, h'.warnings_about hb hf]
    exact ⟨Option.length_toList_le, Option.length_toList_le⟩

theorem run_eq (hroot : rootOf u dir = .ok root)
    (hfound : Scan.run u settings.scan root = .ok found) :
    run verdict r u settings dir = ofLoaded settings r root found.warnings
      (found.files.map (loadFile verdict u settings.scan.extensions root)) := by
  rw [run, hroot]
  show (Scan.run u settings.scan root >>= _) = _
  rw [hfound]
  rfl

theorem ofLoaded_returns (settings : Settings α) (r : RandomSource α γ) (root : Path)
    (before : List Warning) (loaded : List Loaded) :
    (∃ a, ofLoaded settings r root before loaded = .ok a) ∨
      ofLoaded settings r root before loaded = .error .noRoom ∧
        settings.layout.strategy = .zoned ∧ ¬settings.layout.HasRoom := by
  by_cases hroom : settings.layout.strategy = .zoned → settings.layout.HasRoom
  · obtain ⟨g, hg⟩ := Graph.exists_arrange? hroom
      (graphOf settings.roles ((sorted loaded).map (·.file))) r
    exact .inl ⟨_, ofLoaded_eq_ok_iff.2 ⟨g, hg, rfl⟩⟩
  · rw [Classical.not_imp] at hroom
    rw [ofLoaded]
    cases (graphOf settings.roles ((sorted loaded).map (·.file))).arrange? settings.layout r with
    | some g => exact .inl ⟨_, rfl⟩
    | none => exact .inr ⟨rfl, hroom⟩

/-- Take two snapshots that are the same but for the content of one file of a scan. If both analyses
return, they say the same about all other files, and nonsense in the file leaves it a node without
imports and with a warning. An analysis does not return only if the core is to be placed in a zone
without room. -/
theorem run_isolated (verdict : Verdict) (r : RandomSource α γ) (settings : Settings α)
    (hs : s.top.WellFormed) (h : s.DifferIn l t) (hroot : rootOf s dir = .ok root)
    (hfound : Scan.run s settings.scan root = .ok found)
    (hf : Snapshot.pathOf l ∈ found.files) :
    (∀ a b, run verdict r s settings dir = .ok a → run verdict r t settings dir = .ok b →
      AgreeBut (Snapshot.pathOf l) a b ∧
        DropsNonsense verdict s (Snapshot.pathOf l) a ∧
        DropsNonsense verdict t (Snapshot.pathOf l) b) ∧
    ∀ u, u = s ∨ u = t → (∃ a, run verdict r u settings dir = .ok a) ∨
      run verdict r u settings dir = .error .noRoom ∧
        settings.layout.strategy = .zoned ∧ ¬settings.layout.HasRoom := by
  have hroot' : rootOf t dir = .ok root := by
    rw [← rootOf_emptied, ← h.emptied_eq, rootOf_emptied, hroot]
  have hfound' : Scan.run t settings.scan root = .ok found := by
    rw [← Scan.run_emptied, ← h.emptied_eq, Scan.run_emptied, hfound]
  obtain ⟨-, d, e, hat, he, rfl⟩ := canonical_of_rootOf hroot
  constructor
  · intro a b ha hb
    rw [run_eq hroot hfound] at ha
    rw [run_eq hroot' hfound'] at hb
    have hloads : Loads s found (loadFile verdict s settings.scan.extensions (Snapshot.pathOf d)) :=
      loads hs hat he hfound rfl
    have hloads' :
        Loads s found (loadFile verdict t settings.scan.extensions (Snapshot.pathOf d)) :=
      loads hs hat he hfound h.emptied_eq
    refine ⟨agreeBut hs hloads hloads' hf (fun p _ => ?_) (fun p hp hne => ?_) ha hb,
      dropsNonsense hs hloads hf ha, dropsNonsense hs hloads' hf hb⟩
    · rw [displayName_loadFile, displayName_loadFile, canonical_eq h.emptied_eq]
    · refine loadFile_eq h fun hlocate => hne ?_
      have hcanonical := (hloads.own p hp).canonical hs
      rw [Snapshot.canonical_eq_ok_iff.2 ⟨l, hlocate, rfl⟩] at hcanonical
      exact hcanonical.symm
  · rintro u (rfl | rfl)
    · rw [run_eq hroot hfound]
      exact ofLoaded_returns _ _ _ _ _
    · rw [run_eq hroot' hfound']
      exact ofLoaded_returns _ _ _ _ _

/-- The location of a.ts among these files. -/
def linkedLocation : Location := [[114], [97, 46, 116, 115]]

/-- A byte that begins no text takes the place of the import. -/
def garbledSnapshot : Snapshot :=
  { linkedSnapshot with top := Entry.put (.file [255]) linkedLocation linkedSnapshot.top }

/-- The file stays among the files, and nothing of its import is left. -/
theorem run_isolated_garbled : ∃ a b : Analysis Float,
    run linkedVerdict zeros linkedSnapshot .standard (.ofString ".") = .ok a ∧
    run linkedVerdict zeros garbledSnapshot .standard (.ofString ".") = .ok b ∧
    AgreeBut (.ofString "/r/a.ts") a b ∧
    Dropped (.ofString "/r/a.ts") (.unreadable .notText) b := by
  have hroot : rootOf linkedSnapshot (.ofString ".") = .ok (.ofString "/r") := by cbv
  have hfound : Scan.run linkedSnapshot .standard (.ofString "/r") =
      .ok ⟨[.ofString "/r/a.ts", .ofString "/r/b.ts"], []⟩ := by cbv
  have hpath : Snapshot.pathOf linkedLocation = .ofString "/r/a.ts" := by cbv
  have hat : linkedSnapshot.top.at? linkedLocation =
      some (.file (Text.Utf8.encode linkedText)) := by cbv
  have hread : garbledSnapshot.read (.ofString "/r/a.ts") = .ok [255] := by cbv
  obtain ⟨hisolated, hreturns⟩ := run_isolated linkedVerdict zeros .standard
    wellFormed_linkedSnapshot (Snapshot.differIn_put hat [255]) hroot hfound
    (hpath ▸ List.mem_cons_self)
  have hreturns (u : Snapshot) (hu : u = linkedSnapshot ∨ u = garbledSnapshot) :
      ∃ a : Analysis Float, run linkedVerdict zeros u .standard (.ofString ".") = .ok a := by
    obtain h | ⟨-, hzoned, -⟩ := hreturns u hu
    · exact h
    · contradiction
  obtain ⟨a, ha⟩ := hreturns linkedSnapshot (.inl rfl)
  obtain ⟨b, hb⟩ := hreturns garbledSnapshot (.inr rfl)
  obtain ⟨hagree, -, hdrops⟩ := hisolated a b ha hb
  rw [hpath] at hagree hdrops
  exact ⟨a, b, ha, hb, hagree, hdrops.1 [255] hread rfl⟩

end Analysis

end ModuleAtlas
