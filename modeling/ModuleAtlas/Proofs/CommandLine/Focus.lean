import ModuleAtlas.Proofs.Analysis.Arrival
import ModuleAtlas.Proofs.CommandLine.Endings
import ModuleAtlas.Proofs.Layout.Focus

/-!
# A file in the centre

An analysis that is to have a file in the centre is the same one without that wish, moved by one
vector (`AnalyzeOptions.focus_translates`). Three things come together:

* the file is looked for from the root of the analysis, which is a canonical path, and is known by
  its own path then, as the nodes are (`Analysis.centers`);
* the places of the nodes are the same ones in both runs if nothing is left to chance
  (`Analysis.run_fresh`);
* what is said besides places is not touched by the move (`Graph.stats_moved`,
  `Report.summary_moved`).
-/

namespace ModuleAtlas

namespace Analysis

open Source

variable {α γ : Type} [Scalar α] {verdict : Verdict} {s : Snapshot} {settings : Settings α}
  {dir p : Path} {files : List Path} {a : Analysis α}

theorem run_fresh (h : settings.layout.LeavesNoChance) (verdict : Verdict) (r : RandomSource α γ)
    (fresh : γ) (s : Snapshot) (dir : Path) :
    run verdict { r with fresh } s settings dir = run verdict r s settings dir := by
  simp only [run, ofLoaded_fresh h]

/-- The analysis with its graph moved. -/
def moved (dx dy : α) (a : Analysis α) : Analysis α := { a with graph := a.graph.moved dx dy }

/-- What becomes of an analysis of these files that is to have a file in the centre: the path is read
from the root of the analysis, and leads to the file through whatever links there are. -/
structure Centers (s : Snapshot) (settings : LayoutSettings α) (files : List Path) (p : Path)
    (a : Analysis α) (x : Except Failure (Analysis α)) : Prop where
  missing : ∀ t, s.locate (a.root.join p) = .error t → x = .error (.notFound .file (a.root.join p))
  outside : ∀ l, s.locate (a.root.join p) = .ok l → Snapshot.pathOf l ∉ files →
    x = .error (.input (.notInGraph p))
  inside : ∀ l, s.locate (a.root.join p) = .ok l → Snapshot.pathOf l ∈ files →
    ∃ n ∈ a.graph.nodes, n.id = Snapshot.pathOf l ∧ x = .ok (a.moved
      (settings.canvasWidth / 2.0 - n.position.x) (settings.canvasHeight / 2.0 - n.position.y))

omit [Scalar α] in
/-- A file that is a node is found by its own path, and what is found by such a path is that file. -/
theorem node?_of_own (hs : s.top.WellFormed) (ha : a.graph.Indexed)
    (hids : a.graph.nodes.map (·.id) = files) (hown : ∀ q ∈ files, s.OwnPath q) {l : Location}
    {e : Entry} (hat : s.top.at? l = some e) :
    (Snapshot.pathOf l ∉ files → a.graph.node? (Snapshot.pathOf l) = none) ∧
      (Snapshot.pathOf l ∈ files → ∃ n ∈ a.graph.nodes, n.id = Snapshot.pathOf l ∧
        a.graph.node? (Snapshot.pathOf l) = some n) := by
  have hid {n : Node α} (hn : n ∈ a.graph.nodes) (h : (n.id == Snapshot.pathOf l) = true) :
      n.id = Snapshot.pathOf l := by
    obtain ⟨m, content, hm, hpath⟩ := hown n.id (hids ▸ List.mem_map_of_mem hn)
    rw [← hpath, Snapshot.pathOf_beq_iff (hs.proper hm) (hs.proper hat)] at h
    rw [← hpath, h]
  rw [ha.node?_eq]
  constructor
  · intro hout
    refine List.find?_eq_none.2 fun n hn h => hout ?_
    rw [← hid hn h, ← hids]
    exact List.mem_map_of_mem hn
  · intro hin
    rw [← hids] at hin
    obtain ⟨m, hm, hpath⟩ := List.mem_map.1 hin
    cases hnode : a.graph.nodes.find? (·.id == Snapshot.pathOf l) with
    | none =>
      have hne := List.find?_eq_none.1 hnode m hm
      rw [hpath] at hne
      exact absurd BEq.rfl hne
    | some n =>
      have hn := List.mem_of_find?_eq_some hnode
      have hsome := List.find?_some hnode
      exact ⟨n, hn, hid hn hsome, rfl⟩

theorem centers (hs : s.top.WellFormed) (ha : a.graph.Indexed)
    (hids : a.graph.nodes.map (·.id) = files) (hown : ∀ q ∈ files, s.OwnPath q)
    (settings : LayoutSettings α) (p : Path) : Centers s settings files p a (focusOn s settings p a) := by
  have hcanonical {l : Location} (hl : s.locate (a.root.join p) = .ok l) :
      s.canonical (a.root.join p) = .ok (Snapshot.pathOf l) :=
    Snapshot.canonical_eq_ok_iff.2 ⟨l, hl, rfl⟩
  have hentry {l : Location} (hl : s.locate (a.root.join p) = .ok l) : ∃ e, s.top.at? l = some e := by
    obtain ⟨e, he⟩ := Option.isSome_iff_exists.1 (Snapshot.hasEntry_iff.2 ⟨l, hl⟩)
    obtain ⟨m, hm, hat⟩ := Snapshot.entry?_eq_some_iff.1 he
    rw [Except.ok.inj (hl.symm.trans hm)]
    exact ⟨e, hat⟩
  constructor
  · intro t ht
    have hnone : s.canonical (a.root.join p) = .error t := by rw [Snapshot.canonical, ht]; rfl
    exact focusOn_of_error hnone
  · intro l hl hout
    obtain ⟨e, hat⟩ := hentry hl
    have hnone := (node?_of_own hs ha hids hown hat).1 hout
    have hcenter : a.graph.centerOn? (Snapshot.pathOf l) settings = none := by
      rw [Graph.centerOn?_eq, hnone, Option.map_none]
    rw [focusOn_of_canonical (hcanonical hl), hcenter]
  · intro l hl hin
    obtain ⟨e, hat⟩ := hentry hl
    obtain ⟨n, hn, hid, hnode⟩ := (node?_of_own hs ha hids hown hat).2 hin
    have hcenter := Graph.centerOn?_eq a.graph (Snapshot.pathOf l) settings
    rw [hnode, Option.map_some] at hcenter
    refine ⟨n, hn, hid, ?_⟩
    rw [focusOn_of_canonical (hcanonical hl), hcenter]
    rfl

end Analysis

/-! ### The report for people -/

namespace Report

/-- A summary says nothing about places. -/
theorem summary_moved (colour : Bool) (milliseconds : Nat) (a : Analysis Float) (dx dy : Float) :
    summary colour milliseconds (a.moved dx dy) = summary colour milliseconds a := by
  have hrole : roleLine (a.graph.nodes.map (·.moved dx dy)) = roleLine a.graph.nodes := by
    funext role
    simp only [roleLine, List.countP_map]
    rfl
  have hcircular : circularLines colour (a.graph.nodes.map (·.moved dx dy)) =
      circularLines colour a.graph.nodes := by
    simp only [circularLines, List.filter_map, List.isEmpty_map, List.map_map]
    rfl
  simp only [summary, summaryLines, Analysis.moved, Graph.moved, hrole, hcircular]
  rfl

end Report

namespace CommandLine

variable {γ : Type}

/-- The same surroundings but for the generator to use without a seed. -/
def Surroundings.withFresh (fresh : γ) (w : Surroundings γ) : Surroundings γ :=
  { w with random := { w.random with fresh } }

namespace AnalyzeOptions

open Analysis

/-- The same wishes without that for a file in the centre. -/
def unfocused (o : AnalyzeOptions) : AnalyzeOptions := { o with focus := none }

variable {o : AnalyzeOptions} {w : Surroundings γ} {p : Path} {a : Analysis Float} {f : Failure}

theorem analysis_of_settings_error (h : o.settings w = .error f) : o.analysis w = .error f := by
  rw [analysis, h]
  rfl

/-- Both runs begin in the same way, with nothing left to chance. -/
theorem analysis_focused {settings : Settings Float} (hsettings : o.settings w = .ok settings)
    (hchance : settings.layout.LeavesNoChance) (hfocus : o.focus = some p) (fresh : γ) :
    o.analysis (w.withFresh fresh) =
      o.unfocused.analysis w >>= focusOn w.files settings.layout p := by
  have hplain : o.unfocused.analysis w =
      Analysis.run w.verdict w.random w.files settings (o.root w) :=
    (analysis_eq (o := o.unfocused) hsettings rfl).trans (bind_pure _)
  have hsame := run_fresh hchance w.verdict w.random fresh w.files (o.root w)
  have hfocused := analysis_eq (o := o) (w := w.withFresh fresh) hsettings hsame
  rw [hfocus] at hfocused
  rw [hplain]
  exact hfocused

/-- What an analysis without a file in the centre finds, and what becomes of it with one. -/
theorem centers_of_unfocused (hs : w.files.top.WellFormed) {settings : Settings Float}
    (hsettings : o.settings w = .ok settings) (hchance : settings.layout.LeavesNoChance)
    (hfocus : o.focus = some p) (fresh : γ) (ha : o.unfocused.analysis w = .ok a) :
    w.files.canonical (o.root w) = .ok a.root ∧ a.stats = a.graph.stats ∧
      ∃ found, Scan.run w.files settings.scan a.root = .ok found ∧
        Centers w.files settings.layout found.files p a (o.analysis (w.withFresh fresh)) := by
  have hrun : Analysis.run w.verdict w.random w.files settings (o.root w) = .ok a := by
    rw [← ha, analysis_eq (o := o.unfocused) hsettings rfl]
    exact (bind_pure _).symm
  obtain ⟨root, found, hroot, hfound, hloaded⟩ := run_eq_ok_iff.1 hrun
  obtain ⟨hcanonical, l, e, hat, he, rfl⟩ := canonical_of_rootOf hroot
  have hids := (loads hs hat he hfound rfl :
    Loads w.files found (loadFile w.verdict w.files settings.scan.extensions _)).map_id hloaded
  have hown (q : Path) (hq : q ∈ found.files) : w.files.OwnPath q :=
    Snapshot.ownPath_of_mem_files hs hat he hfound hq
  rw [root_of_ofLoaded hloaded]
  refine ⟨hcanonical, ?_, found, hfound, ?_⟩
  · obtain ⟨g, -, rfl⟩ := ofLoaded_eq_ok_iff.1 hloaded
    rfl
  · rw [analysis_focused hsettings hchance hfocus, ha]
    exact centers hs (coherent_of_ofLoaded hloaded).indexed hids hown settings.layout p

/-- With exact arithmetic a graph is brought to the centre on a node by a translation, and not at all
if it has no such node. An analysis that is to have a file in the centre fails where it fails without
that wish. What it finds without it is moved by one vector: root, nodes, edges, sums and warnings are
kept but for the places, whatever the generators to use without a seed are. The path of the file is
read from the canonical root, and leads to the file through links. -/
theorem focus_translates (γ : Type) :
    (∀ (g : Graph ℝ) (settings : LayoutSettings ℝ) (id : Path),
      (g.node? id = none → g.centerOn? id settings = none) ∧
      ∀ n, g.node? id = some n → ∃ h, g.centerOn? id settings = some h ∧
        Graph.CenteredOn settings id g h) ∧
    ∀ (o : AnalyzeOptions) (w : Surroundings γ) (p : Path) (fresh : γ), w.files.top.WellFormed →
      o.focus = some p →
      (∀ settings, o.settings w = .ok settings → settings.layout.LeavesNoChance) →
      (∀ f, o.unfocused.analysis w = .error f → o.analysis (w.withFresh fresh) = .error f) ∧
      ∀ a, o.unfocused.analysis w = .ok a → w.files.canonical (o.root w) = .ok a.root ∧
        (∃ settings found, o.settings w = .ok settings ∧
          Scan.run w.files settings.scan a.root = .ok found ∧
          Centers w.files settings.layout found.files p a (o.analysis (w.withFresh fresh))) ∧
        ∀ dx dy, (a.moved dx dy).stats = (a.moved dx dy).graph.stats ∧
          ∀ colour milliseconds, Report.summary colour milliseconds (a.moved dx dy) =
            Report.summary colour milliseconds a := by
  refine ⟨fun g settings id => ⟨fun hnone => ?_, fun n hn => ?_⟩,
    fun o w p fresh hs hfocus hchance => ?_⟩
  · rw [Graph.centerOn?_eq, hnone, Option.map_none]
  · have hcenter := Graph.centerOn?_eq g id settings
    rw [hn, Option.map_some] at hcenter
    exact ⟨_, hcenter, Graph.centeredOn hcenter⟩
  · cases hsettings : o.settings w with
    | error f =>
      rw [analysis_of_settings_error (o := o.unfocused) hsettings,
        analysis_of_settings_error (o := o) (w := w.withFresh fresh) hsettings]
      exact ⟨fun _ h => h, fun _ h => by contradiction⟩
    | ok settings =>
      have hlayout := hchance settings hsettings
      refine ⟨fun f hf => ?_, fun a ha => ?_⟩
      · rw [analysis_focused hsettings hlayout hfocus, hf]
        rfl
      · obtain ⟨hroot, hstats, found, hfound, hcenters⟩ :=
          centers_of_unfocused hs hsettings hlayout hfocus fresh ha
        refine ⟨hroot, ⟨settings, found, rfl, hfound, hcenters⟩, fun dx dy => ⟨?_,
          fun colour milliseconds => Report.summary_moved colour milliseconds a dx dy⟩⟩
        exact hstats.trans (Graph.stats_moved dx dy a.graph).symm

/-- An analysis of /r that is to have the file in the centre which l/b.ts leads to. -/
def focusingLink : AnalyzeOptions :=
  { path := some (.ofString "/r"), focus := some (.ofString "l/b.ts") }

/-- No document can be read there. -/
def linkedSurroundings : Surroundings Nat where
  files := linkedSnapshot
  stdin := []
  colour := false
  verdict := linkedVerdict
  readDocument? := fun _ => none
  random := tally 0

/-- The file is b.ts, and both files are moved as it is. -/
theorem focus_translates_linked : ∃ a n,
    focusingLink.unfocused.analysis linkedSurroundings = .ok a ∧ n ∈ a.graph.nodes ∧
    n.id = .ofString "/r/b.ts" ∧
    focusingLink.analysis (linkedSurroundings.withFresh 5) =
      .ok (a.moved (2000.0 / 2.0 - n.position.x) (1200.0 / 2.0 - n.position.y)) ∧
    ∃ h, Graph.couple.centerOn? ⟨[97]⟩ .standard = some h ∧
      Graph.CenteredOn .standard ⟨[97]⟩ Graph.couple h := by
  have hdocument : linkedSnapshot.readText
      (Path.join (.ofString "/r") (.ofString Config.documentName)) = .error .noSuchEntry := by cbv
  have hsettings : focusingLink.settings linkedSurroundings = .ok (focusingLink.override .standard) :=
    settings_of_unusable rfl (.unreadable hdocument)
  have hchance (settings : Settings Float)
      (h : focusingLink.settings linkedSurroundings = .ok settings) :
      settings.layout.LeavesNoChance := by
    rw [← Except.ok.inj (hsettings.symm.trans h)]
    exact .inl rfl
  have hroot : rootOf linkedSnapshot (.ofString "/r") = .ok (.ofString "/r") := by cbv
  have hscan : Scan.run linkedSnapshot .standard (.ofString "/r") =
      .ok ⟨[.ofString "/r/a.ts", .ofString "/r/b.ts"], []⟩ := by cbv
  obtain ⟨a, ha⟩ : ∃ a, focusingLink.unfocused.analysis linkedSurroundings = .ok a :=
    ⟨_, analysis_eq (o := focusingLink.unfocused) hsettings (run_eq_ok_iff.2 ⟨_, _, hroot, hscan, rfl⟩)⟩
  obtain ⟨hgraphs, hruns⟩ := focus_translates Nat
  obtain ⟨-, hfinds⟩ := hruns focusingLink linkedSurroundings _ 5 wellFormed_linkedSnapshot rfl hchance
  obtain ⟨hcanonical, ⟨settings, found, hsettings', hfound, hcenters⟩, -⟩ := hfinds a ha
  obtain rfl := Except.ok.inj (hsettings.symm.trans hsettings')
  have hcanonical' : linkedSnapshot.canonical (.ofString "/r") = .ok (.ofString "/r") := by cbv
  have hdir : a.root = .ofString "/r" := Except.ok.inj (hcanonical.symm.trans hcanonical')
  rw [hdir] at hfound
  obtain rfl := Except.ok.inj (hfound.symm.trans hscan)
  have hlocate : linkedSnapshot.locate (Path.join a.root (.ofString "l/b.ts")) =
      .ok [[114], [98, 46, 116, 115]] := by
    rw [hdir]
    cbv
  have hpath : Snapshot.pathOf [[114], [98, 46, 116, 115]] = .ofString "/r/b.ts" := by cbv
  obtain ⟨n, hn, hid, hmoved⟩ := hcenters.inside _ hlocate (by simp [hpath])
  have hcouple : ∃ n, Graph.couple.node? ⟨[97]⟩ = some n := by
    rw [← Option.isSome_iff_exists, Graph.couple, Graph.ofFiles,
      (Graph.coherent_assemble _ _).indexed.node?_eq, List.find?_isSome]
    exact Graph.hasFile_assemble.2 ⟨_, List.mem_cons_self, BEq.rfl⟩
  obtain ⟨m, hm⟩ := hcouple
  exact ⟨a, n, ha, hn, hid.trans hpath, hmoved, (hgraphs Graph.couple .standard ⟨[97]⟩).2 m hm⟩

end AnalyzeOptions

end CommandLine

end ModuleAtlas
