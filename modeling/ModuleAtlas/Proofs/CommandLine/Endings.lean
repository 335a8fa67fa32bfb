import ModuleAtlas.Proofs.Analysis.Coverage
import ModuleAtlas.Proofs.CommandLine.Sessions
import ModuleAtlas.Proofs.Report.Speakable

/-!
# How an analysis ends

With which code the program ends an analysis is said by a list of conditions, of which the first that
applies counts (`AnalyzeOptions.endings`). They stand in the order in which the stages of a run look
at them: the documents, the root, the file for the centre, the report.

* What an analysis finds is about what a scan came by (`Analysis.about_of_run`). That does not depend
  on what is in the files, and so the ending does not either (`AnalyzeOptions.endings_alike`).
* `AnalyzeOptions.ending_first` puts this together, with what sessions have written if they break off.
-/

namespace ModuleAtlas

namespace Analysis

open Source

variable {α γ : Type} {verdict : Verdict} {s u : Snapshot} {dir p : Path}
  {found : Scan.Outcome} {a : Analysis α}

/-- The nodes are the files that a scan found, and whatever else is said is about these, but for the
warnings of the scan. -/
structure About (found : Scan.Outcome) (a : Analysis α) : Prop where
  nodes : a.graph.nodes.map (·.id) = found.files
  edges : ∀ e ∈ a.graph.edges, e.source ∈ found.files ∧ e.target ∈ found.files
  warnings : ∃ told, a.warnings = found.warnings ++ told ∧ ∀ v ∈ told, v.path ∈ found.files

theorem About.of_outline {g : Graph α} (h : About found a) (hg : g.outline = a.graph.outline) :
    About found { a with graph := g } := by
  have hids (g : Graph α) : g.nodes.map (·.id) = g.outline.nodes.map (·.id) := by
    rw [Graph.outline, List.map_map]
    rfl
  have hedges : g.edges = a.graph.edges := congrArg (·.edges) hg
  exact ⟨by rw [hids, hg, ← hids, h.nodes], by rw [hedges]; exact h.edges, h.warnings⟩

variable [Scalar α] {r : RandomSource α γ} {settings : Settings α}

/-- What an analysis is about can be told without a look into files. -/
theorem about_of_run (hs : s.top.WellFormed) (hu : s.emptied = u.emptied)
    (ha : run verdict r u settings dir = .ok a) : rootOf s dir = .ok a.root ∧
      ∃ found, Scan.run s settings.scan a.root = .ok found ∧ About found a := by
  obtain ⟨root, found, hroot, hfound, hloaded⟩ := run_eq_ok_iff.1 ha
  rw [← rootOf_emptied, ← hu, rootOf_emptied] at hroot
  rw [← Scan.run_emptied, ← hu, Scan.run_emptied] at hfound
  obtain ⟨-, d, e, hat, he, rfl⟩ := canonical_of_rootOf hroot
  have hloads : Loads s found (loadFile verdict u settings.scan.extensions (Snapshot.pathOf d)) :=
    loads hs hat he hfound hu
  rw [root_of_ofLoaded hloaded]
  refine ⟨hroot, found, hfound, hloads.map_id hloaded, fun e he => ?_, _,
    hloads.warnings_eq hloaded, fun v hv => ?_⟩
  · obtain ⟨hsource, htarget, -⟩ := (hloads.mem_edges_iff hloaded hs).1 he
    exact ⟨hsource, htarget⟩
  · obtain ⟨p, hp, hv⟩ := List.mem_filterMap.1 hv
    rwa [hloads.path_warning p v hv]

/-- Nothing but the root keeps an analysis from its end, but for a core without room. -/
theorem run_returns (hs : s.top.WellFormed) (hfit : s.top.NamesFit) (hu : s.emptied = u.emptied)
    (verdict : Verdict) (r : RandomSource α γ) (settings : Settings α) (dir : Path) :
    (∃ f, RootFault u dir f ∧ run verdict r u settings dir = .error f) ∨
      (∃ a, run verdict r u settings dir = .ok a) ∨
        run verdict r u settings dir = .error .noRoom ∧
          settings.layout.strategy = .zoned ∧ ¬settings.layout.HasRoom := by
  cases hroot : rootOf u dir with
  | error f =>
    refine .inl ⟨f, rootOf_eq_error_iff.1 hroot, ?_⟩
    rw [run, hroot]
    rfl
  | ok root =>
    have hroot' := hroot
    rw [← rootOf_emptied, ← hu, rootOf_emptied] at hroot'
    obtain ⟨found, hfound⟩ := exists_run_of_rootOf hs hfit settings.scan hroot'
    rw [← Scan.run_emptied, hu, Scan.run_emptied] at hfound
    rw [run_eq hroot hfound]
    exact .inr (ofLoaded_returns settings r _ _ _)

theorem sound_iff : (∀ f, ¬RootFault s dir f) ↔
    dir.text ≠ [] ∧ s.hasEntry dir ≠ false ∧ s.isDirectory dir ≠ false := by
  constructor
  · intro h
    have hnamed : dir.text ≠ [] := fun empty => h _ (.unnamed empty)
    have hthere : s.hasEntry dir ≠ false := fun missing => h _ (.missing hnamed missing)
    exact ⟨hnamed, hthere, fun other => h _ (.noDirectory (by simpa using hthere) other)⟩
  · rintro ⟨hnamed, hthere, hdirectory⟩ f (empty | missing | ⟨-, other⟩)
    · exact hnamed empty
    · exact hthere ‹_›
    · exact hdirectory other

/-- The file to be in the centre is missing, or is not in the graph, or the graph is moved. -/
inductive Focused (s : Snapshot) (p : Path) (a : Analysis α) :
    Except Failure (Analysis α) → Prop
  | missing (h : s.hasEntry (a.root.join p) = false) :
    Focused s p a (.error (.notFound .file (a.root.join p)))
  | outside {id : Path} (h : s.canonical (a.root.join p) = .ok id)
    (hout : ∀ q ∈ a.graph.nodes.map (·.id), (q == id) = false) :
    Focused s p a (.error (.input (.notInGraph p)))
  | moved {id : Path} {g : Graph α} (h : s.canonical (a.root.join p) = .ok id)
    (hin : ∃ q ∈ a.graph.nodes.map (·.id), (q == id) = true) (hg : g.outline = a.graph.outline) :
    Focused s p a (.ok { a with graph := g })

theorem focusOn_of_error {settings : LayoutSettings α} {t : Trouble}
    (h : s.canonical (a.root.join p) = .error t) :
    focusOn s settings p a = .error (.notFound .file (a.root.join p)) := by
  simp only [focusOn, focusOf, h, bind, Except.bind]

theorem focusOn_of_canonical {settings : LayoutSettings α} {id : Path}
    (h : s.canonical (a.root.join p) = .ok id) : focusOn s settings p a =
      match a.graph.centerOn? id settings with
      | some graph => .ok { a with graph }
      | none => .error (.input (.notInGraph p)) := by
  have hfocus : focusOf s a.root p = .ok id := by simp only [focusOf, h]
  rw [focusOn, hfocus]
  rfl

theorem focused (s : Snapshot) (settings : LayoutSettings α) (p : Path) (ha : a.graph.Indexed) :
    Focused s p a (focusOn s settings p a) := by
  cases hcanonical : s.canonical (a.root.join p) with
  | error t =>
    rw [focusOn_of_error hcanonical]
    refine .missing ?_
    rw [← Bool.not_eq_true, Snapshot.hasEntry_iff]
    rintro ⟨l, hl⟩
    rw [Snapshot.canonical_eq_ok_iff.2 ⟨l, hl, rfl⟩] at hcanonical
    contradiction
  | ok id =>
    rw [focusOn_of_canonical hcanonical]
    cases hcenter : a.graph.centerOn? id settings with
    | none =>
      refine .outside hcanonical ?_
      rw [Graph.centerOn?, Option.map_eq_none_iff, ha.node?_eq] at hcenter
      simpa using hcenter
    | some g =>
      refine .moved hcanonical ?_ (Graph.Stage.centerOn id settings hcenter).outline_eq
      obtain ⟨n, hn, -⟩ := Option.map_eq_some_iff.1 hcenter
      rw [ha.node?_eq] at hn
      have hid := List.find?_some hn
      exact ⟨n.id, List.mem_map_of_mem (List.mem_of_find?_eq_some hn), hid⟩

end Analysis

namespace Report

/-- The report on an analysis is about what the analysis is about. -/
theorem allSpeakable_iff {found : Scan.Outcome} {a : Analysis Float} (h : a.About found) :
    AllSpeakable a ↔ (∀ p ∈ found.files, Speakable p) ∧ ∀ v ∈ found.warnings, Speakable v.path := by
  obtain ⟨told, hwarnings, htold⟩ := h.warnings
  constructor
  · intro hall
    refine ⟨fun p hp => ?_, fun v hv => hall.warnings v ?_⟩
    · rw [← h.nodes] at hp
      obtain ⟨n, hn, rfl⟩ := List.mem_map.1 hp
      exact hall.nodes n hn
    · rw [hwarnings]
      exact List.mem_append_left told hv
  · rintro ⟨hfiles, hscan⟩
    refine ⟨fun n hn => hfiles n.id (h.nodes ▸ List.mem_map_of_mem hn), fun e he => ?_, fun v hv => ?_⟩
    · obtain ⟨hsource, htarget⟩ := h.edges e he
      exact ⟨hfiles _ hsource, hfiles _ htarget⟩
    · rw [hwarnings, List.mem_append] at hv
      exact hv.elim (hscan v) fun hv => hfiles _ (htold v hv)

end Report

namespace CommandLine

/-! ### Conditions -/

/-- The code of the first condition that applies, and 0 if none does. -/
noncomputable def firstCode : List (Prop × Nat) → Nat
  | [] => 0
  | (p, code) :: rest => open Classical in if p then code else firstCode rest

section FirstCode

variable {p q : Prop} {code : Nat} {rest rest' : List (Prop × Nat)}

theorem firstCode_of (h : p) : firstCode ((p, code) :: rest) = code := if_pos h

theorem firstCode_of_not (h : ¬p) : firstCode ((p, code) :: rest) = firstCode rest := if_neg h

theorem firstCode_congr (hpq : p ↔ q) (hrest : ¬p → firstCode rest = firstCode rest') :
    firstCode ((p, code) :: rest) = firstCode ((q, code) :: rest') := by
  by_cases hp : p
  · rw [firstCode_of hp, firstCode_of (hpq.1 hp)]
  · rw [firstCode_of_not hp, firstCode_of_not fun hq => hp (hpq.2 hq), hrest hp]

end FirstCode

variable {γ : Type}

/-- Why a document has no settings in it. -/
inductive Surroundings.Unusable (w : Surroundings γ) (p : Path) : Prop
  | unreadable {t : Trouble} (h : w.files.readText p = .error t)
  | malformed {text : String} (h : w.files.readText p = .ok text)
    (hnone : w.readDocument? text = none)

/-- What is wrong with such a document. -/
def Surroundings.fault (w : Surroundings γ) (p : Path) : InputFault :=
  match w.files.readText p with
  | .error t => .unreadableSettings p t
  | .ok _ => .invalidSettings p

/-- The document can be read, and asks for nothing. -/
def Surroundings.AsksNothing (w : Surroundings γ) (p : Path) : Prop :=
  ∃ text, w.files.readText p = .ok text ∧ w.readDocument? text = some .standard

namespace AnalyzeOptions

open Analysis

variable (o : AnalyzeOptions) (w : Surroundings γ)

/-- A document is named, and has no settings in it. -/
def BadDocument : Prop := ∃ p ∈ o.config, w.Unusable p

/-- What is found before a file is brought to the centre. -/
def Finds (a : Analysis Float) : Prop :=
  ∃ settings, o.settings w = .ok settings ∧
    Analysis.run w.verdict w.random w.files settings (o.root w) = .ok a

/-- The file for the centre, as it is read from the root, is not there. -/
def FocusMissing : Prop :=
  ∃ p ∈ o.focus, ∃ root, w.files.canonical (o.root w) = .ok root ∧
    w.files.hasEntry (root.join p) = false

/-- The file for the centre is there, but is none of the nodes. -/
def FocusOutside : Prop :=
  ∃ p ∈ o.focus, ∃ a, o.Finds w a ∧ ∃ id, w.files.canonical (a.root.join p) = .ok id ∧
    ∀ q ∈ a.graph.nodes.map (·.id), (q == id) = false

/-- A report is asked for in which a path is no text. -/
def Unspeakable : Prop :=
  o.format = .json ∧ ∃ a, o.analysis w = .ok a ∧ ¬Report.AllSpeakable a

/-- Why an analysis fails, and with which code the program ends then. -/
def endings : List (Prop × Nat) :=
  [(o.BadDocument w, 2), ((o.root w).text = [], 2), (w.files.hasEntry (o.root w) = false, 3),
    (w.files.isDirectory (o.root w) = false, 2), (o.FocusMissing w, 3), (o.FocusOutside w, 2),
    (o.Unspeakable w, 1)]

/-- With which code the program ends. -/
def code : Nat := ((Command.analyze o).ending w).code

variable {o w} {w' : Surroundings γ} {s : Snapshot} {a b : Analysis Float} {f : Failure}
  {p : Path} {found : Scan.Outcome}

/-! ### Stages -/

theorem code_of_error (h : o.analysis w = .error f) : o.code w = f.kind.exitCode := by
  rw [code, Command.ending, Command.run, run, h]
  rfl

theorem code_of_ok (h : o.analysis w = .ok a) : o.code w = firstCode [(o.Unspeakable w, 1)] := by
  rw [code, Command.ending, Command.run, run, h, Session.goOn_bind, Session.goOn_ofExcept]
  cases hformat : o.format with
  | text =>
    have hspeakable : ¬o.Unspeakable w := by simp [Unspeakable, hformat]
    rw [firstCode_of_not hspeakable]
    rfl
  | json =>
    obtain ⟨hall, d, hd⟩ | ⟨hall, hd⟩ := Report.saysIf_ofAnalysis a
    · have hspeakable : ¬o.Unspeakable w := by
        rintro ⟨-, b, hb, hbad⟩
        obtain rfl := Except.ok.inj (h.symm.trans hb)
        exact hbad hall
      dsimp only [Except.mapError]
      rw [firstCode_of_not hspeakable, hd]
      rfl
    · dsimp only [Except.mapError]
      rw [firstCode_of ⟨hformat, a, h, hall⟩, hd]
      rfl

theorem settings_of_named (hconfig : o.config = some p) :
    o.settings w = (Config.loadNamed w.readDocument? w.files p).map o.override := by
  rw [settings, hconfig, Config.load]

theorem settings_of_named_unusable (hconfig : o.config = some p) (h : w.Unusable p) :
    o.settings w = .error (.input (w.fault p)) := by
  rw [settings_of_named hconfig, Config.loadNamed, Surroundings.fault]
  cases h with
  | unreadable h =>
    rw [h]
    rfl
  | malformed h hnone =>
    rw [h]
    simp only [hnone]
    rfl

theorem BadDocument.settings_eq (h : o.BadDocument w) :
    ∃ fault, o.settings w = .error (.input fault) := by
  obtain ⟨p, hp, hunusable⟩ := h
  exact ⟨w.fault p, settings_of_named_unusable hp hunusable⟩

theorem exists_settings (h : ¬o.BadDocument w) : ∃ settings, o.settings w = .ok settings := by
  rw [settings]
  cases hconfig : o.config with
  | none => exact ⟨_, rfl⟩
  | some p =>
    have husable : ¬w.Unusable p := fun hunusable => h ⟨p, hconfig, hunusable⟩
    rw [Config.load, Config.loadNamed]
    cases htext : w.files.readText p with
    | error t => exact absurd (.unreadable htext) husable
    | ok text =>
      cases hread : w.readDocument? text with
      | none => exact absurd (.malformed htext hread) husable
      | some settings => exact ⟨o.override settings, by simp only [hread, Except.map]⟩

theorem analysis_eq {settings : Settings Float} {x : Except Failure (Analysis Float)}
    (h : o.settings w = .ok settings)
    (hx : Analysis.run w.verdict w.random w.files settings (o.root w) = x) : o.analysis w =
      x >>= fun a => match o.focus with
        | some p => Analysis.focusOn w.files settings.layout p a
        | none => .ok a := by
  rw [analysis, h, ← hx]
  rfl

theorem BadDocument.analysis_eq (h : o.BadDocument w) :
    ∃ fault, o.analysis w = .error (.input fault) := by
  obtain ⟨fault, hfault⟩ := h.settings_eq
  rw [analysis, hfault]
  exact ⟨fault, rfl⟩

theorem code_of_rootFault (hgood : ¬o.BadDocument w) (h : RootFault w.files (o.root w) f) :
    o.code w = f.kind.exitCode := by
  obtain ⟨settings, hsettings⟩ := exists_settings hgood
  have hrun : Analysis.run w.verdict w.random w.files settings (o.root w) = .error f := by
    rw [Analysis.run, rootOf_eq_error_iff.2 h]
    rfl
  exact code_of_error (analysis_eq hsettings hrun)

theorem exists_finds (hs : s.top.WellFormed) (hfit : s.top.NamesFit)
    (hu : s.emptied = w.files.emptied) (hroom : o.analysis w ≠ .error .noRoom)
    (hgood : ¬o.BadDocument w) (hsound : ∀ f, ¬RootFault w.files (o.root w) f) :
    ∃ a, o.Finds w a := by
  obtain ⟨settings, hsettings⟩ := exists_settings hgood
  obtain ⟨f, hf, -⟩ | ⟨a, ha⟩ | ⟨hnoRoom, -⟩ :=
    run_returns hs hfit hu w.verdict w.random settings (o.root w)
  · exact absurd hf (hsound f)
  · exact ⟨a, settings, hsettings, ha⟩
  · exact absurd (analysis_eq hsettings hnoRoom) hroom

theorem Finds.unique (ha : o.Finds w a) (hb : o.Finds w b) : a = b := by
  obtain ⟨settings, hsettings, ha⟩ := ha
  obtain ⟨settings', hsettings', hb⟩ := hb
  obtain rfl := Except.ok.inj (hsettings.symm.trans hsettings')
  exact Except.ok.inj (ha.symm.trans hb)

theorem Finds.canonical_eq (ha : o.Finds w a) : w.files.canonical (o.root w) = .ok a.root := by
  obtain ⟨settings, -, ha⟩ := ha
  obtain ⟨root, found, hroot, -, hloaded⟩ := run_eq_ok_iff.1 ha
  rw [root_of_ofLoaded hloaded]
  exact (canonical_of_rootOf hroot).1

theorem Finds.coherent (ha : o.Finds w a) : a.graph.Coherent := by
  obtain ⟨settings, -, ha⟩ := ha
  obtain ⟨root, found, -, -, hloaded⟩ := run_eq_ok_iff.1 ha
  exact coherent_of_ofLoaded hloaded

/-- What becomes of the file for the centre. -/
theorem focus_cases (ha : o.Finds w a) :
    (o.FocusMissing w ∧ ∃ p, o.analysis w = .error (.notFound .file p)) ∨
      (¬o.FocusMissing w ∧ o.FocusOutside w ∧
        ∃ p, o.analysis w = .error (.input (.notInGraph p))) ∨
      (¬o.FocusMissing w ∧ ¬o.FocusOutside w ∧
        ∃ g, g.outline = a.graph.outline ∧ o.analysis w = .ok { a with graph := g }) := by
  have hroot := ha.canonical_eq
  obtain ⟨settings, hsettings, hrun⟩ := id ha
  have hanalysis := analysis_eq hsettings hrun
  cases hfocus : o.focus with
  | none =>
    rw [hfocus] at hanalysis
    refine .inr (.inr ⟨?_, ?_, a.graph, rfl, hanalysis⟩)
    · rintro ⟨p, hp, -⟩
      simp [hfocus] at hp
    · rintro ⟨p, hp, -⟩
      simp [hfocus] at hp
  | some p =>
    rw [hfocus] at hanalysis
    have hfocused := focused w.files settings.layout p ha.coherent.indexed
    have hmissing : o.FocusMissing w ↔ w.files.hasEntry (a.root.join p) = false := by
      constructor
      · rintro ⟨q, hq, root, hroot', h⟩
        obtain rfl := Option.some.inj (hfocus.symm.trans hq)
        rwa [Except.ok.inj (hroot.symm.trans hroot')]
      · exact fun h => ⟨p, hfocus, a.root, hroot, h⟩
    have houtside : o.FocusOutside w ↔ ∃ id, w.files.canonical (a.root.join p) = .ok id ∧
        ∀ q ∈ a.graph.nodes.map (·.id), (q == id) = false := by
      constructor
      · rintro ⟨q, hq, b, hb, h⟩
        obtain rfl := Option.some.inj (hfocus.symm.trans hq)
        obtain rfl := hb.unique ha
        exact h
      · exact fun h => ⟨p, hfocus, a, ha, h⟩
    have hthere {id : Path} (h : w.files.canonical (a.root.join p) = .ok id) :
        ¬w.files.hasEntry (a.root.join p) = false := by
      obtain ⟨l, hl, -⟩ := Snapshot.canonical_eq_ok_iff.1 h
      simp [Snapshot.hasEntry_iff.2 ⟨l, hl⟩]
    have hanalysis : o.analysis w = focusOn w.files settings.layout p a := hanalysis
    rw [hmissing, houtside, hanalysis]
    generalize focusOn w.files settings.layout p a = x at hfocused
    cases hfocused with
    | missing h => exact .inl ⟨h, _, rfl⟩
    | outside h hout => exact .inr (.inl ⟨hthere h, ⟨_, h, hout⟩, p, rfl⟩)
    | moved h hin hg =>
      refine .inr (.inr ⟨hthere h, ?_, _, hg, rfl⟩)
      rintro ⟨id, hid, hout⟩
      obtain rfl := Except.ok.inj (h.symm.trans hid)
      obtain ⟨q, hq, hqid⟩ := hin
      rw [hout q hq] at hqid
      contradiction

/-- The program ends with the code of the first condition that applies. -/
theorem code_eq (hs : s.top.WellFormed) (hfit : s.top.NamesFit) (hu : s.emptied = w.files.emptied)
    (hroom : o.analysis w ≠ .error .noRoom) : o.code w = firstCode (o.endings w) := by
  rw [endings]
  by_cases hbad : o.BadDocument w
  · obtain ⟨fault, hfault⟩ := hbad.analysis_eq
    rw [firstCode_of hbad, code_of_error hfault]
    rfl
  rw [firstCode_of_not hbad]
  by_cases hfault : ∃ f, RootFault w.files (o.root w) f
  · obtain ⟨f, hf⟩ := hfault
    rw [code_of_rootFault hbad hf]
    cases hf with
    | unnamed empty =>
      rw [firstCode_of empty]
      rfl
    | missing named missing =>
      rw [firstCode_of_not named, firstCode_of missing]
      rfl
    | noDirectory there other =>
      obtain ⟨l, hl⟩ := Snapshot.hasEntry_iff.1 there
      rw [firstCode_of_not (Snapshot.text_ne_nil_of_locateFrom hl),
        firstCode_of_not (by simp [there]), firstCode_of other]
      rfl
  obtain ⟨a, ha⟩ := exists_finds hs hfit hu hroom hbad (not_exists.1 hfault)
  obtain ⟨hnamed, hthere, hdirectory⟩ := sound_iff.1 (not_exists.1 hfault)
  rw [firstCode_of_not hnamed, firstCode_of_not hthere, firstCode_of_not hdirectory]
  obtain ⟨hmissing, p, herror⟩ | ⟨hmissing, houtside, p, herror⟩ |
    ⟨hmissing, houtside, g, -, hok⟩ := focus_cases ha
  · rw [firstCode_of hmissing, code_of_error herror]
    rfl
  · rw [firstCode_of_not hmissing, firstCode_of houtside, code_of_error herror]
    rfl
  · rw [firstCode_of_not hmissing, firstCode_of_not houtside, code_of_ok hok]

/-! ### The content of files -/

/-- The second surroundings differ only in what is in the files, in how it is read and in the draws;
but the settings are the same. -/
structure Alike (o : AnalyzeOptions) (w w' : Surroundings γ) : Prop where
  files : w.files.emptied = w'.files.emptied
  settings : ∀ settings, o.settings w = .ok settings ↔ o.settings w' = .ok settings

theorem badDocument_iff : o.BadDocument w ↔ ∀ settings, o.settings w ≠ .ok settings := by
  constructor
  · intro h settings hsettings
    obtain ⟨fault, hfault⟩ := h.settings_eq
    rw [hfault] at hsettings
    contradiction
  · intro h
    by_contra hgood
    obtain ⟨settings, hsettings⟩ := exists_settings hgood
    exact h settings hsettings

theorem Alike.root_eq (h : o.Alike w w') : o.root w' = o.root w := by
  have hworking : w.files.working = w'.files.working := congrArg (·.working) h.files
  rw [root, root, Snapshot.workingPath, Snapshot.workingPath, hworking]

/-- What is found in alike surroundings is about the same. -/
theorem Alike.about (h : o.Alike w w') (hs : w.files.top.WellFormed) (ha : o.Finds w a)
    (hb : o.Finds w' b) : a.root = b.root ∧ ∃ found, About found a ∧ About found b := by
  obtain ⟨settings, hsettings, ha⟩ := ha
  obtain ⟨settings', hsettings', hb⟩ := hb
  obtain rfl := Except.ok.inj (((h.settings _).1 hsettings).symm.trans hsettings')
  rw [h.root_eq] at hb
  obtain ⟨hroot, found, hfound, habout⟩ := about_of_run hs rfl ha
  obtain ⟨hroot', found', hfound', habout'⟩ := about_of_run hs h.files hb
  have hsame := Except.ok.inj (hroot.symm.trans hroot')
  rw [← hsame] at hfound'
  obtain rfl := Except.ok.inj (hfound.symm.trans hfound')
  exact ⟨hsame, found, habout, habout'⟩

theorem focusOutside_iff (ha : o.Finds w a) (habout : About found a) : o.FocusOutside w ↔
    ∃ p ∈ o.focus, ∃ id, w.files.canonical (a.root.join p) = .ok id ∧
      ∀ q ∈ found.files, (q == id) = false := by
  rw [← habout.nodes]
  refine exists_congr fun p => and_congr_right fun _ => ⟨?_, fun h => ⟨a, ha, h⟩⟩
  rintro ⟨b, hb, h⟩
  rwa [ha.unique hb]

theorem unspeakable_iff (ha : o.Finds w a) (habout : About found a) (hmissing : ¬o.FocusMissing w)
    (houtside : ¬o.FocusOutside w) : o.Unspeakable w ↔ o.format = .json ∧
      ¬((∀ p ∈ found.files, Report.Speakable p) ∧ ∀ v ∈ found.warnings, Report.Speakable v.path) := by
  obtain ⟨hmissing', -⟩ | ⟨-, houtside', -⟩ | ⟨-, -, g, hg, hok⟩ := focus_cases ha
  · exact absurd hmissing' hmissing
  · exact absurd houtside' houtside
  rw [← Report.allSpeakable_iff (habout.of_outline hg)]
  refine and_congr_right fun _ => ⟨?_, fun h => ⟨_, hok, h⟩⟩
  rintro ⟨b, hb, h⟩
  rwa [← Except.ok.inj (hb.symm.trans hok)]

theorem endings_alike (h : o.Alike w w') (hs : w.files.top.WellFormed) (hfit : w.files.top.NamesFit)
    (hroom : o.analysis w ≠ .error .noRoom) (hroom' : o.analysis w' ≠ .error .noRoom) :
    firstCode (o.endings w) = firstCode (o.endings w') := by
  have hroot := h.root_eq
  have hentry (p : Path) : w'.files.hasEntry p = w.files.hasEntry p := by
    rw [← Snapshot.hasEntry_emptied, ← h.files, Snapshot.hasEntry_emptied]
  have hdirectory (p : Path) : w'.files.isDirectory p = w.files.isDirectory p := by
    rw [← Snapshot.isDirectory_emptied, ← h.files, Snapshot.isDirectory_emptied]
  have hcanonical (p : Path) : w'.files.canonical p = w.files.canonical p :=
    (Analysis.canonical_eq h.files p).symm
  have hbad : o.BadDocument w ↔ o.BadDocument w' := by
    simp only [badDocument_iff, ne_eq, h.settings]
  refine firstCode_congr hbad fun hgood => ?_
  refine firstCode_congr (by rw [hroot]) fun hnamed => ?_
  refine firstCode_congr (by rw [hroot, hentry]) fun hthere => ?_
  refine firstCode_congr (by rw [hroot, hdirectory]) fun hother => ?_
  have hsound := sound_iff.2 ⟨hnamed, hthere, hother⟩
  have hsound' : ∀ f, ¬RootFault w'.files (o.root w') f :=
    sound_iff.2 ⟨by rwa [hroot], by rwa [hroot, hentry], by rwa [hroot, hdirectory]⟩
  obtain ⟨a, ha⟩ := exists_finds hs hfit rfl hroom hgood hsound
  obtain ⟨b, hb⟩ := exists_finds hs hfit h.files hroom' (fun hbad' => hgood (hbad.2 hbad')) hsound'
  obtain ⟨hsame, found, habout, habout'⟩ := h.about hs ha hb
  have hmissing : o.FocusMissing w ↔ o.FocusMissing w' := by
    simp only [FocusMissing, hroot, hcanonical, hentry]
  have houtside : o.FocusOutside w ↔ o.FocusOutside w' := by
    rw [focusOutside_iff ha habout, focusOutside_iff hb habout', hsame]
    simp only [hcanonical]
  refine firstCode_congr hmissing fun hm => firstCode_congr houtside fun ho => ?_
  refine firstCode_congr ?_ fun _ => rfl
  rw [unspeakable_iff ha habout hm ho, unspeakable_iff hb habout' (fun hm' => hm (hmissing.2 hm'))
    fun ho' => ho (houtside.2 ho')]

variable (o w) in
/-- The document at the root. -/
def document : Path := (o.root w).join (.ofString Config.documentName)

theorem settings_of_unusable (hconfig : o.config = none) (h : w.Unusable (o.document w)) :
    o.settings w = .ok (o.override .standard) := by
  rw [document] at h
  rw [settings, hconfig, Config.load, Config.loadImplied]
  cases h with
  | unreadable h =>
    rw [h]
    rfl
  | malformed h hnone =>
    rw [h]
    simp only [hnone]
    rfl

theorem settings_of_asksNothing (hconfig : o.config = none) (h : w.AsksNothing (o.document w)) :
    o.settings w = .ok (o.override .standard) := by
  obtain ⟨text, htext, hnothing⟩ := h
  rw [document] at htext
  rw [settings, hconfig, Config.load, Config.loadImplied, htext]
  simp only [hnothing]
  rfl

/-- An analysis does not stop the program if there is room for a core in a zone. -/
theorem analysis_ne_noRoom (hs : w.files.top.WellFormed) (hfit : w.files.top.NamesFit)
    (hroom : ∀ settings, o.settings w = .ok settings → settings.layout.strategy = .zoned →
      settings.layout.HasRoom) : o.analysis w ≠ .error .noRoom := by
  intro hstops
  have hgood : ¬o.BadDocument w := by
    intro hbad
    obtain ⟨fault, hfault⟩ := hbad.analysis_eq
    simp [hstops] at hfault
  obtain ⟨settings, hsettings⟩ := exists_settings hgood
  obtain ⟨f, hf, hrun⟩ | ⟨a, hrun⟩ | ⟨-, hzoned, hnone⟩ :=
    run_returns hs hfit rfl w.verdict w.random settings (o.root w)
  · rw [analysis_eq hsettings hrun] at hstops
    obtain rfl := Except.error.inj hstops
    contradiction
  · obtain ⟨-, p, h⟩ | ⟨-, -, p, h⟩ | ⟨-, -, g, -, h⟩ := focus_cases ⟨settings, hsettings, hrun⟩
    all_goals simp [hstops] at h
  · exact hnone (hroom settings hsettings hzoned)

/-- An analysis that does not stop the program ends with the code of the first condition that
applies, and has written nothing if it fails. What is in the files makes no difference as long as
the settings are the same; and a document at the root that cannot be used makes no more difference
than one that asks for nothing. -/
theorem ending_first (o : AnalyzeOptions) (w : Surroundings γ) (hs : w.files.top.WellFormed)
    (hfit : w.files.top.NamesFit) (hroom : o.analysis w ≠ .error .noRoom) :
    o.code w = firstCode (o.endings w) ∧
    (o.code w ≠ 0 → ∀ milliseconds, ((Command.analyze o).ending w).output milliseconds = "") ∧
    (∀ w' : Surroundings γ, o.Alike w w' → o.analysis w' ≠ .error .noRoom → o.code w' = o.code w) ∧
    (o.config = none → w.Unusable (o.document w) → ∀ w' : Surroundings γ,
      w.files.emptied = w'.files.emptied → w'.AsksNothing (o.document w') →
        o.analysis w' ≠ .error .noRoom → o.code w' = o.code w) := by
  have halike (w' : Surroundings γ) (h : o.Alike w w') (hroom' : o.analysis w' ≠ .error .noRoom) :
      o.code w' = o.code w := by
    rw [code_eq hs hfit rfl hroom, code_eq hs hfit h.files hroom',
      endings_alike h hs hfit hroom hroom']
  refine ⟨code_eq hs hfit rfl hroom, (Command.analyze o).output_of_code_ne w, halike,
    fun hconfig hunusable w' hfiles hnothing => halike w' ⟨hfiles, fun settings => ?_⟩⟩
  rw [settings_of_unusable hconfig hunusable, settings_of_asksNothing hconfig hnothing]

/-- An analysis of /r that is to have d.ts in the centre. -/
def focusing : AnalyzeOptions := { path := some (.ofString "/r"), focus := some (.ofString "d.ts") }

/-- A file there is no text, and no document can be read. -/
def flawedSurroundings (verdict : Source.Verdict) : Surroundings Unit where
  files := flawedSnapshot
  stdin := []
  colour := false
  verdict := verdict
  readDocument? := fun _ => none
  random := zeros

/-- There is no such file, whether the others make sense or not. -/
theorem ending_first_flawed : focusing.code (flawedSurroundings flawedVerdict) = 3 ∧
    ((Command.analyze focusing).ending (flawedSurroundings flawedVerdict)).output 0 = "" ∧
    focusing.code (flawedSurroundings linkedVerdict) = 3 := by
  have hdocument : flawedSnapshot.readText
      (Path.join (.ofString "/r") (.ofString Config.documentName)) = .error .noSuchEntry := by cbv
  have hcanonical : flawedSnapshot.canonical (.ofString "/r") = .ok (.ofString "/r") := by cbv
  have hentry : flawedSnapshot.hasEntry (.ofString "/r") = true := by cbv
  have hdirectory : flawedSnapshot.isDirectory (.ofString "/r") = true := by cbv
  have hmissing :
      flawedSnapshot.hasEntry (Path.join (.ofString "/r") (.ofString "d.ts")) = false := by cbv
  have hroom (verdict : Source.Verdict) :
      focusing.analysis (flawedSurroundings verdict) ≠ .error .noRoom := by
    refine analysis_ne_noRoom wellFormed_flawedSnapshot namesFit_flawedSnapshot fun settings h => ?_
    rw [settings_of_unusable rfl (.unreadable hdocument)] at h
    obtain rfl := Except.ok.inj h
    exact fun hzoned => by contradiction
  obtain ⟨hcode, hsilent, halike, -⟩ := ending_first focusing (flawedSurroundings flawedVerdict)
    wellFormed_flawedSnapshot namesFit_flawedSnapshot (hroom _)
  have hbad : ¬focusing.BadDocument (flawedSurroundings flawedVerdict) := by rintro ⟨_, ⟨⟩, -⟩
  have hnamed : (Path.ofString "/r").text ≠ [] := by
    rw [show (Path.ofString "/r").text = [47, 114] by cbv]
    simp
  have hfocus : focusing.FocusMissing (flawedSurroundings flawedVerdict) :=
    ⟨_, rfl, _, hcanonical, hmissing⟩
  have hthere : ¬flawedSnapshot.hasEntry (.ofString "/r") = false := by simp [hentry]
  have hother : ¬flawedSnapshot.isDirectory (.ofString "/r") = false := by simp [hdirectory]
  have hthree : focusing.code (flawedSurroundings flawedVerdict) = 3 := by
    refine hcode.trans ?_
    refine (firstCode_of_not hbad).trans ?_
    refine (firstCode_of_not hnamed).trans ?_
    refine (firstCode_of_not hthere).trans ?_
    refine (firstCode_of_not hother).trans ?_
    exact firstCode_of hfocus
  have hsame := halike (flawedSurroundings linkedVerdict) ⟨rfl, fun _ => Iff.rfl⟩ (hroom _)
  exact ⟨hthree, hsilent (by simp [hthree]) 0, hsame.trans hthree⟩

end AnalyzeOptions

end CommandLine

end ModuleAtlas
