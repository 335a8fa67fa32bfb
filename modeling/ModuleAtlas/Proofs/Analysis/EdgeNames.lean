import ModuleAtlas.Proofs.Analysis.Coverage
import ModuleAtlas.Proofs.FileSystem.Candidates
import ModuleAtlas.Proofs.Metrics.Names

/-!
# Names of edges

An edge is called by its ends with a hyphen between them, and a hyphen may also stand inside of a
path. So two edges may have one name: where the hyphen of the one stands, the other one has its
source or its target (`Edge.Overlaps`). If paths are absolute and text, as they are in an analysis of
files whose names are text (`Analysis.plain_of_run`), this is the only way (`Edge.id_eq_id_iff`), and
it takes directories on both sides whose names end with a hyphen (`Edge.Overlaps.crossesHyphen`);
without them an edge is known by its name (`Graph.named_apart`).
-/

namespace ModuleAtlas

variable {p q : Path} {segment : Name}

/-! ### Plain paths -/

namespace Path

/-- The path begins at the root, and is text. -/
structure Plain (p : Path) : Prop where
  absolute : p.isAbsolute = true
  isText : ∃ t, p = ofString t

/-- Pieces of text make up text. -/
theorem exists_intercalate {pieces : List Name}
    (h : ∀ piece ∈ pieces, ∃ t, piece = Text.Utf8.encode t) :
    ∃ t, [separator].intercalate pieces = Text.Utf8.encode t := by
  induction pieces with
  | nil => exact ⟨"", rfl⟩
  | cons first rest ih =>
    obtain ⟨⟨t, rfl⟩, hrest⟩ := List.forall_mem_cons.1 h
    obtain ⟨u, hu⟩ := ih hrest
    by_cases hnil : rest = []
    · exact ⟨t, by rw [hnil, List.intercalate_singleton]⟩
    · have hslash : Text.Utf8.encode "/" = [separator] := by decide
      refine ⟨t ++ "/" ++ u, ?_⟩
      rw [List.intercalate_cons_of_ne_nil hnil, hu, Resolve.encode_append, Resolve.encode_append,
        hslash]

/-- A path is text if and only if what stands between its separators is. -/
theorem isText_iff :
    (∃ t, p = ofString t) ↔ ∀ segment ∈ p.segments, ∃ t, segment = Text.Utf8.encode t := by
  constructor
  · rintro ⟨t, rfl⟩ segment hsegment
    obtain ⟨piece, hpiece, -⟩ := Text.Utf8.exists_piece (d := '/') (by decide) hsegment
    exact ⟨piece, hpiece⟩
  · intro h
    obtain ⟨t, ht⟩ := exists_intercalate h
    rw [segments, List.intercalate_splitOn] at ht
    exact ⟨t, congrArg Path.mk ht⟩

/-- Absolute paths are those whose components begin with the root. -/
theorem isAbsolute_iff : p.isAbsolute = true ↔ p.components.head? = some .root := by
  have hstep (segment : Name) : .root ∉ (stepOf segment).toList := by
    rw [stepOf]
    split_ifs <;> simp
  rw [components]
  obtain ⟨first, rest, hsegments⟩ : ∃ first rest, p.segments = first :: rest :=
    List.exists_cons_of_ne_nil (List.splitOn_ne_nil _ _)
  rw [hsegments]
  by_cases habsolute : p.isAbsolute = true
  · simp [habsolute]
  · simp only [habsolute, if_false, false_iff, Bool.false_eq_true]
    intro hhead
    split_ifs at hhead
    · simp at hhead
    · have hmem := List.mem_of_head? hhead
      rcases List.mem_append.1 hmem with hfirst | hrest
      · exact hstep first hfirst
      · obtain ⟨segment, -, hsegment⟩ := List.mem_filterMap.1 hrest
        exact hstep segment (by simp [hsegment])

theorem text_eq_cons (h : p.isAbsolute = true) : ∃ behind, p.text = separator :: behind := by
  simpa [isAbsolute, List.head?_eq_some_iff] using h

/-- A segment that is a name is one of the components. -/
theorem named_mem_components (h : segment ∈ p.segments)
    (hstep : stepOf segment = some (.named segment)) : .named segment ∈ p.components := by
  rw [components]
  cases hsegments : p.segments with
  | nil => simp [hsegments] at h
  | cons first rest =>
    rw [hsegments] at h
    rcases List.mem_cons.1 h with rfl | hrest
    · have habsolute : ¬ p.isAbsolute = true := by
        intro habsolute
        obtain ⟨behind, htext⟩ := text_eq_cons habsolute
        rw [segments, htext, List.splitOn_cons_eq_if_modifyHead, if_pos BEq.rfl] at hsegments
        rw [← (List.cons.inj hsegments).1] at hstep
        contradiction
      have hhere : ¬(segment == [46]) = true := by
        intro hhere
        rw [eq_of_beq hhere] at hstep
        contradiction
      simp [habsolute, hhere, hstep]
    · have hmem : .named segment ∈ rest.filterMap stepOf := List.mem_filterMap.2 ⟨_, hrest, hstep⟩
      dsimp only
      split_ifs <;> simp [hmem]

theorem stepOf_cases (segment : Name) : segment = [] ∨ segment = [46] ∨ segment = [46, 46] ∨
    stepOf segment = some (.named segment) := by
  simp only [stepOf, isVoid]
  grind

/-- Whether a path is plain does not depend on how it is written. -/
theorem Plain.congr (h : (p == q) = true) (hp : p.Plain) : q.Plain where
  absolute := by
    rw [isAbsolute_iff, ← (beq_iff p q).1 h]
    exact isAbsolute_iff.1 hp.absolute
  isText := by
    refine isText_iff.2 fun segment hsegment => ?_
    rcases stepOf_cases segment with rfl | rfl | rfl | hstep
    · exact ⟨"", rfl⟩
    · exact ⟨".", rfl⟩
    · exact ⟨"..", rfl⟩
    · have hnamed := named_mem_components hsegment hstep
      rw [← (beq_iff p q).1 h] at hnamed
      obtain ⟨piece, hpiece, hstep⟩ := exists_stepOf hnamed
      obtain ⟨rfl, -, -⟩ := stepOf_eq_named hstep
      exact isText_iff.1 hp.isText _ hpiece

/-- Somewhere in the path a name ends with a hyphen, and a separator follows. -/
def CrossesHyphen (p : Path) : Prop := [45, separator] <:+: p.text

instance (p : Path) : Decidable p.CrossesHyphen :=
  inferInstanceAs (Decidable ([45, separator] <:+: p.text))

end Path

/-! ### Two edges of one name -/

/-- Two ways to cut a list in two at one element: at the same place, or at one place behind the
other. -/
theorem append_cons_eq_append_cons_iff {β : Type} {a b c d : List β} {x : β} :
    a ++ x :: b = c ++ x :: d ↔ (a = c ∧ b = d) ∨
      (∃ m, c = a ++ x :: m ∧ b = m ++ x :: d) ∨ ∃ m, a = c ++ x :: m ∧ d = m ++ x :: b := by
  rw [List.append_eq_append_iff]
  constructor
  · rintro (⟨m, rfl, hm⟩ | ⟨m, rfl, hm⟩)
    · rcases List.cons_eq_append_iff.1 hm with ⟨rfl, hd⟩ | ⟨m, rfl, hb⟩
      · exact .inl ⟨by simp, (List.cons.inj hd).2.symm⟩
      · exact .inr (.inl ⟨m, rfl, hb⟩)
    · rcases List.cons_eq_append_iff.1 hm with ⟨rfl, hb⟩ | ⟨m, rfl, hd⟩
      · exact .inl ⟨by simp, (List.cons.inj hb).2⟩
      · exact .inr (.inr ⟨m, rfl, hd⟩)
  · rintro (⟨rfl, rfl⟩ | ⟨m, rfl, rfl⟩ | ⟨m, rfl, rfl⟩)
    · exact .inl ⟨[], by simp, rfl⟩
    · exact .inl ⟨x :: m, rfl, by simp⟩
    · exact .inr ⟨x :: m, rfl, by simp⟩

namespace Edge

variable {e f : Edge}

/-- The hyphen between the ends of the first edge stands inside of the source of the second one, and
the hyphen between the ends of the second one inside of the target of the first; between the two
hyphens there is an absolute path. -/
def Overlaps (e f : Edge) : Prop :=
  ∃ middle : Path, middle.isAbsolute = true ∧ f.source = e.source.append (45 :: middle.text) ∧
    e.target = middle.append (45 :: f.target.text)

theorem encode_id (hsource : ∃ t, e.source = .ofString t) (htarget : ∃ t, e.target = .ofString t) :
    Text.Utf8.encode e.id = [101, 45] ++ (e.source.text ++ 45 :: e.target.text) := by
  obtain ⟨source, target⟩ := e
  obtain ⟨s, rfl⟩ := hsource
  obtain ⟨t, rfl⟩ := htarget
  have hdisplay (u : String) : (Path.ofString u).display = u := Text.Utf8.decodeLossy_encode u
  have hid : id ⟨.ofString s, .ofString t⟩ = "e-" ++ s ++ "-" ++ t := by
    simp only [id, hdisplay]
    rfl
  have hfront : Text.Utf8.encode "e-" = [101, 45] := by decide
  have hhyphen : Text.Utf8.encode "-" = [45] := by decide
  rw [hid, Resolve.encode_append, Resolve.encode_append, Resolve.encode_append, hfront, hhyphen]
  simp [Path.ofString]

/-- Edges between plain paths have one name if and only if they are the same or overlap. -/
theorem id_eq_id_iff (hes : e.source.Plain) (het : e.target.Plain) (hfs : f.source.Plain)
    (hft : f.target.Plain) : e.id = f.id ↔ e = f ∨ e.Overlaps f ∨ f.Overlaps e := by
  have hbetween {d k : Edge} (hd : d.target.Plain) : d.Overlaps k ↔ ∃ m,
      k.source.text = d.source.text ++ 45 :: m ∧ d.target.text = m ++ 45 :: k.target.text := by
    obtain ⟨⟨a⟩, ⟨b⟩⟩ := d
    obtain ⟨⟨c⟩, ⟨t⟩⟩ := k
    constructor
    · rintro ⟨⟨m⟩, -, hsource, htarget⟩
      exact ⟨m, congrArg Path.text hsource, congrArg Path.text htarget⟩
    · rintro ⟨m, hsource, htarget⟩
      refine ⟨⟨m⟩, ?_, congrArg Path.mk hsource, congrArg Path.mk htarget⟩
      have habsolute := hd.absolute
      rw [Path.isAbsolute, htarget] at habsolute
      cases m with
      | nil => contradiction
      | cons => exact habsolute
  rw [← Text.Utf8.encode_injective.eq_iff, encode_id hes.isText het.isText,
    encode_id hfs.isText hft.isText, List.append_cancel_left_eq, append_cons_eq_append_cons_iff,
    hbetween het, hbetween hft]
  obtain ⟨⟨a⟩, ⟨b⟩⟩ := e
  obtain ⟨⟨c⟩, ⟨d⟩⟩ := f
  simp

/-- If edges overlap, directories on both sides have names that end with a hyphen. -/
theorem Overlaps.crossesHyphen (h : e.Overlaps f) (hft : f.target.Plain) :
    f.source.CrossesHyphen ∧ e.target.CrossesHyphen := by
  obtain ⟨middle, hmiddle, hsource, htarget⟩ := h
  obtain ⟨behind, hbehind⟩ := Path.text_eq_cons hmiddle
  obtain ⟨rest, hrest⟩ := Path.text_eq_cons hft.absolute
  rw [hbehind] at hsource
  rw [hrest] at htarget
  rw [hsource, htarget]
  exact ⟨⟨e.source.text, behind, by simp [Path.append]⟩, ⟨middle.text, rest, by simp [Path.append]⟩⟩

end Edge

/-! ### Edges of a graph -/

namespace Graph

variable {α : Type} {g : Graph α}

theorem Coherent.plain_ends (hg : g.Coherent) (hids : ∀ n ∈ g.nodes, n.id.Plain) :
    ∀ e ∈ g.edges, e.source.Plain ∧ e.target.Plain := by
  have hplain {p : Path} (hp : HasFile g.nodes p) : p.Plain := by
    obtain ⟨n, hn, hid⟩ := hp
    exact (hids n hn).congr hid
  exact fun e he => ⟨hplain (hg.joined e he).1, hplain (hg.joined e he).2⟩

/-- Two edges of a graph whose nodes have plain paths have one name if and only if they are the same
or overlap. So all names are different if no source, or no target, is reached by a directory whose
name ends with a hyphen. -/
theorem named_apart (hg : g.Coherent) (hids : ∀ n ∈ g.nodes, n.id.Plain) :
    (∀ e ∈ g.edges, ∀ f ∈ g.edges,
      e.id = f.id ↔ (e == f) = true ∨ e.Overlaps f ∨ f.Overlaps e) ∧
    ((∀ e ∈ g.edges, ¬ e.source.CrossesHyphen) ∨ (∀ e ∈ g.edges, ¬ e.target.CrossesHyphen) →
      (g.edges.map Edge.id).Nodup) := by
  have hends := hg.plain_ends hids
  have hiff : ∀ e ∈ g.edges, ∀ f ∈ g.edges,
      e.id = f.id ↔ (e == f) = true ∨ e.Overlaps f ∨ f.Overlaps e := by
    intro e he f hf
    rw [Edge.id_eq_id_iff (hends e he).1 (hends e he).2 (hends f hf).1 (hends f hf).2]
    refine or_congr_left ⟨fun hef => hef ▸ BEq.rfl, fun hef => ?_⟩
    exact eq_of_compare_eq hg.ascending he hf (Edge.compare_eq_iff.2 hef)
  refine ⟨hiff, fun hnone => List.pairwise_map.2 ?_⟩
  refine hg.ascending.imp_of_mem fun {e f} he hf hlt hid => ?_
  have hapart {d k : Edge} (hd : d ∈ g.edges) (hk : k ∈ g.edges) : ¬ d.Overlaps k := by
    intro hover
    obtain ⟨hsource, htarget⟩ := hover.crossesHyphen (hends k hk).2
    rcases hnone with hsources | htargets
    · exact hsources k hk hsource
    · exact htargets d hd htarget
  rcases (hiff e he f hf).1 hid with hef | hover | hover
  · simp [Edge.compare_eq_iff.2 hef] at hlt
  · exact hapart he hf hover
  · exact hapart hf he hover

/-- A file in a directory with a hyphen at the end of its name, and two files that it imports. -/
def hyphenGraph : Graph Nat :=
  ofFiles ⟨0, 0⟩
    [⟨.ofString "/a-/b.ts", "a-/b.ts", [.ofString "/c.ts", .ofString "/d.ts"]⟩,
     ⟨.ofString "/c.ts", "c.ts", []⟩, ⟨.ofString "/d.ts", "d.ts", []⟩]

/-- The directory is on the way to sources only, so the two edges have different names. -/
theorem named_apart_hyphen : hyphenGraph.Coherent ∧ (∀ n ∈ hyphenGraph.nodes, n.id.Plain) ∧
    hyphenGraph.edges =
      [⟨.ofString "/a-/b.ts", .ofString "/c.ts"⟩, ⟨.ofString "/a-/b.ts", .ofString "/d.ts"⟩] ∧
    (∀ e ∈ hyphenGraph.edges, ¬ e.target.CrossesHyphen) ∧
    (hyphenGraph.edges.map Edge.id).Nodup := by
  have hids : hyphenGraph.nodes.map (·.id) =
      [.ofString "/a-/b.ts", .ofString "/c.ts", .ofString "/d.ts"] := by cbv
  have hplain : ∀ p ∈ hyphenGraph.nodes.map (·.id), p.Plain := by
    rw [hids]
    simp only [List.forall_mem_cons]
    exact ⟨⟨rfl, _, rfl⟩, ⟨rfl, _, rfl⟩, ⟨rfl, _, rfl⟩, by simp⟩
  have hplain : ∀ n ∈ hyphenGraph.nodes, n.id.Plain :=
    fun n hn => hplain _ (List.mem_map_of_mem hn)
  have hedges : hyphenGraph.edges =
      [⟨.ofString "/a-/b.ts", .ofString "/c.ts"⟩, ⟨.ofString "/a-/b.ts", .ofString "/d.ts"⟩] := by
    cbv
  have hg : hyphenGraph.Coherent := coherent_assemble _ _
  have hnone : ∀ e ∈ hyphenGraph.edges, ¬ e.target.CrossesHyphen := by
    rw [hedges]
    decide
  exact ⟨hg, hplain, hedges, hnone, (named_apart hg hplain).2 (.inr hnone)⟩

end Graph

namespace Analysis

open Source

variable {α γ : Type} [Scalar α] {verdict : Verdict} {r : RandomSource α γ} {s : Snapshot}
  {settings : Settings α} {a : Analysis α} {dir : Path}

/-- The graph of an analysis is coherent, and the paths of its nodes are plain if they are text. -/
theorem plain_of_run (hs : s.top.WellFormed) (hrun : run verdict r s settings dir = .ok a) :
    a.graph.Coherent ∧ ∀ n ∈ a.graph.nodes, (∃ t, n.id = .ofString t) → n.id.Plain := by
  obtain ⟨root, found, hroot, hfound, ha⟩ := run_eq_ok_iff.1 hrun
  obtain ⟨-, d, e, hat, he, rfl⟩ := canonical_of_rootOf hroot
  refine ⟨coherent_of_ofLoaded ha, fun n hn htext => ⟨?_, htext⟩⟩
  have hmem : n.id ∈ found.files :=
    (loads hs hat he hfound rfl).map_id ha ▸ List.mem_map_of_mem hn
  obtain ⟨l, content, -, hpath⟩ := Snapshot.ownPath_of_mem_files hs hat he hfound hmem
  rw [← hpath]
  exact Snapshot.isAbsolute_pathOf l

/-- A text that names the file a.ts in the directory a.ts- beside it. -/
def downText : String := "import \"./a.ts-/a\""

/-- A text that names the file a.ts in the directory above. -/
def upText : String := "import \"../a\""

/-- At the top a file a.ts, and a file of that name in a directory a.ts-, that import each other. -/
def twinSnapshot : Snapshot where
  top := .directory [([97, 46, 116, 115], .file (Text.Utf8.encode downText)),
    ([97, 46, 116, 115, 45],
      .directory [([97, 46, 116, 115], .file (Text.Utf8.encode upText))] true)] true
  working := []

theorem wellFormed_twinSnapshot : twinSnapshot.top.WellFormed := by
  refine .directory (by decide) (by decide) ?_ true
  simp only [List.forall_mem_cons]
  exact ⟨.file _, .directory (by decide) (by decide) (by simpa using .file _) true, by simp⟩

/-- The tree of a text that is an import of a module name, up to its end. -/
def importTree (stop : Nat) : Tree :=
  .node ⟨.program, none, 0, stop⟩
    [.node ⟨.importStatement, none, 0, stop⟩
      [.node ⟨.token "import", none, 0, 6⟩ [], .node ⟨.literal, some .source, 7, stop⟩ []]]

/-- What the texts of these files mean. -/
def twinVerdict : Verdict := fun _ text => .ok (importTree text.length)

/-- The text of each file names the other one. -/
theorem namesByPath_twins :
    NamesByPath twinVerdict twinSnapshot (.ofString "/a.ts") "./a.ts-/a" ∧
      NamesByPath twinVerdict twinSnapshot (.ofString "/a.ts-/a.ts") "../a" := by
  have hdown : itemsOf downText.toList.toArray (importTree 18) = [.importFrom "./a.ts-/a"] := by
    decide +kernel
  have hup : itemsOf upText.toList.toArray (importTree 13) = [.importFrom "../a"] := by
    decide +kernel
  constructor
  · refine ⟨Text.Utf8.encode downText, downText, .plain, importTree 18, by cbv, by cbv, rfl,
      .inl (by cbv), ⟨.importFrom "./a.ts-/a", ?_, .inl rfl⟩, _, .inl rfl⟩
    rw [hdown]
    exact List.mem_cons_self
  · refine ⟨Text.Utf8.encode upText, upText, .plain, importTree 13, by cbv, by cbv, rfl,
      .inl (by cbv), ⟨.importFrom "../a", ?_, .inl rfl⟩, _, .inl rfl⟩
    rw [hup]
    exact List.mem_cons_self

/-- The edges in both directions are called by the path of a.ts three times. -/
theorem twins_share_name : ∃ a : Analysis Float,
    run twinVerdict zeros twinSnapshot .standard (.ofString "/") = .ok a ∧ a.graph.Coherent ∧
    (∀ n ∈ a.graph.nodes, n.id.Plain ∧ twinSnapshot.canonical n.id = .ok n.id) ∧
    ∃ e ∈ a.graph.edges, ∃ f ∈ a.graph.edges, (e == f) = false ∧ e.id = f.id := by
  have hroot : rootOf twinSnapshot (.ofString "/") = .ok (.ofString "/") := by cbv
  have hfound : Scan.run twinSnapshot .standard (.ofString "/") =
      .ok ⟨[.ofString "/a.ts", .ofString "/a.ts-/a.ts"], []⟩ := by cbv
  obtain ⟨a, ha⟩ : ∃ a : Analysis Float, ofLoaded Settings.standard zeros (.ofString "/") []
      ([.ofString "/a.ts", .ofString "/a.ts-/a.ts"].map
        (loadFile twinVerdict twinSnapshot ScanSettings.standard.extensions (.ofString "/"))) =
      .ok a := ⟨_, rfl⟩
  have hrun : run twinVerdict zeros twinSnapshot .standard (.ofString "/") = .ok a :=
    run_eq_ok_iff.2 ⟨_, _, hroot, hfound, ha⟩
  obtain ⟨hcoherent, hplain⟩ := plain_of_run wellFormed_twinSnapshot hrun
  obtain ⟨-, d, e, hat, he, hd⟩ := canonical_of_rootOf hroot
  have hloads : Loads twinSnapshot ⟨[.ofString "/a.ts", .ofString "/a.ts-/a.ts"], []⟩
      (loadFile twinVerdict twinSnapshot ScanSettings.standard.extensions (.ofString "/")) :=
    hd ▸ loads wellFormed_twinSnapshot hat he (hd ▸ hfound) rfl
  have hmap : a.graph.nodes.map (·.id) = [.ofString "/a.ts", .ofString "/a.ts-/a.ts"] :=
    hloads.map_id ha
  have hids : ∀ n ∈ a.graph.nodes,
      n.id ∈ [Path.ofString "/a.ts", Path.ofString "/a.ts-/a.ts"] := by
    rw [← hmap]
    exact fun n hn => List.mem_map_of_mem hn
  have hcanonical : ∀ p ∈ [Path.ofString "/a.ts", Path.ofString "/a.ts-/a.ts"],
      (∃ t, p = .ofString t) ∧ twinSnapshot.canonical p = .ok p := by
    simp only [List.forall_mem_cons]
    exact ⟨⟨⟨_, rfl⟩, by cbv⟩, ⟨⟨_, rfl⟩, by cbv⟩, by simp⟩
  have hdown : ⟨.ofString "/a.ts", .ofString "/a.ts-/a.ts"⟩ ∈ a.graph.edges := by
    refine (hloads.mem_edges_iff ha wellFormed_twinSnapshot).2 ⟨by simp, by simp, ?_⟩
    exact mem_dependencies_loadFile.2 ⟨_, namesByPath_twins.1, by cbv⟩
  have hup : ⟨.ofString "/a.ts-/a.ts", .ofString "/a.ts"⟩ ∈ a.graph.edges := by
    refine (hloads.mem_edges_iff ha wellFormed_twinSnapshot).2 ⟨by simp, by simp, ?_⟩
    exact mem_dependencies_loadFile.2 ⟨_, namesByPath_twins.2, by cbv⟩
  refine ⟨a, hrun, hcoherent, fun n hn => ?_, _, hdown, _, hup, by cbv, by cbv⟩
  obtain ⟨htext, hown⟩ := hcanonical _ (hids n hn)
  exact ⟨hplain n hn htext, hown⟩

end Analysis

end ModuleAtlas
