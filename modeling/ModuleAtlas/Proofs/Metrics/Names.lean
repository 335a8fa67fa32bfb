import ModuleAtlas.Proofs.Analysis.Edges
import ModuleAtlas.Proofs.CommandLine.Sessions
import ModuleAtlas.Proofs.FileSystem.Descent
import ModuleAtlas.Proofs.Report.Flags
import ModuleAtlas.Proofs.Text.Encoding

/-!
# Files and texts under a name

A file is measured under its own name, without its directories (`measureFile_eq`). A text is measured
under any name, which may be a whole path; of this, only the directory of tests gives a hint that the
name of the file does not give (`Metrics.hintsOfName_path`). So a file in that directory may be
measured differently if it is read from the standard input (`CommandLine.MetricsOptions.file_and_stdin`).
-/

namespace ModuleAtlas

/-! ### File names -/

namespace Path

variable {p : Path} {name : Name}

/-- What a segment is if it stands for a name. -/
theorem stepOf_eq_named {segment : Name} (h : stepOf segment = some (.named name)) :
    segment = name ∧ isVoid name = false ∧ name ≠ [46, 46] := by
  rw [stepOf] at h
  split at h
  · contradiction
  · next hvoid =>
    split at h
    · cases h
    · next hup =>
      obtain rfl := Component.named.inj (Option.some.inj h)
      exact ⟨rfl, by simpa using hvoid, by simpa using hup⟩

/-- Names among the components come from segments. -/
theorem exists_stepOf (h : .named name ∈ p.components) :
    ∃ segment ∈ p.segments, stepOf segment = some (.named name) := by
  rw [components] at h
  cases hsegments : p.segments with
  | nil => simp [hsegments] at h
  | cons first rest =>
    rw [hsegments] at h
    have hrest (hmem : .named name ∈ rest.filterMap stepOf) :
        ∃ segment ∈ first :: rest, stepOf segment = some (.named name) := by
      obtain ⟨segment, hsegment, hstep⟩ := List.mem_filterMap.1 hmem
      exact ⟨segment, List.mem_cons_of_mem _ hsegment, hstep⟩
    dsimp only at h
    split at h
    · exact hrest (by simpa using h)
    split at h
    · exact hrest (by simpa using h)
    · rcases List.mem_append.1 h with hfirst | hmem
      · exact ⟨first, List.mem_cons_self, by simpa using hfirst⟩
      · exact hrest hmem

/-- A file name is one of the segments, and a proper name. -/
theorem properName_of_fileName? (h : p.fileName? = some name) :
    name ∈ p.segments ∧ ProperName name := by
  have hmem : .named name ∈ p.components := by
    rw [fileName?] at h
    split at h
    · next bs hlast =>
      obtain rfl := Option.some.inj h
      exact List.mem_of_getLast? hlast
    · contradiction
  obtain ⟨segment, hsegment, hstep⟩ := exists_stepOf hmem
  obtain ⟨rfl, hvoid, hup⟩ := stepOf_eq_named hstep
  exact ⟨hsegment, hvoid, hup, (Text.Utf8.piece_of_mem_splitOn hsegment).1⟩

/-- A proper name by itself is a path with this file name. -/
theorem fileName?_name (h : ProperName name) : (Path.mk name).fileName? = some name := by
  have hcomponents : (Path.mk name).components = [.named name] := by
    have hhere : ¬(name == [46]) = true := fun hhere =>
      absurd h.not_void (by rw [eq_of_beq hhere]; decide)
    have hstep : stepOf name = some (.named name) := by
      rw [stepOf, h.not_void, if_neg Bool.false_ne_true, if_neg (by simpa using h.not_up)]
    rw [components, segments_name h]
    dsimp only
    rw [isAbsolute_name h, if_neg Bool.false_ne_true, if_neg hhere, hstep]
    rfl
  rw [fileName?, hcomponents]
  rfl

/-- The file name of a path that is text is text. -/
theorem exists_fileName (name : String) {bs : List UInt8} (h : (ofString name).fileName? = some bs) :
    ∃ base : String, bs = Text.Utf8.encode base ∧ base.toList <:+: name.toList ∧
      (ofString base).fileName? = some bs := by
  obtain ⟨hmem, hproper⟩ := properName_of_fileName? h
  obtain ⟨base, rfl, hpiece⟩ := Text.Utf8.exists_piece (d := '/') (by decide) hmem
  exact ⟨base, rfl, hpiece, fileName?_name hproper⟩

end Path

/-! ### Hints -/

open Metrics

/-- Whether the directory of tests stands in a name. -/
def Metrics.namesTests (name : String) : Bool := Text.occursIn testDirectory.toList name.toList

variable {verdict : Source.Verdict} {name base text : String} {bs : List UInt8}

/-- What stands in the file name stands in the path. -/
theorem Metrics.namesTests_of_piece (h : base.toList <:+: name.toList)
    (hbase : namesTests base = true) : namesTests name = true := by
  rw [namesTests, Text.occursIn_iff] at hbase ⊢
  exact hbase.trans h

/-- The hints by the file name, but for the directory of tests. -/
theorem Metrics.hintsOfName_eq (h : (Path.ofString name).fileName? = some (Text.Utf8.encode base)) :
    Hints.ofName name =
      { component := isComponentName base.toList
        config := isConfigName base.toList
        test := isTestName base.toList || namesTests name
        typed := ["ts", "tsx", "mts", "cts"].contains
          (((Path.ofString base).extension?.bind Text.Utf8.decode?).getD "") } := by
  rw [Hints.ofName, h]
  dsimp only
  rw [Text.Utf8.decodeLossy_encode]
  rfl

section Base

variable (hname : (Path.ofString name).fileName? = some (Text.Utf8.encode base))
  (hbase : (Path.ofString base).fileName? = some (Text.Utf8.encode base))
include hname hbase

/-- Of a path, only the directory of tests gives a hint that the file name does not give. -/
theorem Metrics.hintsOfName_path (hpiece : base.toList <:+: name.toList) : Hints.ofName name =
    { Hints.ofName base with test := (Hints.ofName base).test || namesTests name } := by
  have htest : (namesTests base || namesTests name) = namesTests name :=
    Bool.or_eq_right_iff_imp.2 (namesTests_of_piece hpiece)
  rw [hintsOfName_eq hname, hintsOfName_eq hbase, Bool.or_assoc, htest]

theorem dialect_path : Source.Dialect.ofPath (.ofString name) = .ofPath (.ofString base) := by
  rw [Source.Dialect.ofPath, Source.Dialect.ofPath, Path.extension?, Path.extension?, hname, hbase]

theorem measure_path (hpiece : base.toList <:+: name.toList) : measure verdict name text =
    { measure verdict base text with
      isTest := (measure verdict base text).isTest || namesTests name } := by
  rw [measure, measure, hintsOfName_path hname hbase hpiece, dialect_path hname hbase]
  generalize Hints.ofName base = hints
  cases Source.Reading.of? verdict (.ofPath (.ofString base)) text with
  | error fault => rfl
  | ok reading => simp [Bool.or_right_comm]

end Base

theorem isTest_of_namesTests (h : namesTests name = true) :
    (measure verdict name text).isTest = true := by
  have htest : (Hints.ofName name).test = true := by
    rw [namesTests] at h
    rw [Hints.ofName, h]
    dsimp only
    rw [Bool.or_true]
  rw [measure]
  generalize Hints.ofName name = hints at htest
  dsimp only
  split
  · exact htest
  · rw [htest, Bool.true_or]

/-! ### Files -/

variable {s : Snapshot} {m : FileMetrics}

theorem text_ne_nil_of_readText {p : Path} (h : s.readText p = .ok text) : p.text.isEmpty = false := by
  rw [Bool.eq_false_iff]
  intro hempty
  rw [Snapshot.readText, Snapshot.read, Snapshot.locate, Snapshot.locateFrom, if_pos hempty] at h
  cases h

/-- A file is measured under its own name. -/
theorem measureFile_eq (verdict : Source.Verdict) (h : s.readText (.ofString name) = .ok text)
    (hname : (Path.ofString name).fileName? = some (Text.Utf8.encode base)) :
    measureFile verdict s (.ofString name) = .ok (measure verdict base text) := by
  rw [measureFile, text_ne_nil_of_readText h, h, hname, if_neg Bool.false_ne_true]
  dsimp only
  rw [Text.Utf8.decodeLossy_encode]

/-- Of the hints, only that of the directory of tests is missing then. -/
theorem exists_measureFile (verdict : Source.Verdict) (h : s.readText (.ofString name) = .ok text) :
    ∃ m, measureFile verdict s (.ofString name) = .ok m ∧
      measure verdict name text = { m with isTest := m.isTest || namesTests name } := by
  cases hfile : (Path.ofString name).fileName? with
  | none =>
    refine ⟨measure verdict name text, ?_, ?_⟩
    · have hdisplay : (Path.ofString name).display = name := Text.Utf8.decodeLossy_encode name
      rw [measureFile, text_ne_nil_of_readText h, h, hfile, hdisplay]
      rfl
    · rw [Bool.or_eq_left_iff_imp.2 isTest_of_namesTests]
  | some bs =>
    obtain ⟨base, rfl, hpiece, hbase⟩ := Path.exists_fileName name hfile
    exact ⟨_, measureFile_eq verdict h hfile, measure_path hfile hbase hpiece⟩

/-! ### What is printed -/

namespace CommandLine.MetricsOptions

variable {γ : Type} {w : Surroundings γ} {isPretty : Bool}

theorem run_file {p : Path} (h : measureFile w.verdict w.files p = .ok m) :
    run ⟨.file p, isPretty⟩ w =
      Session.write fun _ => (Report.ofMetrics m).write isPretty ++ "\n" := by
  rw [run, metrics]
  dsimp only
  rw [h]
  rfl

theorem run_stdin (h : Text.Utf8.decode? w.stdin = some text) : run ⟨.stdin name, isPretty⟩ w =
    Session.write fun _ =>
      (Report.ofMetrics (measure w.verdict name text)).write isPretty ++ "\n" := by
  rw [run, metrics]
  dsimp only
  rw [h]
  rfl

/-- A file that is measured by its path, and read from the standard input under that name. The two
agree but for what the directory of tests says: it makes a file one with tests in the second way only.
They print the same if and only if it does not stand in the path, or the file is known to have tests
without it. -/
theorem file_and_stdin (w : Surroundings γ) (name text : String)
    (hread : w.files.read (.ofString name) = .ok w.stdin)
    (htext : Text.Utf8.decode? w.stdin = some text) :
    ∃ m, measureFile w.verdict w.files (.ofString name) = .ok m ∧
      measure w.verdict name text = { m with isTest := m.isTest || namesTests name } ∧
      ∀ isPretty, run ⟨.file (.ofString name), isPretty⟩ w = run ⟨.stdin name, isPretty⟩ w ↔
        (namesTests name = true → m.isTest = true) := by
  have hreadText : w.files.readText (.ofString name) = .ok text :=
    Analysis.readText_eq_ok_iff.2 ⟨_, hread, htext⟩
  obtain ⟨m, hm, hmeasure⟩ := exists_measureFile w.verdict hreadText
  refine ⟨m, hm, hmeasure, fun isPretty => ?_⟩
  have hprinted : run ⟨.file (.ofString name), isPretty⟩ w = run ⟨.stdin name, isPretty⟩ w ↔
      (Report.ofMetrics m).write isPretty =
        (Report.ofMetrics { m with isTest := m.isTest || namesTests name }).write isPretty := by
    rw [run_file hm, run_stdin htext, hmeasure, Session.write_inj, funext_iff]
    simp only [String.append_left_inj, forall_const]
  rw [hprinted, Report.write_isTest_inj m isPretty m.isTest, eq_comm, Bool.or_eq_left_iff_imp]

/-- An empty file in the directory of tests, and nothing on the standard input. -/
def emptyTest (fileName : String) : Surroundings Unit where
  files := ⟨.directory [(Text.Utf8.encode testDirectory,
    .directory [(Text.Utf8.encode fileName, .file [])] true)] true, []⟩
  stdin := []
  colour := false
  verdict _ _ := .ok (.node ⟨.program, none, 0, 0⟩ [])
  readDocument? _ := none
  random := Analysis.zeros

theorem measure_emptyTest (fileName name : String) :
    measure (emptyTest fileName).verdict name "" =
      { complexity := 1, isComponent := (Hints.ofName name).component,
        isConfig := (Hints.ofName name).config, isTest := (Hints.ofName name).test } := by
  have hitems : Source.itemsOf #[] (.node ⟨.program, none, 0, 0⟩ []) = [] := by decide +kernel
  have htally : Tally.ofItems [] = {} := rfl
  have hlines : countLines "" = 0 := by cbv
  rw [measure]
  generalize Hints.ofName name = hints
  simp [emptyTest, Source.Reading.of?, Source.Reading.items, hitems, htally, hlines]

/-- The name of the file says itself that there are tests in it. -/
theorem file_and_stdin_spec :
    (emptyTest "a.spec.ts").files.read (.ofString "__tests__/a.spec.ts") = .ok [] ∧
      Text.Utf8.decode? [] = some "" ∧ ∀ isPretty,
        run ⟨.file (.ofString "__tests__/a.spec.ts"), isPretty⟩ (emptyTest "a.spec.ts") =
          run ⟨.stdin "__tests__/a.spec.ts", isPretty⟩ (emptyTest "a.spec.ts") := by
  have hread : (emptyTest "a.spec.ts").files.read (.ofString "__tests__/a.spec.ts") = .ok [] := by
    cbv
  have htext : Text.Utf8.decode? [] = some "" := rfl
  have hname : (Path.ofString "__tests__/a.spec.ts").fileName? =
      some (Text.Utf8.encode "a.spec.ts") := by cbv
  have hhints : Hints.ofName "a.spec.ts" = ⟨false, false, true, true⟩ := by cbv
  obtain ⟨m, hm, -, hprinted⟩ :=
    file_and_stdin (emptyTest "a.spec.ts") "__tests__/a.spec.ts" "" hread htext
  rw [measureFile_eq _ (Analysis.readText_eq_ok_iff.2 ⟨_, hread, htext⟩) hname,
    measure_emptyTest, hhints] at hm
  obtain rfl := Except.ok.inj hm
  exact ⟨hread, htext, fun isPretty => (hprinted isPretty).2 fun _ => rfl⟩

/-- Of this file only the directory says so, and that does not count. -/
theorem file_and_stdin_differ :
    (emptyTest "a.ts").files.readText (.ofString "__tests__/a.ts") = .ok "" ∧
      measureFile (emptyTest "a.ts").verdict (emptyTest "a.ts").files (.ofString "__tests__/a.ts") =
        .ok { complexity := 1, isTest := false } ∧
      measure (emptyTest "a.ts").verdict "__tests__/a.ts" "" = { complexity := 1, isTest := true } := by
  have hread : (emptyTest "a.ts").files.readText (.ofString "__tests__/a.ts") = .ok "" := by cbv
  have hname : (Path.ofString "__tests__/a.ts").fileName? = some (Text.Utf8.encode "a.ts") := by cbv
  have hhints : Hints.ofName "a.ts" = ⟨false, false, false, true⟩ := by cbv
  have hpath : Hints.ofName "__tests__/a.ts" = ⟨false, false, true, true⟩ := by cbv
  rw [measureFile_eq _ hread hname, measure_emptyTest, measure_emptyTest, hhints, hpath]
  exact ⟨hread, rfl, rfl⟩

end CommandLine.MetricsOptions

end ModuleAtlas
