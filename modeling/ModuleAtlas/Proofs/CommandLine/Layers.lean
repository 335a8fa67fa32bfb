import ModuleAtlas.Config.Document
import ModuleAtlas.Proofs.CommandLine.Endings
import ModuleAtlas.Proofs.Config.Keys

/-!
# Layers of settings

Each setting of an analysis is what an option says, or else what the document says, or else what it
always is (`AnalyzeOptions.settings_layered`). There is only one document that counts, and it counts
as a whole: `Surroundings.Holds` says that one with settings stands at a path. If it is named, then
there must be one. The document at the root is looked at only if none is named, and then it need not
be there.
-/

namespace ModuleAtlas

namespace CommandLine

open Config

variable {γ : Type}

namespace Surroundings

/-- The surroundings where a text is the document that `parse?` makes of it. -/
def parsing (w : Surroundings γ) (parse? : String → Option Value) : Surroundings γ :=
  { w with readDocument? := fun text => (parse? text).bind settingsOf? }

/-- At a path there is a text, and this document, which has settings, is made of it. -/
def Holds (w : Surroundings γ) (parse? : String → Option Value) (p : Path) (document : Value) :
    Prop :=
  ∃ text, w.files.readText p = .ok text ∧ parse? text = some document ∧ document.Fit

variable {w : Surroundings γ} {parse? : String → Option Value} {p : Path} {document : Value}

theorem exists_settings_of_holds (h : w.Holds parse? p document) :
    ∃ text base, w.files.readText p = .ok text ∧
      (w.parsing parse?).readDocument? text = some base ∧ settingsOf? document = some base := by
  obtain ⟨text, htext, hparse, hfit⟩ := h
  obtain ⟨base, hbase⟩ := Value.fit_iff.1 hfit
  exact ⟨text, base, htext, Option.bind_eq_some_iff.2 ⟨document, hparse, hbase⟩, hbase⟩

theorem unusable_of_not_holds (h : ∀ document, ¬w.Holds parse? p document) :
    (w.parsing parse?).Unusable p := by
  cases htext : w.files.readText p with
  | error t => exact .unreadable htext
  | ok text =>
    refine .malformed htext (Option.bind_eq_none_iff.2 fun document hparse => ?_)
    refine Option.eq_none_iff_forall_ne_some.2 fun base hbase => ?_
    exact h document ⟨text, htext, hparse, Value.fit_iff.2 ⟨base, hbase⟩⟩

end Surroundings

namespace AnalyzeOptions

variable {o : AnalyzeOptions} {w w' : Surroundings γ} {parse? : String → Option Value} {p : Path}
  {document : Value} {s t base : Settings Float} {f : Failure}

/-- What an option says a setting is. -/
def flag (o : AnalyzeOptions) : (k : Key) → Option k.Kind
  | .strategy => o.layout
  | .seed => o.seed.map some
  | _ => none

/-- Each setting is what an option says, or else what is said below; there are no other settings of
which this is true (`Layers.unique`). -/
def Layers (o : AnalyzeOptions) (below : (k : Key) → Option k.Kind) (s : Settings Float) : Prop :=
  ∀ k : Key, (o.flag k).or (below k) = some (k.get s)

/-- Nothing is left open. -/
theorem Layers.unique {below : (k : Key) → Option k.Kind} (hs : o.Layers below s)
    (ht : o.Layers below t) : s = t :=
  eq_of_get fun k => Option.some.inj ((hs k).symm.trans (ht k))

/-- An option changes its own setting and no other. -/
theorem get_override (o : AnalyzeOptions) (s : Settings Float) (k : Key) :
    k.get (o.override s) = (o.flag k).getD (k.get s) := by
  cases k with
  | seed => cases hseed : o.seed <;> simp [Key.get, override, flag, hseed]
  | _ => rfl

theorem layers_override (o : AnalyzeOptions) (s : Settings Float) :
    o.Layers (fun k => some (k.get s)) (o.override s) := by
  intro k
  rw [get_override]
  cases o.flag k <;> rfl

theorem layers_asked (h : settingsOf? document = some base) :
    o.Layers (·.asked? document) (o.override base) := by
  intro k
  dsimp only
  rw [settingsOf?_eq_some_iff.1 h k]
  exact layers_override o base k

/-! ### Documents -/

/-- The document that counts is the named one, or the one at the root if none is named. -/
theorem settings_of_holds (h : w.Holds parse? (o.config.getD (o.document w)) document) :
    ∃ s, o.settings (w.parsing parse?) = .ok s ∧ o.Layers (·.asked? document) s := by
  obtain ⟨text, base, htext, hread, hbase⟩ := Surroundings.exists_settings_of_holds h
  refine ⟨o.override base, ?_, layers_asked hbase⟩
  cases hconfig : o.config with
  | some p =>
    rw [hconfig] at htext
    have htext : (w.parsing parse?).files.readText p = .ok text := htext
    rw [settings_of_named hconfig, loadNamed, htext]
    simp only [hread]
    rfl
  | none =>
    rw [hconfig] at htext
    have htext : (w.parsing parse?).files.readText
        ((o.root (w.parsing parse?)).join (.ofString documentName)) = .ok text := htext
    rw [settings, hconfig, load, loadImplied, htext]
    simp only [hread]
    rfl

/-- Nothing but what is at the named path counts. -/
theorem settings_congr (hconfig : o.config = some p)
    (h : w'.files.readText p = w.files.readText p) (hread : w'.readDocument? = w.readDocument?) :
    o.settings w' = o.settings w := by
  rw [settings_of_named hconfig, settings_of_named hconfig, loadNamed, loadNamed, h, hread]

/-- A failure to load settings ends the command before it has written anything. -/
theorem run_of_settings_error (h : o.settings w = .error f) :
    (Command.analyze o).run w = throw (.failure f) := by
  rw [Command.run, run, analysis, h]
  rfl

/-- Each setting of an analysis is what an option says, or else what the document says that is
named, or the one at the root if none is named, or else the standard one. A document that is named
must be there and fit, and nothing else is looked at then; the one at the root is left out as a
whole if it is not there or does not fit. Only a document that is named keeps an analysis from
having settings. -/
theorem settings_layered (o : AnalyzeOptions) (w : Surroundings γ)
    (parse? : String → Option Value) :
    (∀ document, w.Holds parse? (o.config.getD (o.document w)) document →
      ∃ s, o.settings (w.parsing parse?) = .ok s ∧ o.Layers (·.asked? document) s) ∧
    (∀ p, o.config = some p →
      ((∀ document, ¬w.Holds parse? p document) →
        o.settings (w.parsing parse?) = .error (.input (w.fault p))) ∧
      ∀ w' : Surroundings γ, w'.files.readText p = w.files.readText p →
        o.settings (w'.parsing parse?) = o.settings (w.parsing parse?)) ∧
    (o.config = none → (∀ document, ¬w.Holds parse? (o.document w) document) →
      ∃ s, o.settings (w.parsing parse?) = .ok s ∧
        o.Layers (fun k => some (k.get .standard)) s) ∧
    (∀ s, o.settings (w.parsing parse?) = .ok s → o.analysis (w.parsing parse?) =
      Analysis.run w.verdict w.random w.files s (o.root w) >>= fun a => match o.focus with
        | some p => Analysis.focusOn w.files s.layout p a
        | none => .ok a) ∧
    ∀ f, load (w.parsing parse?).readDocument? w.files (o.root w) o.config = .error f →
      (∃ p, o.config = some p ∧ (∀ document, ¬w.Holds parse? p document) ∧
        f = .input (w.fault p)) ∧
      (Command.analyze o).run (w.parsing parse?) = throw (.failure f) := by
  have hnamed {p : Path} (hconfig : o.config = some p)
      (h : ∀ document, ¬w.Holds parse? p document) :
      o.settings (w.parsing parse?) = .error (.input (w.fault p)) :=
    settings_of_named_unusable hconfig (Surroundings.unusable_of_not_holds h)
  refine ⟨fun document => settings_of_holds,
    fun p hconfig => ⟨hnamed hconfig, fun w' h => settings_congr hconfig h rfl⟩,
    fun hconfig h => ?_, fun s h => analysis_eq h rfl, fun f hload => ?_⟩
  · have hstandard := settings_of_unusable hconfig (Surroundings.unusable_of_not_holds h)
    exact ⟨o.override .standard, hstandard, layers_override o .standard⟩
  · have hsettings : o.settings (w.parsing parse?) = .error f :=
      congrArg (Except.map o.override) hload
    refine ⟨?_, run_of_settings_error hsettings⟩
    have hnone (document : Value) : ¬w.Holds parse? (o.config.getD (o.document w)) document := by
      intro hdocument
      obtain ⟨s, hs, -⟩ := settings_of_holds hdocument
      rw [hsettings] at hs
      contradiction
    cases hconfig : o.config with
    | none =>
      rw [hconfig] at hload
      contradiction
    | some p =>
      rw [hconfig] at hnone
      rw [hnamed hconfig hnone] at hsettings
      exact ⟨p, rfl, hnone, (Except.error.inj hsettings).symm⟩

/-- A text that sets the strategy. -/
def zonedText : String := "[layout]\nstrategy = 'zoned'"

/-- One that also sets the seed, but not to a number. -/
def unfitText : String := "[layout]\nstrategy = 'zoned'\nseed = 'none'"

/-- The first of them in a file /c, the second one at the root /r. -/
def layeredSnapshot : Snapshot where
  top := .directory [([99], .file (Text.Utf8.encode zonedText)),
    ([114], .directory [(Text.Utf8.encode documentName, .file (Text.Utf8.encode unfitText))] true)]
    true
  working := []

def layeredSurroundings : Surroundings Unit where
  files := layeredSnapshot
  stdin := []
  colour := false
  verdict := Analysis.flawedVerdict
  readDocument? := fun _ => none
  random := Analysis.zeros

/-- An analysis of /r. -/
def plain : AnalyzeOptions := { path := some (.ofString "/r") }

/-- The same with the document /c and a seed. -/
def seeded : AnalyzeOptions := { plain with config := some (.ofString "/c"), seed := some 5 }

/-- The named document is used, with the seed of the option; of the one at the root nothing is. -/
theorem settings_layered_zoned :
    (∃ s, seeded.settings (layeredSurroundings.parsing Document.parse?) = .ok s ∧
      s.layout.strategy = .zoned ∧ s.layout.seed = some 5 ∧ s.layout.iterations = 300) ∧
    ∃ s, plain.settings (layeredSurroundings.parsing Document.parse?) = .ok s ∧
      s.layout.strategy = .layered ∧ s.layout.seed = none := by
  have hzoned : layeredSurroundings.Holds Document.parse? (.ofString "/c")
      (.table .header [("layout", .table .header [("strategy", .text "zoned")])]) :=
    ⟨zonedText, by cbv, by cbv, Value.fit_iff.2 ⟨_, rfl⟩⟩
  have hunfit (document : Value) :
      ¬layeredSurroundings.Holds Document.parse? (plain.document layeredSurroundings) document := by
    have hread : layeredSurroundings.files.readText (plain.document layeredSurroundings) =
        .ok unfitText := by cbv
    have hparse : Document.parse? unfitText = some (.table .header [("layout",
        .table .header [("strategy", .text "zoned"), ("seed", .text "none")])]) := by
      cbv
    rintro ⟨text, htext, hdocument, hfit⟩
    obtain rfl := Except.ok.inj (hread.symm.trans htext)
    obtain rfl := Option.some.inj (hparse.symm.trans hdocument)
    exact hfit .seed rfl
  obtain ⟨hnamed, -⟩ := settings_layered seeded layeredSurroundings Document.parse?
  obtain ⟨-, -, himplied, -⟩ := settings_layered plain layeredSurroundings Document.parse?
  obtain ⟨s, hs, hlayers⟩ := hnamed _ hzoned
  obtain ⟨t, ht, hstandard⟩ := himplied rfl hunfit
  exact ⟨⟨s, hs, (Option.some.inj (hlayers .strategy)).symm, (Option.some.inj (hlayers .seed)).symm,
      (Option.some.inj (hlayers .iterations)).symm⟩,
    t, ht, (Option.some.inj (hstandard .strategy)).symm, (Option.some.inj (hstandard .seed)).symm⟩

end AnalyzeOptions

end CommandLine

end ModuleAtlas
