import ModuleAtlas.Proofs.Analysis.Coverage

/-!
# Results in any order

The files of a directory may be looked at side by side, so that what is found in them arrives in any
order. Since no two results are about one path, they can be put in order in one way only
(`sorted_of_perm`): that in which a scan finds the files (`Loads.ascending_results`). From there on
chance has a part only in places that are drawn without a seed (`Graph.arrange?_fresh`), so that an
analysis comes out the same however its results arrive (`run_in_any_order`).
-/

namespace ModuleAtlas

variable {α γ : Type}

/-! ### Chance -/

/-- Nothing that is placed depends on the generator to use without a seed. -/
def LayoutSettings.LeavesNoChance (settings : LayoutSettings α) : Prop :=
  settings.strategy = .layered ∨ ∃ seed, settings.seed = some seed

variable [Scalar α]

theorem Graph.arrange?_fresh {settings : LayoutSettings α} (h : settings.LeavesNoChance)
    (g : Graph α) (r : RandomSource α γ) (fresh : γ) :
    g.arrange? settings { r with fresh } = g.arrange? settings r := by
  rcases h with hlayered | ⟨seed, hseed⟩
  · rw [arrange?, arrange?, hlayered]
  · have hstart : RandomSource.start { r with fresh } settings = r.start settings := by
      rw [RandomSource.start, RandomSource.start, hseed]
    rw [arrange?, arrange?, hstart]

namespace Analysis

open Source

variable {verdict : Verdict} {s : Snapshot} {settings : Settings α} {root dir : Path}
  {found : Scan.Outcome} {load : Path → Loaded} {loaded results : List Loaded}

/-! ### The order of results -/

/-- Each result is about a greater path than the one before it. -/
def Ascending (results : List Loaded) : Prop :=
  results.Pairwise fun a b => compare a.file.path b.file.path = .lt

/-- There is one way to put results in order. -/
theorem sorted_of_perm (h : Ascending results) (hperm : loaded.Perm results) :
    sorted loaded = results := by
  have hsorted : (sorted loaded).Perm results := (List.mergeSort_perm loaded _).trans hperm
  have hleft : (sorted loaded).Pairwise fun a b =>
      (compare a.file.path b.file.path).isLE = true := pairwise_mergeSort_compare _ loaded
  have hright : results.Pairwise fun a b => (compare a.file.path b.file.path).isLE = true :=
    h.imp fun hlt => by rw [hlt]; rfl
  refine hsorted.eq_of_pairwise (fun a b ha hb hab hba => ?_) hleft hright
  exact eq_of_compare_eq h (hsorted.subset ha) hb (Std.OrientedCmp.isLE_antisymm hab hba)

/-- The results for the files of a scan, one by one, are in order. -/
theorem Loads.ascending_results (h : Loads s found load) : Ascending (found.files.map load) := by
  refine List.pairwise_map.2 (h.ascending.imp_of_mem fun {p q} hp hq hlt => ?_)
  rwa [h.path_load p hp, h.path_load q hq]

/-! ### The whole analysis -/

theorem ofLoaded_fresh (h : settings.layout.LeavesNoChance) (r : RandomSource α γ) (fresh : γ)
    (root : Path) (before : List Warning) (loaded : List Loaded) :
    ofLoaded settings { r with fresh } root before loaded =
      ofLoaded settings r root before loaded := by
  rw [ofLoaded, ofLoaded, Graph.arrange?_fresh h]

theorem ofLoaded_congr (h : sorted loaded = sorted results) (r : RandomSource α γ) (root : Path)
    (before : List Warning) :
    ofLoaded settings r root before loaded = ofLoaded settings r root before results := by
  rw [ofLoaded, ofLoaded, h]

/-- Let the results for the files of a directory arrive in any order, with nothing left to chance.
They are put in the order of the scan, and what is made of them, be it a graph with its marks, roles
and places, with sums and warnings, or a failure, is what an analysis makes of the files one by one,
whatever the generators to use without a seed are. -/
theorem run_in_any_order (hs : s.top.WellFormed) (verdict : Verdict) (r : RandomSource α γ)
    (hroot : rootOf s dir = .ok root) (hfound : Scan.run s settings.scan root = .ok found)
    (hloaded : loaded.Perm (found.files.map (loadFile verdict s settings.scan.extensions root)))
    (hchance : settings.layout.LeavesNoChance) (fresh : γ) :
    sorted loaded = found.files.map (loadFile verdict s settings.scan.extensions root) ∧
    ofLoaded settings { r with fresh } root found.warnings loaded =
      run verdict r s settings dir := by
  obtain ⟨-, d, e, hat, he, rfl⟩ := canonical_of_rootOf hroot
  have hascending := (loads hs hat he hfound rfl :
    Loads s found (loadFile verdict s settings.scan.extensions _)).ascending_results
  have hsorted := sorted_of_perm hascending hloaded
  refine ⟨hsorted, ?_⟩
  rw [run_eq hroot hfound, ofLoaded_fresh hchance]
  exact ofLoaded_congr (hsorted.trans (sorted_of_perm hascending (.refl _)).symm) r _ _

/-- Places are drawn from a given seed. -/
def seededSettings : Settings Float :=
  let settings : Settings Float := .standard
  { settings with layout := { settings.layout with strategy := .zoned, seed := some 7 } }

/-- A source that counts what is drawn from it. -/
def tally (fresh : Nat) : RandomSource Float Nat := ⟨fun s => (0, s + 1), UInt64.toNat, fresh⟩

/-- What is found in that file of /r. -/
def flawedResult (p : Path) : Loaded :=
  loadFile flawedVerdict flawedSnapshot ScanSettings.standard.extensions (.ofString "/r") p

/-- The last of the three files is done first. -/
theorem run_in_any_order_backwards :
    sorted [flawedResult (.ofString "/r/c.ts"), flawedResult (.ofString "/r/b.ts"),
        flawedResult (.ofString "/r/a.ts")] =
      [flawedResult (.ofString "/r/a.ts"), flawedResult (.ofString "/r/b.ts"),
        flawedResult (.ofString "/r/c.ts")] ∧
    ofLoaded seededSettings (tally 5) (.ofString "/r")
        [⟨.ofString "/r/d", .unlisted (.ofString "/r/d") .permissionDenied⟩]
        [flawedResult (.ofString "/r/c.ts"), flawedResult (.ofString "/r/b.ts"),
          flawedResult (.ofString "/r/a.ts")] =
      run flawedVerdict (tally 0) flawedSnapshot seededSettings (.ofString "/r") := by
  have hroot : rootOf flawedSnapshot (.ofString "/r") = .ok (.ofString "/r") := by cbv
  have hchance : seededSettings.layout.LeavesNoChance := .inr ⟨7, rfl⟩
  exact run_in_any_order wellFormed_flawedSnapshot flawedVerdict (tally 0) hroot
    run_scan_flawedSnapshot (List.reverse_perm _) hchance 5

end Analysis

end ModuleAtlas
