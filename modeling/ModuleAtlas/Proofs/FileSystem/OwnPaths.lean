import ModuleAtlas.Proofs.FileSystem.Walk
import ModuleAtlas.Resolve

/-!
# Own paths of files

Many paths lead to a file, through links, `.` and `..`, but one of them is its own: that of its
location. A scan of a directory that is given by its own path finds files by their own paths
(`ownPath_of_mem_files`), and what an import means is a file's own path
(`ownPath_of_resolve?`). Own paths are canonical and can be compared as they are written
(`OwnPath.canonical`, `OwnPath.beq_iff`), so both agree on what is one file.
-/

namespace ModuleAtlas

variable {s : Snapshot} {settings : ScanSettings} {extensions : List String} {p q root : Path}
  {l : Location} {e : Entry} {found : Scan.Outcome}

namespace Snapshot

/-- Of the paths that lead to a file, the one of its location. -/
def OwnPath (s : Snapshot) (p : Path) : Prop :=
  ∃ l content, s.top.at? l = some (.file content) ∧ pathOf l = p

variable (hs : s.top.WellFormed)
include hs

theorem OwnPath.beq_iff (hp : s.OwnPath p) (hq : s.OwnPath q) : (p == q) = true ↔ p = q := by
  obtain ⟨l, _, hl, rfl⟩ := hp
  obtain ⟨m, _, hm, rfl⟩ := hq
  rw [pathOf_beq_iff (hs.proper hl) (hs.proper hm)]
  constructor
  · rintro rfl
    rfl
  · intro h
    rw [← pathOf_beq_iff (hs.proper hl) (hs.proper hm), h]
    exact BEq.rfl

/-- The canonical path of an own path is that path, if there is one: a name may be too long to be
looked up. -/
theorem OwnPath.canonical (hp : s.OwnPath p) : (s.canonical p).toOption.getD p = p := by
  obtain ⟨l, content, hl, rfl⟩ := hp
  cases hc : s.canonical (pathOf l) with
  | error t => rfl
  | ok q => exact canonical_pathOf (hs.proper hl) hl (by simp) hc

/-! ### What a scan finds -/

/-- Files are found by the paths of their locations, at whatever location one begins. -/
theorem ownPath_of_mem_walk (he : s.top.at? l = some e)
    (h : .file p ∈ Scan.walk settings (pathOf l) e) : s.OwnPath p := by
  obtain ⟨names, f, hreaches, hf⟩ := (Scan.mem_walk_iff (hs.at? he)).1 h
  have hat : s.top.at? (l ++ names) = some f := by
    rw [Entry.at?_append, he, Option.bind_some, hreaches.at?_eq]
  rw [Scan.below_pathOf (hs.proper hat)] at hf
  obtain ⟨content, rfl, rfl⟩ := Scan.findAt?_eq_file_iff.1 hf
  exact ⟨_, content, hat, rfl⟩

theorem ownPath_of_mem_files (hl : s.top.at? l = some e) (he : e.isDirectory = true)
    (hfound : Scan.run s settings (pathOf l) = .ok found) (hp : p ∈ found.files) :
    s.OwnPath p := by
  obtain ⟨f, hentry, rfl⟩ := Scan.run_eq_ok_iff.1 hfound
  have hlink (target : Path) : e ≠ .link target := by
    rintro rfl
    contradiction
  obtain rfl := entry?_pathOf (hs.proper hl) hl hlink hentry
  rw [Scan.finds, if_pos he] at hp
  exact ownPath_of_mem_walk hs hl (Scan.mem_files_iff.1 hp).2

end Snapshot

/-! ### What an import means -/

namespace Resolve

open Snapshot

theorem isFile_of_file? (h : file? s extensions p = some q) : s.isFile q = true := by
  rw [file?] at h
  split at h
  · next hp => exact Option.some.inj h ▸ hp
  · split at h
    · next hfind => exact Option.some.inj h ▸ List.find?_some hfind
    · split at h
      · exact List.find?_some h
      · contradiction

theorem ownPath_of_canonical? (h : canonical? s extensions p = some q) : s.OwnPath q := by
  obtain ⟨file, hfile, hq⟩ := Option.bind_eq_some_iff.1 h
  obtain ⟨content, hentry⟩ := isFile_iff.1 (isFile_of_file? hfile)
  obtain ⟨l, hl, hat⟩ := entry?_eq_some_iff.1 hentry
  rw [canonical, hl] at hq
  exact ⟨l, content, hat, Option.some.inj hq⟩

theorem ownPath_of_resolve? {name : String} (h : resolve? s extensions root p name = some q) :
    s.OwnPath q := by
  rw [resolve?] at h
  split at h
  · contradiction
  · split at h
    · contradiction
    · split at h
      · next hp => exact Option.some.inj h ▸ ownPath_of_canonical? hp
      · split at h
        · exact ownPath_of_canonical? h
        · contradiction

end Resolve

end ModuleAtlas
