import Mathlib
import ModuleAtlas.Proofs.FileSystem.Descent
import ModuleAtlas.Proofs.FileSystem.OwnPaths

/-!
# What an import tries

The rules by which the name of a module means a file are nested, but come to one list of paths of
which the first file counts (`resolve?_eq`): an index file can only be there if what it is looked for
in is a directory (`isDirectory_of_isFile_indexOf`). Only from the empty path, which leads nowhere,
another path may be read nevertheless (`index_beside_empty_path`).
-/

namespace ModuleAtlas.Resolve

open Snapshot

/-- All that a path may mean, in this order: the path, the path with an extension, and an index file
in it. -/
def candidates (extensions : List String) (p : Path) : List Path :=
  p :: (extensions.map (withExtension p) ++ extensions.map (indexOf p))

/-- What is tried for a path. The empty path is no directory, so no index file is looked for in
it. -/
def tried (extensions : List String) (p : Path) : List Path :=
  if p.text.isEmpty then p :: extensions.map (withExtension p) else candidates extensions p

/-- All of one kind of list, for the name of a module in a file of a directory: the name is read from
there, and from the root if it begins with a slash, without that slash. -/
def forName (list : Path → List Path) (root directory : Path) (name : String) : List Path :=
  list (directory.join (.ofString name)) ++
    match name.toList with
    | '/' :: rest => list (root.join (.ofString (String.ofList rest)))
    | _ => []

variable {s : Snapshot} {extensions : List String} {root directory importer p q c : Path}
  {name e : String}

/-! ### The list for a path -/

theorem encode_append (a b : String) :
    Text.Utf8.encode (a ++ b) = Text.Utf8.encode a ++ Text.Utf8.encode b := by
  rw [Text.Utf8.encode, String.toList_append, List.flatMap_append]
  rfl

theorem isAbsolute_index (e : String) : (Path.ofString ("index." ++ e)).isAbsolute = false := by
  have hindex : Text.Utf8.encode "index." = [105, 110, 100, 101, 120, 46] := by decide
  rw [Path.isAbsolute, Path.ofString, encode_append, hindex]
  rfl

theorem isDirectory_of_isFile_indexOf (hp : p.text ≠ []) (h : s.isFile (indexOf p e) = true) :
    s.isDirectory p = true := by
  obtain ⟨content, hentry⟩ := isFile_iff.1 h
  obtain ⟨l, hl, -⟩ := entry?_eq_some_iff.1 hentry
  exact isDirectory_of_join hp (isAbsolute_index e) hl

theorem entry?_of_text_eq_nil (hp : p.text = []) : s.entry? p = none := by
  unfold entry?
  rw [locate, locateFrom, hp]
  rfl

/-- The nested rules for a path find the first file of its list. -/
theorem file?_eq_find? (s : Snapshot) (extensions : List String) (p : Path) :
    file? s extensions p = (tried extensions p).find? s.isFile := by
  have hnested : file? s extensions p = (p :: (extensions.map (withExtension p) ++
      if s.isDirectory p then extensions.map (indexOf p) else [])).find? s.isFile := by
    rw [file?, List.find?_cons, List.find?_append]
    cases s.isFile p
    · cases (extensions.map (withExtension p)).find? s.isFile
      · cases s.isDirectory p <;> rfl
      · rfl
    · rfl
  rw [hnested, tried]
  by_cases hp : p.text = []
  · have hnone : s.isDirectory p = false := by
      rw [isDirectory, entry?_of_text_eq_nil hp]
      rfl
    rw [hnone, hp]
    simp
  · have hempty : p.text.isEmpty = false := by simpa using hp
    rw [hempty, candidates, List.find?_cons, List.find?_append]
    simp only [Bool.false_eq_true, if_false]
    rw [List.find?_cons, List.find?_append]
    cases hdir : s.isDirectory p
    · -- what is no directory has no index file in it
      have hindex : (extensions.map (indexOf p)).find? s.isFile = none := by
        refine List.find?_eq_none.2 fun c hc hfile => ?_
        obtain ⟨e, -, rfl⟩ := List.mem_map.1 hc
        rw [isDirectory_of_isFile_indexOf hp hfile] at hdir
        contradiction
      rw [hindex]
      rfl
    · rfl

theorem exists_canonical (h : s.isFile c = true) :
    ∃ l content, s.top.at? l = some (.file content) ∧ s.canonical c = .ok (pathOf l) := by
  obtain ⟨content, hentry⟩ := isFile_iff.1 h
  obtain ⟨l, hl, hat⟩ := entry?_eq_some_iff.1 hentry
  exact ⟨l, content, hat, canonical_eq_ok_iff.2 ⟨l, hl, rfl⟩⟩

/-! ### The list for a name -/

theorem canonical?_eq (s : Snapshot) (extensions : List String) (p : Path) :
    canonical? s extensions p =
      ((tried extensions p).find? s.isFile).bind fun c => (s.canonical c).toOption := by
  rw [canonical?, file?_eq_find?]

/-- The name of a module means the first file of its list. -/
theorem resolve?_eq (hdir : importer.parent? = some directory) (hname : name ≠ "") :
    resolve? s extensions root importer name =
      ((forName (tried extensions) root directory name).find? s.isFile).bind
        fun c => (s.canonical c).toOption := by
  have hempty : name.isEmpty = false := by simpa using hname
  rw [resolve?, hempty, hdir, forName, List.find?_append]
  simp only [Bool.false_eq_true, if_false]
  rw [canonical?_eq]
  cases hfound : (tried extensions (directory.join (.ofString name))).find? s.isFile with
  | some c =>
    obtain ⟨l, -, -, hc⟩ := exists_canonical (List.find?_some hfound)
    simp [hc, Except.toOption]
  | none =>
    simp only [Option.bind_none, Option.none_or, canonical?_eq]
    rcases name.toList with _ | ⟨c, rest⟩
    · rfl
    · by_cases hc : c = '/'
      · subst hc
        rfl
      · simp [hc]

theorem resolve?_eq_some_iff (hdir : importer.parent? = some directory) (hname : name ≠ "") :
    resolve? s extensions root importer name = some q ↔
      ∃ before c behind, forName (tried extensions) root directory name = before ++ c :: behind ∧
        (∀ b ∈ before, s.isFile b = false) ∧ s.isFile c = true ∧ s.canonical c = .ok q := by
  rw [resolve?_eq hdir hname, Option.bind_eq_some_iff]
  simp only [List.find?_eq_some_iff_append, Bool.not_eq_true']
  constructor
  · rintro ⟨c, ⟨hc, before, behind, hlist, hbefore⟩, hq⟩
    refine ⟨before, c, behind, hlist, hbefore, hc, ?_⟩
    obtain ⟨l, -, -, hcanonical⟩ := exists_canonical hc
    rw [hcanonical] at hq ⊢
    exact congrArg Except.ok (Option.some.inj hq)
  · rintro ⟨before, c, behind, hlist, hbefore, hc, hq⟩
    exact ⟨c, ⟨hc, before, behind, hlist, hbefore⟩, by rw [hq]; rfl⟩

theorem resolve?_eq_none_iff (hdir : importer.parent? = some directory) (hname : name ≠ "") :
    resolve? s extensions root importer name = none ↔
      ∀ c ∈ forName (tried extensions) root directory name, s.isFile c = false := by
  rw [resolve?_eq hdir hname, Option.bind_eq_none_iff]
  constructor
  · intro h c hc
    cases hfound : (forName (tried extensions) root directory name).find? s.isFile with
    | none => simpa using List.find?_eq_none.1 hfound c hc
    | some b =>
      obtain ⟨l, -, -, hb⟩ := exists_canonical (List.find?_some hfound)
      have hnone := h b hfound
      rw [hb] at hnone
      contradiction
  · intro h c hc
    have hfile := h c (List.mem_of_find?_eq_some hc)
    rw [List.find?_some hc] at hfile
    contradiction

/-- A directory beside a file of its name with an extension: such a file is meant. -/
theorem resolve?_beside_directory (hdir : importer.parent? = some directory) (hname : name ≠ "")
    (hp : p = directory.join (.ofString name)) (hisdir : s.isDirectory p = true)
    (he : e ∈ extensions) (hfile : s.isFile (withExtension p e) = true) :
    ∃ f ∈ extensions, ∃ q, s.isFile (withExtension p f) = true ∧
      s.canonical (withExtension p f) = .ok q ∧
      resolve? s extensions root importer name = some q := by
  have hnot : s.isFile p = false := by
    obtain ⟨e, hentry, he⟩ := isDirectory_iff.1 hisdir
    rw [isFile, hentry]
    cases e with
    | file | link => contradiction
    | directory | closed => rfl
  obtain ⟨c, hc⟩ : ∃ c, (extensions.map (withExtension p)).find? s.isFile = some c := by
    rw [← Option.isSome_iff_exists, List.find?_isSome]
    exact ⟨_, List.mem_map_of_mem he, hfile⟩
  obtain ⟨f, hf, rfl⟩ := List.mem_map.1 (List.mem_of_find?_eq_some hc)
  obtain ⟨l, -, -, hq⟩ := exists_canonical (List.find?_some hc)
  have hfirst : (tried extensions p).find? s.isFile = some (withExtension p f) := by
    rw [tried, candidates]
    split <;> simp [hnot, hc]
  refine ⟨f, hf, _, List.find?_some hc, hq, ?_⟩
  rw [resolve?_eq hdir hname, forName, ← hp, List.find?_append, hfirst]
  simp [hq, Except.toOption]

/-- For the name of a module in a file of some directory, `forName tried` says which paths are tried,
and in which order: what the name means is the canonical path of the first one that leads to a file,
and without such a one it means nothing. So a file whose name is that of a directory with an extension
goes before all index files of that directory, what is found is the place of a file, and every file of
one directory finds the same. -/
theorem resolve?_first_file (s : Snapshot) (extensions : List String) (root : Path)
    (hdir : importer.parent? = some directory) (hname : name ≠ "") :
    (∀ q, resolve? s extensions root importer name = some q ↔
      ∃ before c behind, forName (tried extensions) root directory name = before ++ c :: behind ∧
        (∀ b ∈ before, s.isFile b = false) ∧ s.isFile c = true ∧ s.canonical c = .ok q) ∧
    (resolve? s extensions root importer name = none ↔
      ∀ c ∈ forName (tried extensions) root directory name, s.isFile c = false) ∧
    (∀ p, p = directory.join (.ofString name) → s.isDirectory p = true →
      ∀ e ∈ extensions, s.isFile (withExtension p e) = true →
        ∃ f ∈ extensions, ∃ q, s.isFile (withExtension p f) = true ∧
          s.canonical (withExtension p f) = .ok q ∧
          resolve? s extensions root importer name = some q) ∧
    (∀ q, resolve? s extensions root importer name = some q →
      ∃ l content, s.top.at? l = some (.file content) ∧ pathOf l = q) ∧
    ∀ other : Path, other.parent? = some directory →
      resolve? s extensions root other name = resolve? s extensions root importer name := by
  refine ⟨fun q => resolve?_eq_some_iff hdir hname, resolve?_eq_none_iff hdir hname, ?_,
    fun q => ownPath_of_resolve?, fun other hother => ?_⟩
  · intro p hp hisdir e he hfile
    exact resolve?_beside_directory hdir hname hp hisdir he hfile
  · rw [resolve?_eq hdir hname, resolve?_eq hother hname]

/-- In /r the files a.ts and c.ts, and a directory c with an index file. -/
def besideSnapshot : Snapshot where
  top := .directory [([114], .directory [([97, 46, 116, 115], .file []),
    ([99], .directory [([105, 110, 100, 101, 120, 46, 116, 115], .file [])] true),
    ([99, 46, 116, 115], .file [])] true)] true
  working := []

/-- The name ./c means the file c.ts and not the index file. -/
theorem resolve?_first_file_beside :
    (Path.ofString "/r/a.ts").parent? = some (.ofString "/r") ∧ "./c" ≠ "" ∧
    besideSnapshot.isFile (.ofString "/r/./c/index.ts") = true ∧
    resolve? besideSnapshot ["js", "ts"] (.ofString "/r") (.ofString "/r/a.ts") "./c" =
      some (.ofString "/r/c.ts") := by
  have hdir : (Path.ofString "/r/a.ts").parent? = some (.ofString "/r") := by cbv
  have hname : "./c" ≠ "" := by decide
  refine ⟨hdir, hname, by cbv, ?_⟩
  obtain ⟨hfirst, -⟩ :=
    resolve?_first_file besideSnapshot ["js", "ts"] (.ofString "/r") hdir hname
  refine (hfirst _).2 ⟨[.ofString "/r/./c", .ofString "/r/./c.js"], .ofString "/r/./c.ts",
    [.ofString "/r/./c/index.js", .ofString "/r/./c/index.ts"], by cbv, ?_, by cbv, by cbv⟩
  rw [List.forall_mem_cons, List.forall_mem_singleton]
  exact ⟨by cbv, by cbv⟩

/-- In the working directory /r a file index.ts. -/
def indexSnapshot : Snapshot where
  top := .directory
    [([114], .directory [([105, 110, 100, 101, 120, 46, 116, 115], .file [])] true)] true
  working := [[114]]

/-- With the empty path as the root, the name / is read as the empty path at last. The path of an
index file read from there leads to a file, but is not tried. -/
theorem index_beside_empty_path :
    (Path.ofString "a.ts").parent? = some ⟨[]⟩ ∧ "/" ≠ "" ∧
    (forName (candidates ["ts"]) ⟨[]⟩ ⟨[]⟩ "/").find? indexSnapshot.isFile =
      some (.ofString "index.ts") ∧
    indexSnapshot.canonical (.ofString "index.ts") = .ok (.ofString "/r/index.ts") ∧
    resolve? indexSnapshot ["ts"] ⟨[]⟩ (.ofString "a.ts") "/" = none := by
  refine ⟨by cbv, by decide, by cbv, by cbv, by cbv⟩

end ModuleAtlas.Resolve
