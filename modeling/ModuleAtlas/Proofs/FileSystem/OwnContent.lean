import ModuleAtlas.Proofs.FileSystem.Contents

/-!
# Reading by own paths

Where every name can be looked up (`Entry.NamesFit`), what is no link is found by the path of its
location (`Snapshot.locate_pathOf`), so a file is read by its own path, and what is read is what the
file holds (`Snapshot.Holds.read_eq`).
-/

namespace ModuleAtlas

/-- No name in the tree is longer than one that can be looked up, as any file system sees to it. -/
def Entry.NamesFit (e : Entry) : Prop :=
  ∀ l f, e.at? l = some f → ∀ name ∈ l, name.length ≤ Snapshot.maxName

namespace Entry

variable {e : Entry} {children : List (Name × Entry)} {readable : Bool}

theorem namesFit_of_leaf (h : ∀ children readable, e ≠ directory children readable) :
    e.NamesFit := by
  intro l f hat
  cases l with
  | nil => simp
  | cons name l =>
    obtain ⟨_, _, _, he, -⟩ := at?_cons hat
    exact absurd he (h _ _)

theorem namesFit_directory
    (h : ∀ c ∈ children, c.1.length ≤ Snapshot.maxName ∧ c.2.NamesFit) :
    (directory children readable).NamesFit := by
  intro l f hat
  cases l with
  | nil => simp
  | cons name l =>
    obtain ⟨_, _, inner, heq, hlookup, hinner⟩ := at?_cons hat
    obtain ⟨rfl, -⟩ := directory.inj heq
    obtain ⟨hname, hfit⟩ := h _ (mem_of_lookup hlookup)
    exact List.forall_mem_cons.2 ⟨hname, hfit l f hinner⟩

end Entry

namespace Snapshot

variable {s : Snapshot} {l here : Location} {names : List Name} {p : Path} {e : Entry}
  {content : List UInt8} {last : Bool} {links : Nat}

/-- By its own path, a file has that content. -/
def Holds (s : Snapshot) (p : Path) (content : List UInt8) : Prop :=
  ∃ l, s.top.at? l = some (.file content) ∧ pathOf l = p

/-- Names that can be looked up lead to the entry of that location. -/
theorem follow_names_of_fit (hn : ∀ n ∈ names, ProperName n)
    (hfit : ∀ n ∈ names, n.length ≤ maxName) (he : s.top.at? (here ++ names) = some e)
    (hlink : ∀ target, e ≠ .link target) :
    s.follow last links here names = .ok (here ++ names) := by
  induction names generalizing here with
  | nil => rw [follow, List.append_nil]
  | cons name rest ih =>
    obtain ⟨hname, hrest⟩ := List.forall_mem_cons.1 hn
    obtain ⟨hshort, hfit⟩ := List.forall_mem_cons.1 hfit
    have hat := he
    rw [Entry.at?_append] at hat
    obtain ⟨d, hd, hat⟩ := Option.bind_eq_some_iff.1 hat
    obtain ⟨children, readable, inner, rfl, hinner, hat⟩ := Entry.at?_cons hat
    rw [List.append_cons] at he ⊢
    have hnext := ih hrest hfit he
    rw [follow, hd]
    simp only [hname.not_void, hname.not_up, Nat.not_lt.2 hshort, hinner, beq_iff_eq,
      Bool.false_eq_true, if_false]
    cases inner with
    | link target =>
      cases rest with
      | nil =>
        rw [Entry.at?_nil, Option.some.injEq] at hat
        exact absurd hat.symm (hlink target)
      | cons => simp [Entry.at?] at hat
    | file | directory | closed => exact hnext

/-- What is no link is found by the path of its location, if there is a directory at the top. -/
theorem locate_pathOf (hs : s.top.WellFormed) (hfit : s.top.NamesFit)
    (htop : s.top.isDirectory = true) (hat : s.top.at? l = some e)
    (hlink : ∀ target, e ≠ .link target) : s.locate (pathOf l) = .ok l := by
  have hvoid (names : List Name) :
      s.follow true maxLinks [] ([] :: names) = s.follow true maxLinks [] names :=
    follow_void (Entry.at?_nil s.top) htop
  show s.follow true maxLinks [] (pathOf l).segments = .ok l
  by_cases hl : l = []
  · rw [hl, segments_pathOf_nil, hvoid, hvoid, follow]
  · rw [segments_pathOf (hs.proper hat) hl, hvoid]
    exact follow_names_of_fit (hs.proper hat) (hfit l e hat) hat hlink

theorem isDirectory_top (hat : s.top.at? l = some e) (he : e.isDirectory = true) :
    s.top.isDirectory = true := by
  cases l with
  | nil =>
    rw [Entry.at?_nil] at hat
    exact Option.some.inj hat ▸ he
  | cons name l =>
    obtain ⟨children, readable, _, htop, -⟩ := Entry.at?_cons hat
    rw [htop]
    rfl

theorem Holds.read_eq (h : s.Holds p content) (hs : s.top.WellFormed) (hfit : s.top.NamesFit)
    (htop : s.top.isDirectory = true) : s.read p = .ok content := by
  obtain ⟨l, hat, rfl⟩ := h
  rw [read_of_locate (locate_pathOf hs hfit htop hat (by simp)), hat]

/-- Of one file there is one content. -/
theorem Holds.unique {other : List UInt8} (h : s.Holds p content) (h' : s.Holds p other)
    (hs : s.top.WellFormed) : content = other := by
  obtain ⟨l, hl, rfl⟩ := h
  obtain ⟨m, hm, hml⟩ := h'
  have hbeq : (pathOf m == pathOf l) = true := by
    rw [hml]
    exact BEq.rfl
  obtain rfl := (pathOf_beq_iff (hs.proper hm) (hs.proper hl)).1 hbeq
  exact Entry.file.inj (Option.some.inj (hl.symm.trans hm))

end Snapshot

end ModuleAtlas
