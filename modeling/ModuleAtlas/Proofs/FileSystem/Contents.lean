import ModuleAtlas.Proofs.FileSystem.Descent
import ModuleAtlas.Resolve
import ModuleAtlas.Scan

/-!
# What does not depend on contents

Where paths lead, what a scan comes by and what the name of a module means are questions about
names, directories and links. They have the same answers in a snapshot whose files have been emptied
(`Snapshot.follow_emptied`, by induction on ways; `Scan.walk_emptied`, by induction on trees;
`Resolve.resolve?_emptied`), so two snapshots that are the same but for the content of one file differ
only in what is read from that file (`Snapshot.DifferIn.read_eq`).
-/

namespace ModuleAtlas

namespace Entry

mutual

/-- The tree with nothing in its files. -/
def emptied : Entry → Entry
  | file _ => file []
  | link target => link target
  | directory children readable => directory (emptiedChildren children) readable
  | closed => closed

def emptiedChildren : List (Name × Entry) → List (Name × Entry)
  | [] => []
  | (name, e) :: rest => (name, emptied e) :: emptiedChildren rest

end

variable {name : Name}

theorem lookup_emptiedChildren (children : List (Name × Entry)) :
    (emptiedChildren children).lookup name = (children.lookup name).map emptied := by
  induction children with
  | nil => rfl
  | cons c rest ih =>
    rw [emptiedChildren, List.lookup_cons, List.lookup_cons, ih]
    cases name == c.1 <;> rfl

theorem at?_emptied (e : Entry) (l : Location) : e.emptied.at? l = (e.at? l).map emptied := by
  induction l generalizing e with
  | nil => simp
  | cons name l ih =>
    cases e with
    | file | link | closed => simp [emptied, at?]
    | directory children =>
      rw [emptied, at?_directory, at?_directory, lookup_emptiedChildren]
      cases children.lookup name with
      | none => rfl
      | some inner => exact ih inner

theorem isFile_emptied (e : Entry) : e.emptied.isFile = e.isFile := by
  cases e <;> simp [emptied, isFile]

theorem isDirectory_emptied (e : Entry) : e.emptied.isDirectory = e.isDirectory := by
  cases e <;> simp [emptied, isDirectory]

end Entry

namespace Snapshot

/-- The snapshot with nothing in its files. -/
def emptied (s : Snapshot) : Snapshot := ⟨s.top.emptied, s.working⟩

variable {s t : Snapshot} {l m : Location} {p : Path}

/-! ### Where paths lead -/

theorem turn_emptied (s : Snapshot) (stay : Bool) (links : Nat) (here : Location) (segment : Name) :
    s.emptied.turn stay links here segment = s.turn stay links here segment := by
  rw [turn, turn, emptied, Entry.at?_emptied]
  rcases s.top.at? here with _ | _ | _ | ⟨children, readable⟩ | _
  · rfl
  · simp [Entry.emptied]
  · simp [Entry.emptied]
  · simp only [Option.map_some, Entry.emptied, Entry.lookup_emptiedChildren]
    rcases children.lookup segment with _ | _ | _ | _ | _ <;> simp [Entry.emptied]
  · simp [Entry.emptied]

theorem follow_emptied (s : Snapshot) (last : Bool) (links : Nat) (here : Location)
    (names : List Name) :
    s.emptied.follow last links here names = s.follow last links here names := by
  induction links, names using way_induction generalizing here with
  | nil links => rw [follow, follow]
  | cons links segment rest ih =>
    rw [follow_cons, follow_cons, turn_emptied]
    cases hturn : s.turn (rest.isEmpty && !last) links here segment with
    | error t => rfl
    | ok next =>
      obtain ⟨left, m, front⟩ := next
      exact ih left front (turn_eq_ok hturn).2 m

theorem locateFrom_emptied (s : Snapshot) (last : Bool) (p : Path) :
    s.emptied.locateFrom last p = s.locateFrom last p := by
  simp only [locateFrom, follow_emptied]
  rfl

theorem locate_emptied (s : Snapshot) (p : Path) : s.emptied.locate p = s.locate p :=
  s.locateFrom_emptied true p

theorem canonical_emptied (s : Snapshot) (p : Path) : s.emptied.canonical p = s.canonical p := by
  rw [canonical, canonical, locate_emptied]

theorem entry?_emptied (s : Snapshot) (p : Path) :
    s.emptied.entry? p = (s.entry? p).map Entry.emptied := by
  unfold entry?
  rw [locate_emptied]
  cases s.locate p with
  | error t => rfl
  | ok l => exact Entry.at?_emptied s.top l

theorem ownEntry?_emptied (s : Snapshot) (p : Path) :
    s.emptied.ownEntry? p = (s.ownEntry? p).map Entry.emptied := by
  unfold ownEntry?
  rw [locateFrom_emptied]
  cases s.locateFrom false p with
  | error t => rfl
  | ok l => exact Entry.at?_emptied s.top l

theorem hasEntry_emptied (s : Snapshot) (p : Path) : s.emptied.hasEntry p = s.hasEntry p := by
  rw [hasEntry, hasEntry, entry?_emptied, Option.isSome_map]

theorem isFile_emptied (s : Snapshot) (p : Path) : s.emptied.isFile p = s.isFile p := by
  rw [isFile, isFile, entry?_emptied, Option.any_map]
  simp only [Entry.isFile_emptied]

theorem isDirectory_emptied (s : Snapshot) (p : Path) :
    s.emptied.isDirectory p = s.isDirectory p := by
  rw [isDirectory, isDirectory, entry?_emptied, Option.any_map]
  simp only [Entry.isDirectory_emptied]

end Snapshot

/-! ### What a scan finds -/

namespace Scan

mutual

theorem walk_emptied (settings : ScanSettings) (p : Path) :
    (e : Entry) → walk settings p e.emptied = walk settings p e
  | .file _ | .link _ | .closed => by simp only [Entry.emptied, walk]
  | .directory children readable => by
    rw [Entry.emptied, walk, walk, walkChildren_emptied settings p children]

theorem walkChildren_emptied (settings : ScanSettings) (p : Path) :
    (children : List (Name × Entry)) →
      walkChildren settings p (Entry.emptiedChildren children) = walkChildren settings p children
  | [] => rfl
  | (name, e) :: rest => by
    rw [Entry.emptiedChildren, walkChildren, walkChildren, Entry.isDirectory_emptied,
      walk_emptied settings (p.child name) e, walkChildren_emptied settings p rest]

end

theorem finds_emptied (s : Snapshot) (settings : ScanSettings) (root : Path) (e : Entry) :
    finds s.emptied settings root e.emptied = finds s settings root e := by
  rw [finds, finds, Entry.isDirectory_emptied, walk_emptied, Snapshot.ownEntry?_emptied]
  cases s.ownEntry? root with
  | none => rfl
  | some own => simp only [Option.map_some, walk_emptied]

theorem run_emptied (s : Snapshot) (settings : ScanSettings) (root : Path) :
    run s.emptied settings root = run s settings root := by
  rw [run, run, Snapshot.entry?_emptied]
  cases s.entry? root with
  | none => rfl
  | some e => simp only [Option.map_some, finds_emptied]

end Scan

/-! ### What an import means -/

namespace Resolve

theorem canonical?_emptied (s : Snapshot) (extensions : List String) (p : Path) :
    canonical? s.emptied extensions p = canonical? s extensions p := by
  have hisFile : s.emptied.isFile = s.isFile := funext s.isFile_emptied
  rw [canonical?, canonical?, file?, file?, hisFile, Snapshot.isDirectory_emptied]
  simp only [Snapshot.canonical_emptied]

theorem resolve?_emptied (s : Snapshot) (extensions : List String) (root importer : Path)
    (name : String) :
    resolve? s.emptied extensions root importer name = resolve? s extensions root importer name := by
  simp only [resolve?, canonical?_emptied]

end Resolve

/-! ### One file with another content -/

namespace Snapshot

/-- The snapshots have the same names, directories and links, and the same content in every file but
the one at the location. -/
structure DifferIn (l : Location) (s t : Snapshot) : Prop where
  emptied_eq : s.emptied = t.emptied
  content_iff : ∀ m content, m ≠ l →
    (s.top.at? m = some (.file content) ↔ t.top.at? m = some (.file content))

variable {s t : Snapshot} {l m : Location} {p : Path}

theorem DifferIn.locate_eq (h : DifferIn l s t) (p : Path) : s.locate p = t.locate p := by
  rw [← s.locate_emptied, h.emptied_eq, t.locate_emptied]

theorem DifferIn.at?_eq (h : DifferIn l s t) (m : Location) :
    (s.top.at? m).map Entry.emptied = (t.top.at? m).map Entry.emptied := by
  have htop : s.top.emptied = t.top.emptied := congrArg Snapshot.top h.emptied_eq
  rw [← Entry.at?_emptied, htop, Entry.at?_emptied]

theorem read_of_locate (h : s.locate p = .ok l) : s.read p =
    match s.top.at? l with
    | some (.file content) => .ok content
    | some (.directory _ false) | some .closed => .error .permissionDenied
    | some _ => .error .isADirectory
    | none => .error .noSuchEntry := by
  rw [read, h]
  rfl

/-- What is not read from that file is read the same. -/
theorem DifferIn.read_eq (h : DifferIn l s t) (hp : s.locate p ≠ .ok l) : s.read p = t.read p := by
  cases hm : s.locate p with
  | error trouble =>
    have hm' := (h.locate_eq p).symm.trans hm
    rw [read, read, hm, hm']
    rfl
  | ok m =>
    have hne : m ≠ l := fun hml => hp (hml ▸ hm)
    rw [read_of_locate hm, read_of_locate ((h.locate_eq p).symm.trans hm)]
    have hat := h.at?_eq m
    have hcontent (content : List UInt8) := h.content_iff m content hne
    cases hs : s.top.at? m with
    | none =>
      rw [hs, Option.map_none, eq_comm, Option.map_eq_none_iff] at hat
      rw [hat]
    | some e =>
      rw [hs, Option.map_some, eq_comm, Option.map_eq_some_iff] at hat
      obtain ⟨f, ht, hf⟩ := hat
      rw [ht]
      cases e with
      | file content =>
        cases f <;> simp_all [Entry.emptied]
      | link | closed =>
        cases f <;> simp_all [Entry.emptied]
      | directory children readable =>
        cases readable <;> cases f <;> simp_all [Entry.emptied]

theorem DifferIn.readText_eq (h : DifferIn l s t) (hp : s.locate p ≠ .ok l) :
    s.readText p = t.readText p := by
  rw [readText, readText, h.read_eq hp]

end Snapshot

/-! ### Another content put into a file -/

namespace Entry

variable {name : Name} {e new : Entry} {l m : Location} {content : List UInt8}

theorem lookup_cons_eq_ite (c : Name × Entry) (rest : List (Name × Entry)) (n : Name) :
    (c :: rest).lookup n = if n = c.1 then some c.2 else rest.lookup n := by
  rw [List.lookup_cons]
  by_cases hn : n = c.1
  · rw [if_pos hn, beq_iff_eq.2 hn]
  · rw [if_neg hn, beq_false_of_ne hn]

theorem lookup_setChild (children : List (Name × Entry)) (n : Name) :
    (setChild name e children).lookup n = if n = name then some e else children.lookup n := by
  induction children with
  | nil => exact lookup_cons_eq_ite (name, e) [] n
  | cons c rest ih =>
    rw [setChild]
    by_cases hc : c.1 = name
    · rw [if_pos (beq_iff_eq.2 hc), lookup_cons_eq_ite, lookup_cons_eq_ite, hc]
      split <;> rfl
    · have hne : ¬ (c.1 == name) = true := by simpa using hc
      rw [if_neg hne, lookup_cons_eq_ite, lookup_cons_eq_ite, ih]
      by_cases hn : n = c.1
      · rw [if_pos hn, if_pos hn, if_neg fun h => hc (hn.symm.trans h)]
      · rw [if_neg hn, if_neg hn]

theorem emptiedChildren_setChild {children : List (Name × Entry)} {inner : Entry}
    (hinner : children.lookup name = some inner) (he : e.emptied = inner.emptied) :
    emptiedChildren (setChild name e children) = emptiedChildren children := by
  induction children with
  | nil => simp at hinner
  | cons c rest ih =>
    rw [lookup_cons_eq_ite] at hinner
    rw [setChild]
    by_cases hc : c.1 = name
    · rw [if_pos hc.symm, Option.some.injEq] at hinner
      rw [if_pos (beq_iff_eq.2 hc), emptiedChildren, emptiedChildren, he, ← hinner]
    · have hne : ¬ (c.1 == name) = true := by simpa using hc
      rw [if_neg (Ne.symm hc)] at hinner
      rw [if_neg hne, emptiedChildren, emptiedChildren, ih hinner]

theorem emptied_put (hl : e.at? l = some (.file content)) (hnew : new.emptied = .file []) :
    (put new l e).emptied = e.emptied := by
  induction l generalizing e with
  | nil =>
    obtain rfl := Option.some.inj ((at?_nil e).symm.trans hl)
    rw [put, hnew, emptied]
  | cons name l ih =>
    obtain ⟨children, readable, inner, rfl, hinner, hat⟩ := at?_cons hl
    rw [put, hinner, emptied, emptied]
    exact congrArg (directory · readable) (emptiedChildren_setChild hinner (ih hat))

/-- Files elsewhere stay as they are. -/
theorem at?_put (hl : e.at? l = some (.file content)) (hm : m ≠ l) (content' : List UInt8)
    (other : List UInt8) : (put (.file content') l e).at? m = some (.file other) ↔
      e.at? m = some (.file other) := by
  induction l generalizing e m with
  | nil =>
    obtain ⟨n, m, rfl⟩ := List.exists_cons_of_ne_nil hm
    obtain rfl := Option.some.inj ((at?_nil e).symm.trans hl)
    simp [put, at?]
  | cons name l ih =>
    obtain ⟨children, readable, inner, rfl, hinner, hat⟩ := at?_cons hl
    rw [put, hinner]
    cases m with
    | nil => simp
    | cons n m =>
      rw [at?_directory, at?_directory, lookup_setChild]
      by_cases hn : n = name
      · subst hn
        have hml : m ≠ l := fun h => hm (congrArg (n :: ·) h)
        rw [if_pos rfl, hinner]
        exact ih hat hml
      · rw [if_neg hn]

end Entry

namespace Snapshot

variable {s : Snapshot} {l : Location} {content : List UInt8}

theorem differIn_put (hl : s.top.at? l = some (.file content)) (content' : List UInt8) :
    DifferIn l s { s with top := Entry.put (.file content') l s.top } where
  emptied_eq := by
    rw [emptied, emptied, Entry.emptied_put hl rfl]
  content_iff _ other hm := (Entry.at?_put hl hm content' other).symm

end Snapshot

end ModuleAtlas
