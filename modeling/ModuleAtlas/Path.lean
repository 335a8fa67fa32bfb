import ModuleAtlas.Text.Utf8

/-!
# Paths

A path keeps the bytes it was written with, but stands for its sequence of components: doubled
separators, separators at the end and inner `.` do not count. Equality (`==`), hashing and order are
those of the components, so `a//b` and `a/./b` are one key of a table; `=` still means the same
bytes.
-/

namespace ModuleAtlas

/-- One step of a path. -/
inductive Component where
  /-- The root of the file system. -/
  | root
  /-- A leading `.` of a relative path. -/
  | here
  | up
  | named (bytes : List UInt8)
deriving DecidableEq, Repr, Hashable, Inhabited

namespace Component

/-- A first rank for the order: the root, `.`, `..`, and last the names. -/
def rank : Component → Nat
  | root => 0
  | here => 1
  | up => 2
  | named _ => 3

def bytes : Component → List UInt8
  | root => [47]
  | here => [46]
  | up => [46, 46]
  | named bs => bs

/-- The order of components: names by their bytes, and all else before them. -/
def compare (c d : Component) : Ordering :=
  (Ord.compare c.rank d.rank).then (List.compareLex Ord.compare c.bytes d.bytes)

instance : Ord Component := ⟨compare⟩

end Component

/-- A path, as it was written. -/
structure Path where
  text : List UInt8
deriving Repr, Inhabited

namespace Path

/-- `/` as a byte. -/
def separator : UInt8 := 47

def ofString (s : String) : Path := ⟨Text.Utf8.encode s⟩

/-- The text of the path, if it is one. -/
def toString? (p : Path) : Option String := Text.Utf8.decode? p.text

/-- The path for people to read. -/
def display (p : Path) : String := Text.Utf8.decodeLossy p.text

def isAbsolute (p : Path) : Bool := p.text.head? == some separator

/-! ### Components -/

/-- What stands between the separators. -/
def segments (p : Path) : List (List UInt8) := p.text.splitOn separator

/-- Whether a segment is no step of a path, wherever it stands but at its beginning. -/
def isVoid (segment : List UInt8) : Bool := segment == [] || segment == [46]

/-- The step that a segment stands for. -/
def stepOf (segment : List UInt8) : Option Component :=
  if isVoid segment then none
  else if segment == [46, 46] then some .up
  else some (.named segment)

/-- The components of a path. -/
def components (p : Path) : List Component :=
  match p.segments with
  | [] => []
  | first :: rest =>
    let steps := rest.filterMap stepOf
    if p.isAbsolute then .root :: steps
    else if first == [46] then .here :: steps
    else (stepOf first).toList ++ steps

instance : BEq Path := ⟨fun p q => p.components == q.components⟩

instance : Hashable Path := ⟨fun p => hash p.components⟩

/-- The order of paths is that of their components, from the first on. -/
instance : Ord Path := ⟨fun p q => List.compareLex compare p.components q.components⟩

theorem beq_iff (p q : Path) : (p == q) = true ↔ p.components = q.components := by
  show (p.components == q.components) = true ↔ _
  simp

instance : EquivBEq Path where
  rfl := by simp [beq_iff]
  symm h := by simp_all [beq_iff]
  trans h k := by simp_all [beq_iff]

instance : LawfulHashable Path where
  hash_eq p q h := by
    have h := (beq_iff p q).1 h
    simp [hash, h]

/-! ### Parts of a path -/

/-- The last component, if it is a name. -/
def fileName? (p : Path) : Option (List UInt8) :=
  match p.components.getLast? with
  | some (.named bs) => some bs
  | _ => none

/-- The name with what stands behind its last dot, which is no first character. -/
def splitName (name : List UInt8) : List UInt8 × Option (List UInt8) :=
  let behind := (name.reverse.takeWhile (· != 46)).reverse
  let before := name.take (name.length - behind.length - 1)
  if behind.length == name.length || before.isEmpty then (name, none) else (before, some behind)

/-- What stands behind the last dot of the file name. -/
def extension? (p : Path) : Option (List UInt8) := p.fileName?.bind fun n => (splitName n).2

/-- A path with the given components. -/
def ofComponents : List Component → Path
  | .root :: rest => ⟨separator :: [separator].intercalate (rest.map Component.bytes)⟩
  | cs => ⟨[separator].intercalate (cs.map Component.bytes)⟩

/-- The path without its last component; the root and the empty path have none. -/
def parent? (p : Path) : Option Path :=
  match p.components.getLast? with
  | none | some .root => none
  | some _ => some (ofComponents p.components.dropLast)

/-- One path read from where another leads: an absolute one replaces it. -/
def join (p q : Path) : Path :=
  if q.isAbsolute then q
  else if p.text.isEmpty then q
  else if p.text.getLast? == some separator then ⟨p.text ++ q.text⟩
  else ⟨p.text ++ separator :: q.text⟩

/-- The path with a name added. -/
def child (p : Path) (name : List UInt8) : Path := p.join ⟨name⟩

/-- The path with text added to its last name. -/
def append (p : Path) (bytes : List UInt8) : Path := ⟨p.text ++ bytes⟩

/-! ### Prefixes -/

/-- Without the segments at the end that do not count. -/
def trimEnd (segments : List (List UInt8)) : List (List UInt8) :=
  (segments.reverse.dropWhile isVoid).reverse

/-- What is left of the segments behind so many components. -/
def dropSteps : Nat → List (List UInt8) → List (List UInt8)
  | 0, segments => segments.dropWhile isVoid
  | n + 1, segments => dropSteps n (segments.dropWhile isVoid).tail

/-- The rest of a path behind a path that it begins with, component by component. -/
def relativeTo? (base p : Path) : Option Path :=
  let steps := base.components
  if !steps.isPrefixOf p.components then none
  else
    let kept := match steps, p.segments with
      | [], first :: segments =>
        match trimEnd segments with
        | [] => if p.isAbsolute then [first, []] else [first]
        | rest => first :: rest
      | .root :: more, _ :: segments | .here :: more, _ :: segments =>
        trimEnd (dropSteps more.length segments)
      | more, segments => trimEnd (dropSteps more.length segments)
    some ⟨[separator].intercalate kept⟩

/-- How a file is called among those below a directory: its path from there, with `/` for every
backslash, or its whole path if it lies elsewhere. -/
def displayName (root p : Path) : String :=
  ((relativeTo? root p).getD p).display.map fun c => if c == '\\' then '/' else c

end Path

end ModuleAtlas
