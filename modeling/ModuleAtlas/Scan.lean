import ModuleAtlas.Config.Settings
import ModuleAtlas.Failure

/-!
# The files of a directory

A walk through a directory comes by the files in it and by the directories that cannot be listed, the
entries of each directory in the order of their names. Directories with an ignored name are passed by,
and links are neither files nor followed, but for the root itself, which may be given by a link. Of
the files, those with a supported extension are kept; of the directories that cannot be listed, each
is worth a warning.

* `Scan.walk` goes through an entry;
* `Scan.run` is the whole scan of a root.
-/

namespace ModuleAtlas.Scan

/-- What a walk comes by. -/
inductive Find where
  | file (p : Path)
  /-- A directory that cannot be listed. -/
  | denied (p : Path)
deriving Repr, Inhabited

namespace Find

def path : Find → Path
  | file p | denied p => p

/-- The path of a file that is to be read. -/
def supported? (settings : ScanSettings) : Find → Option Path
  | file p => if settings.isSupported p then some p else none
  | denied _ => none

def warning? : Find → Option Warning
  | file _ => none
  | denied p => some ⟨p, .unlisted p .permissionDenied⟩

end Find

/-- What is found in the entries of a directory, one entry after the other in the order of their
names. -/
def inOrder (found : List (Name × List Find)) : List Find :=
  (found.mergeSort fun a b => (compare a.1 b.1).isLE).flatMap (·.2)

mutual

/-- What is found at the path of an entry and below. -/
def walk (settings : ScanSettings) (p : Path) : Entry → List Find
  | .file _ => [.file p]
  | .link _ => []
  | .directory children readable =>
    if readable then inOrder (walkChildren settings p children) else [.denied p]
  | .closed => [.denied p]

/-- What is found in each entry of a directory, with its name. -/
def walkChildren (settings : ScanSettings) (p : Path) :
    List (Name × Entry) → List (Name × List Find)
  | [] => []
  | (name, e) :: rest =>
    let found :=
      if e.isDirectory && settings.isIgnored (Text.Utf8.decodeLossy name) then []
      else walk settings (p.child name) e
    (name, found) :: walkChildren settings p rest

end

/-- What a scan gives. -/
structure Outcome where
  files : List Path
  warnings : List Warning
deriving Repr, Inhabited

/-- In the order of paths. -/
def sorted (paths : List Path) : List Path := paths.mergeSort fun p q => (compare p q).isLE

/-- The supported files among the findings of a walk, sorted, and its warnings as they came. -/
def outcomeOf (settings : ScanSettings) (found : List Find) : Outcome where
  files := sorted (found.filterMap (Find.supported? settings))
  warnings := found.filterMap Find.warning?

/-- What a walk from a root comes by, which leads to the given entry. A root that is a link is
followed only to a directory. -/
def finds (s : Snapshot) (settings : ScanSettings) (root : Path) (e : Entry) : List Find :=
  if e.isDirectory then walk settings root e
  else
    match s.ownEntry? root with
    | some own => walk settings root own
    | none => []

/-- The scan of a root. -/
def run (s : Snapshot) (settings : ScanSettings) (root : Path) : Except Failure Outcome :=
  match s.entry? root with
  | none => .error (.notFound .directory root)
  | some e => .ok (outcomeOf settings (finds s settings root e))

end ModuleAtlas.Scan
