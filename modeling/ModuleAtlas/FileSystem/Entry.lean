import ModuleAtlas.Path

/-!
# Trees of files

A file tree as it is at one moment: files with their bytes, links with the path that they lead to,
and directories with what is in them, by name, as far as that can be found out. A `Location` is the
way from the top of a tree to an entry, name by name, without links.
-/

namespace ModuleAtlas

/-- The name of an entry in its directory. -/
abbrev Name := List UInt8

/-- The names on the way from the top. -/
abbrev Location := List Name

inductive Entry where
  | file (content : List UInt8)
  | link (target : Path)
  /-- Each entry can be looked up by its name, but only if the directory is readable can the names be
  asked for. -/
  | directory (children : List (Name × Entry)) (readable : Bool)
  /-- A directory in which nothing can be looked up. -/
  | closed
deriving Inhabited

namespace Entry

def isDirectory : Entry → Bool
  | directory _ _ | closed => true
  | _ => false

def isFile : Entry → Bool
  | file _ => true
  | _ => false

/-- The entry at a location; links are not followed. -/
def at? : Entry → Location → Option Entry
  | e, [] => some e
  | directory children _, name :: rest =>
    match children.lookup name with
    | some e => at? e rest
    | none => none
  | _, _ :: _ => none

/-- The children of a directory with the one of the given name replaced, or added. -/
def setChild (name : Name) (e : Entry) : List (Name × Entry) → List (Name × Entry)
  | [] => [(name, e)]
  | (n, f) :: rest => if n == name then (n, e) :: rest else (n, f) :: setChild name e rest

/-- The tree with an entry put at a location; directories on the way that are not there are made. -/
def put (new : Entry) : Location → Entry → Entry
  | [], _ => new
  | name :: rest, directory children readable =>
    let inner := (children.lookup name).getD (directory [] true)
    directory (setChild name (put new rest inner) children) readable
  | _ :: _, e => e

/-- The tree without the entry at a location. -/
def erase : Location → Entry → Entry
  | [name], directory children readable => directory (children.filter fun c => c.1 != name) readable
  | name :: rest, directory children readable =>
    match children.lookup name with
    | some inner => directory (setChild name (erase rest inner) children) readable
    | none => directory children readable
  | _, e => e

end Entry

end ModuleAtlas
