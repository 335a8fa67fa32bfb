import ModuleAtlas.Source.Reading

/-!
# Imports of a file

* `localImports` are the modules that a file names by a path, in the order of the text.
-/

namespace ModuleAtlas

open Source

/-- Whether a module is named by a path, relative or absolute, and not by the name of a package. -/
def isLocalName (name : String) : Bool :=
  match name.toList with
  | c :: _ => c == '.' || c == '/'
  | [] => false

/-- The modules that a list of items names by a path. -/
def localNames (items : List Item) : List String :=
  (items.filterMap Item.module?).filter isLocalName

/-- The modules that a file imports, or exports again, by a path; the path of the file decides only
in which dialect it is read first. -/
def localImports (verdict : Verdict) (path : Path) (text : String) : Except Fault (List String) :=
  (Reading.of? verdict (.ofPath path) text).map fun r => localNames r.items

end ModuleAtlas
