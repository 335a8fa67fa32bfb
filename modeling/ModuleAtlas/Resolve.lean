import ModuleAtlas.FileSystem.Snapshot

/-!
# What an import means

The name of a module in an import is a path from the directory of the importing file. It means the
file at that path; else the file whose name has one of the extensions in addition; else the file
`index` with one of the extensions in the directory at that path. A name that starts with `/` is read
as an absolute path first and then from the root of the project.
-/

namespace ModuleAtlas.Resolve

/-- The path with an extension added. -/
def withExtension (p : Path) (extension : String) : Path :=
  p.append (Text.Utf8.encode ("." ++ extension))

/-- The index file of a directory with an extension. -/
def indexOf (p : Path) (extension : String) : Path := p.join (.ofString ("index." ++ extension))

/-- The file that a path means. -/
def file? (s : Snapshot) (extensions : List String) (p : Path) : Option Path :=
  if s.isFile p then some p
  else
    match (extensions.map (withExtension p)).find? s.isFile with
    | some q => some q
    | none =>
      if s.isDirectory p then (extensions.map (indexOf p)).find? s.isFile
      else none

/-- The canonical path of the file that a path means. -/
def canonical? (s : Snapshot) (extensions : List String) (p : Path) : Option Path :=
  (file? s extensions p).bind fun q => (s.canonical q).toOption

/-- The file that the name of a module means in a file of a project. -/
def resolve? (s : Snapshot) (extensions : List String) (root importer : Path) (name : String) :
    Option Path :=
  if name.isEmpty then none
  else
    match importer.parent? with
    | none => none
    | some directory =>
      match canonical? s extensions (directory.join (.ofString name)) with
      | some p => some p
      | none =>
        match name.toList with
        | '/' :: rest => canonical? s extensions (root.join (.ofString (String.ofList rest)))
        | _ => none

end ModuleAtlas.Resolve
