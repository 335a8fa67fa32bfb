import ModuleAtlas.FileSystem.Entry

/-!
# Snapshots of a file system

A file tree with a working directory, from which relative paths are read. Whatever is asked about a
path is answered by `Snapshot.locate`, which goes through its segments one by one and through the
links that it meets.

* `Snapshot.locate` finds where a path leads, or says why it leads nowhere;
* `Snapshot.canonical` is the path of that place that has no links in it;
* `Snapshot.readText` reads a file.
-/

namespace ModuleAtlas

/-- Why a path leads nowhere, or why what it leads to cannot be read. -/
inductive Trouble where
  | noSuchEntry
  | permissionDenied
  | notADirectory
  | isADirectory
  | nameTooLong
  | tooManyLinks
  | notText
deriving DecidableEq, Repr, Inhabited

def Trouble.message : Trouble → String
  | noSuchEntry => "No such file or directory (os error 2)"
  | permissionDenied => "Permission denied (os error 13)"
  | notADirectory => "Not a directory (os error 20)"
  | isADirectory => "Is a directory (os error 21)"
  | nameTooLong => "File name too long (os error 36)"
  | tooManyLinks => "Too many levels of symbolic links (os error 40)"
  | notText => "stream did not contain valid UTF-8"

structure Snapshot where
  /-- The directory at the top. -/
  top : Entry
  working : Location
deriving Inhabited

namespace Snapshot

/-- How many bytes a name may have. -/
def maxName : Nat := 255

/-- How many links a path may lead through. -/
def maxLinks : Nat := 40

/-- Where the segments of a path lead from a location, through no more than so many links. A link
at the very end is followed only if `last` says so. -/
def follow (s : Snapshot) (last : Bool) :
    (links : Nat) → Location → List Name → Except Trouble Location
  | _, here, [] => .ok here
  | links, here, segment :: rest =>
    match s.top.at? here with
    | some (.directory children _) =>
      if Path.isVoid segment then follow s last links here rest
      else if segment == [46, 46] then follow s last links here.dropLast rest
      else if maxName < segment.length then .error .nameTooLong
      else
        match children.lookup segment with
        | none => .error .noSuchEntry
        | some (.link target) =>
          if rest.isEmpty && !last then .ok (here ++ [segment])
          else
            match links with
            | 0 => .error .tooManyLinks
            | links + 1 =>
              follow s last links (if target.isAbsolute then [] else here) (target.segments ++ rest)
        | some _ => follow s last links (here ++ [segment]) rest
    | some .closed =>
      if segment.isEmpty then follow s last links here rest else .error .permissionDenied
    | some _ => .error .notADirectory
    | none => .error .noSuchEntry
termination_by links _ segments => (links, segments.length)

/-- Where a path leads; `last` says whether a link at its end is followed. -/
def locateFrom (s : Snapshot) (last : Bool) (p : Path) : Except Trouble Location :=
  if p.text.isEmpty then .error .noSuchEntry
  else s.follow last maxLinks (if p.isAbsolute then [] else s.working) p.segments

/-- Where a path leads through all links. -/
def locate (s : Snapshot) (p : Path) : Except Trouble Location := s.locateFrom true p

/-- What a path leads to. -/
def entry? (s : Snapshot) (p : Path) : Option Entry :=
  match s.locate p with
  | .ok l => s.top.at? l
  | .error _ => none

/-- What stands at the end of a path, be it a link. -/
def ownEntry? (s : Snapshot) (p : Path) : Option Entry :=
  match s.locateFrom false p with
  | .ok l => s.top.at? l
  | .error _ => none

/-- Whether a path leads anywhere. -/
def hasEntry (s : Snapshot) (p : Path) : Bool := (s.entry? p).isSome

def isFile (s : Snapshot) (p : Path) : Bool := (s.entry? p).any Entry.isFile

def isDirectory (s : Snapshot) (p : Path) : Bool := (s.entry? p).any Entry.isDirectory

/-- The absolute path of a location. -/
def pathOf (l : Location) : Path := ⟨Path.separator :: [Path.separator].intercalate l⟩

/-- The absolute path, without links, of where a path leads. -/
def canonical (s : Snapshot) (p : Path) : Except Trouble Path := (s.locate p).map pathOf

/-- The path of the working directory. -/
def workingPath (s : Snapshot) : Path := pathOf s.working

def read (s : Snapshot) (p : Path) : Except Trouble (List UInt8) := do
  let l ← s.locate p
  match s.top.at? l with
  | some (.file content) => .ok content
  | some (.directory _ false) | some .closed => .error .permissionDenied
  | some _ => .error .isADirectory
  | none => .error .noSuchEntry

def readText (s : Snapshot) (p : Path) : Except Trouble String := do
  let content ← s.read p
  match Text.Utf8.decode? content with
  | some t => .ok t
  | none => .error .notText

/-! ### Changing a snapshot -/

/-- The entry of a name in a directory; if there is none, the given one is put there. -/
def enter (s : Snapshot) (here : Location) (name : Name) (new : Entry) : Snapshot × Location :=
  match s.follow true maxLinks here [name] with
  | .ok l => (s, l)
  | .error _ => ({ s with top := Entry.put new (here ++ [name]) s.top }, here ++ [name])

/-- Puts an entry at a path; directories on the way are made. A file that is put where a link stands
goes where the link leads. -/
def insert (s : Snapshot) (p : Path) (e : Entry) : Snapshot :=
  let names := p.segments.filter fun n => !Path.isVoid n
  match names.getLast? with
  | none => s
  | some name =>
    let start := if p.isAbsolute then [] else s.working
    let (s, here) :=
      names.dropLast.foldl (fun (s, here) n => s.enter here n (.directory [] true)) (s, start)
    match e with
    | .directory _ _ => (s.enter here name e).1
    | _ =>
      let l := match s.follow e.isFile maxLinks here [name] with
        | .ok l => l
        | .error _ => here ++ [name]
      { s with top := Entry.put e l s.top }

/-- Takes away what stands at the end of a path. -/
def remove (s : Snapshot) (p : Path) : Snapshot :=
  match s.locateFrom false p with
  | .ok l => { s with top := s.top.erase l }
  | .error _ => s

end Snapshot

end ModuleAtlas
