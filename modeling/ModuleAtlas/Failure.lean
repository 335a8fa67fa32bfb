import ModuleAtlas.FileSystem.Snapshot
import ModuleAtlas.Source.Reading

/-!
# Failures and warnings

A failure is why a command has no answer. A warning is why one file or directory could not be looked
into, which keeps no command from its answer.

* `Failure.message` has the wording of every failure, `Failure.kind` says who is to blame;
* `Failure.Kind.status` and `Failure.Kind.exitCode` are what callers are told.
-/

namespace ModuleAtlas

/-- What is wrong with what was asked for. -/
inductive InputFault where
  | directoryRequired
  | fileRequired
  | notADirectory (path : Path)
  | unreadableSettings (path : Path) (trouble : Trouble)
  | invalidSettings (path : Path)
  /-- The file to be in the centre is not among those of the graph. -/
  | notInGraph (path : Path)
  /-- Anything else, in words. -/
  | said (message : String)
deriving Repr, Inhabited

def InputFault.message : InputFault → String
  | directoryRequired => "Directory path is required"
  | fileRequired => "File path is required"
  | notADirectory p => s!"Not a directory: {p.display}"
  | unreadableSettings p t => s!"Cannot read config {p.display}: {t.message}"
  | invalidSettings p => s!"Invalid config {p.display}: the document cannot be read"
  | notInGraph p => s!"Not in graph: {p.display}"
  | said m => m

/-- What was looked for and not found. -/
inductive Sought where
  | directory
  | file
deriving DecidableEq, Repr, Inhabited

def Sought.name : Sought → String
  | directory => "Directory"
  | file => "File"

inductive Failure where
  | input (fault : InputFault)
  | notFound (what : Sought) (path : Path)
  | internal (operation message : String)
  /-- The zone of the core is too small for its border. This one is not reported: it stops the
  program. -/
  | noRoom
deriving Repr, Inhabited

namespace Failure

/-- Who is to blame. -/
inductive Kind where
  | client
  | notFound
  | server
deriving DecidableEq, Repr, Inhabited

/-- The status that stands for a kind of failure where answers carry one. -/
def Kind.status : Kind → Nat
  | client => 400
  | notFound => 404
  | server => 500

/-- With which code the program ends. -/
def Kind.exitCode : Kind → Nat
  | client => 2
  | notFound => 3
  | server => 1

def kind : Failure → Kind
  | input _ => .client
  | notFound _ _ => .notFound
  | internal _ _ => .server
  | noRoom => .server

def message : Failure → String
  | input fault => fault.message
  | notFound what path => s!"{what.name} not found: {path.display}"
  | internal operation message => s!"{operation} failed: {message}"
  | noRoom => "the zone of the core has no room"

end Failure

/-- Why a file or a directory could not be looked into. -/
inductive Obstacle where
  /-- What is in the directory could not be asked for. -/
  | unlisted (directory : Path) (trouble : Trouble)
  | unreadable (trouble : Trouble)
  /-- Its text makes sense in no dialect. -/
  | senseless (fault : Source.Fault)
deriving Repr, Inhabited

namespace Obstacle

def kindName : Obstacle → String
  | unlisted _ _ => "walk"
  | unreadable _ => "read"
  | senseless _ => "parse"

def message : Obstacle → String
  | unlisted p t => s!"IO error for operation on {p.display}: {t.message}"
  | unreadable t => t.message
  | senseless f => f.message

end Obstacle

/-- A file or a directory that could not be looked into. -/
structure Warning where
  path : Path
  obstacle : Obstacle
deriving Repr, Inhabited

end ModuleAtlas
