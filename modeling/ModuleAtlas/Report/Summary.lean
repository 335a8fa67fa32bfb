import ModuleAtlas.Analysis

/-!
# Summaries

The report on a directory for people to read, with or without colours.
-/

namespace ModuleAtlas.Report

/-- How a text stands out. -/
inductive Emphasis where
  | heading
  | alarm
  | good
  | bad
  | caution
  | faint
deriving DecidableEq, Repr, Inhabited

/-- The attributes of a terminal that an emphasis stands for. -/
def Emphasis.attributes : Emphasis → String
  | heading => "1;36"
  | alarm => "1;31"
  | good => "32"
  | bad => "31"
  | caution => "33"
  | faint => "2"

/-- A text with an emphasis, which shows only in colour. -/
def Emphasis.render (e : Emphasis) (colour : Bool) (s : String) : String :=
  if colour then "\x1b[" ++ e.attributes ++ "m" ++ s ++ "\x1b[0m" else s

/-- A text with blanks behind it up to the given width. -/
def filled (width : Nat) (s : String) : String :=
  s ++ String.ofList (List.replicate (width - s.length) ' ')

def roleLine (nodes : List (Node Float)) (role : Role) : String :=
  let count := nodes.countP fun n => n.role = role
  s!"  {filled 11 role.label} {count}"

def circularLine (colour : Bool) (n : Node Float) : String :=
  let sign := Emphasis.bad.render colour "↻"
  s!"    {sign} {n.relativePath} (imports {n.dependencyCount}, imported by {n.dependentCount})"

def circularLines (colour : Bool) (nodes : List (Node Float)) : List String :=
  let circular := nodes.filter (·.isCircular)
  if circular.isEmpty then [Emphasis.good.render colour "  ✓ No circular imports."]
  else
    "" :: Emphasis.alarm.render colour "  CIRCULAR IMPORTS" :: circular.map (circularLine colour)

def warningLine (colour : Bool) (w : Warning) : String :=
  let message := Emphasis.faint.render colour w.obstacle.message
  s!"    {w.path.display} {message}"

def warningLines (colour : Bool) (warnings : List Warning) : List String :=
  if warnings.isEmpty then []
  else
    "" :: Emphasis.caution.render colour s!"  {warnings.length} file(s) skipped:" ::
      warnings.map (warningLine colour)

/-- The lines of a summary of a run that took so many milliseconds. -/
def summaryLines (colour : Bool) (milliseconds : Nat) (a : Analysis Float) : List String :=
  let heading := Emphasis.heading.render colour "DEPENDENCY SCAN"
  let circular := (if a.stats.circular = 0 then Emphasis.good else .bad).render colour
    (toString a.stats.circular)
  let root := Emphasis.faint.render colour a.root.display
  ["",
   s!"{heading} {a.stats.files} files | {a.stats.dependencies} dependencies | {circular} circular ({milliseconds}ms)",
   s!"  root: {root}"] ++
    [Role.core, .utility, .standalone].map (roleLine a.graph.nodes) ++
    circularLines colour a.graph.nodes ++ warningLines colour a.warnings

/-- A text of whole lines. -/
def ofLines (lines : List String) : String := String.join (lines.map (· ++ "\n"))

def summary (colour : Bool) (milliseconds : Nat) (a : Analysis Float) : String :=
  ofLines (summaryLines colour milliseconds a)

end ModuleAtlas.Report
