import ModuleAtlas.CommandLine.Usage
import ModuleAtlas.Path

/-!
# Commands

* `Invocation.ofWords?` reads the words that the program is called with.
-/

namespace ModuleAtlas.CommandLine

/-- What an analysis is asked for. -/
structure AnalyzeOptions where
  path : Option Path := none
  layout : Option Strategy := none
  seed : Option UInt64 := none
  config : Option Path := none
  format : Format := .json
  pretty : Bool := false
  focus : Option Path := none
deriving Repr, Inhabited

/-- Where the text comes from that is measured. -/
inductive MetricsSource where
  | file (path : Path)
  /-- The standard input, under a name. -/
  | stdin (name : String)
deriving Repr, Inhabited

structure MetricsOptions where
  source : MetricsSource
  pretty : Bool
deriving Repr, Inhabited

inductive Command where
  | analyze (options : AnalyzeOptions)
  | metrics (options : MetricsOptions)
deriving Repr, Inhabited

/-- The words that the program is called with, read. -/
structure Invocation where
  /-- Without a command, help is shown. -/
  command : Option Command
  verbose : Bool
deriving Repr, Inhabited

/-- The program without a command. -/
def programShape : Shape where
  switches := [.verbose, .help, .version]
  slots := []
  commands := ["analyze", "metrics", "help"]

def analyzeShape : Shape where
  switches := [.verbose, .help, .pretty]
  slots := [.operand, .layout, .seed, .config, .format, .focus]
  commands := []

def metricsShape : Shape where
  switches := [.verbose, .help, .pretty, .stdin]
  slots := [.operand, .name]
  commands := []

def analyzeOf (g : Given) : AnalyzeOptions where
  path := (g.value? .operand).map .ofString
  layout := (g.value? .layout).bind Strategy.ofName?
  seed := (g.value? .seed).bind seedOf?
  config := (g.value? .config).map .ofString
  format := ((g.value? .format).bind Format.ofName?).getD .json
  pretty := g.has .pretty
  focus := (g.value? .focus).map .ofString

/-- A text is measured from a file or from the standard input, not from both. -/
def metricsOf? (g : Given) : Except UsageFault MetricsOptions :=
  match g.value? .operand, g.has .stdin with
  | some _, true => .error .conflict
  | some p, false => .ok ⟨.file (.ofString p), g.has .pretty⟩
  | none, true => .ok ⟨.stdin ((g.value? .name).getD "stdin.tsx"), g.has .pretty⟩
  | none, false => .error .missingArgument

/-- What the command for help says to the words behind it. -/
def helpFault : List String → UsageFault
  | [] => .helpWanted
  | [w] => if programShape.commands.contains w then .helpWanted else .unknownCommand
  | _ => .unknownCommand

namespace Invocation

/-- The command of a name, with the words behind it. -/
def ofCommand? (verbose : Bool) (name : String) (words : List String) :
    Except UsageFault Invocation :=
  match name with
  | "analyze" => do
    let (g, _) ← Given.nothing.read? analyzeShape words
    pure ⟨some (.analyze (analyzeOf g)), verbose || g.has .verbose⟩
  | "metrics" => do
    let (g, _) ← Given.nothing.read? metricsShape words
    let options ← metricsOf? g
    pure ⟨some (.metrics options), verbose || g.has .verbose⟩
  | _ => .error (helpFault words)

/-- Reads the words that the program is called with. -/
def ofWords? (words : List String) : Except UsageFault Invocation := do
  let (g, command) ← Given.nothing.read? programShape words
  match command with
  | some (name, rest) => ofCommand? (g.has .verbose) name rest
  | none => pure ⟨none, g.has .verbose⟩

end Invocation

end ModuleAtlas.CommandLine
