import ModuleAtlas.CommandLine.Command
import ModuleAtlas.Config.Load
import ModuleAtlas.Report.Records
import ModuleAtlas.Report.Summary

/-!
# Running commands

A command is run in its surroundings, which say all that it can find out: the files, the standard
input, how source texts and documents are read. It writes to the standard output, also how many
milliseconds were taken, and may break off with a complaint wherever it is; what has been written by
then stays.

* `Session` is a command as it goes on, and `Session.write` what it does to the standard output;
* `Command.run` runs a command;
* `Command.ending` is how the program ends with it.
-/

namespace ModuleAtlas.CommandLine

/-- What a command can find out. -/
structure Surroundings (γ : Type) where
  files : Snapshot
  stdin : List UInt8
  /-- Whether summaries have colours. -/
  colour : Bool
  verdict : Source.Verdict
  readDocument? : Config.DocumentReader Float
  random : RandomSource Float γ

/-- Why a command breaks off. -/
inductive Complaint where
  | failure (f : Failure)
  /-- The standard input is no text. -/
  | unreadableInput
deriving Repr, Inhabited

namespace Complaint

def message : Complaint → String
  | failure f => f.message
  | unreadableInput => "Failed to read stdin"

def exitCode : Complaint → Nat
  | failure f => f.kind.exitCode
  | unreadableInput => 1

end Complaint

/-- A text that depends on how many milliseconds were taken. -/
abbrev Output := Nat → String

/-- A command as it goes on: what it has written to the standard output, and with what it breaks off
if it does. -/
abbrev Session := ExceptT Complaint (StateM Output)

namespace Session

/-- Puts a text behind what has been written. -/
def write (text : Output) : Session Unit :=
  modify fun written milliseconds => written milliseconds ++ text milliseconds

/-- What a session comes to and what has then been written, if so much has been written before. -/
def goOn {β : Type} (x : Session β) (written : Output) : Except Complaint β × Output :=
  x.run.run written

end Session

namespace AnalyzeOptions

/-- The settings of a run: those of the documents, but for what the options say. -/
def override (o : AnalyzeOptions) (settings : Settings Float) : Settings Float :=
  { settings with
    layout := { settings.layout with
      strategy := o.layout.getD settings.layout.strategy
      seed := o.seed.or settings.layout.seed } }

variable {γ : Type}

/-- The directory to analyse. -/
def root (o : AnalyzeOptions) (w : Surroundings γ) : Path := o.path.getD w.files.workingPath

def settings (o : AnalyzeOptions) (w : Surroundings γ) : Except Failure (Settings Float) :=
  (Config.load w.readDocument? w.files (o.root w) o.config).map o.override

/-- The analysis that is asked for, with the file in the centre that is asked for. -/
def analysis (o : AnalyzeOptions) (w : Surroundings γ) : Except Failure (Analysis Float) := do
  let settings ← o.settings w
  let a ← Analysis.run w.verdict w.random w.files settings (o.root w)
  match o.focus with
  | some p => Analysis.focusOn w.files settings.layout p a
  | none => pure a

/-- Writes the report that is asked for. -/
def run (o : AnalyzeOptions) (w : Surroundings γ) : Session Unit := do
  let a ← MonadExcept.ofExcept ((o.analysis w).mapError .failure)
  match o.format with
  | .json =>
    let d ← MonadExcept.ofExcept ((Report.ofAnalysis a).mapError .failure)
    Session.write fun _ => d.write o.pretty ++ "\n"
  | .text => Session.write fun milliseconds => Report.summary w.colour milliseconds a

end AnalyzeOptions

namespace MetricsOptions

variable {γ : Type}

/-- The metrics that are asked for. -/
def metrics (o : MetricsOptions) (w : Surroundings γ) : Except Complaint FileMetrics :=
  match o.source with
  | .file p =>
    match measureFile w.verdict w.files p with
    | .ok m => .ok m
    | .error f => .error (.failure f)
  | .stdin name =>
    match Text.Utf8.decode? w.stdin with
    | some text => .ok (measure w.verdict name text)
    | none => .error .unreadableInput

/-- Writes the metrics that are asked for. -/
def run (o : MetricsOptions) (w : Surroundings γ) : Session Unit := do
  let m ← MonadExcept.ofExcept (o.metrics w)
  Session.write fun _ => (Report.ofMetrics m).write o.pretty ++ "\n"

end MetricsOptions

/-- Runs a command. -/
def Command.run {γ : Type} (c : Command) (w : Surroundings γ) : Session Unit :=
  match c with
  | .analyze o => o.run w
  | .metrics o => o.run w

/-! ### How the program ends -/

/-- What a run leaves behind. -/
structure Ending where
  /-- What has been written to the standard output. -/
  output : Output
  /-- What has been complained about. -/
  complaint : Option Complaint

/-- With which code the program ends. -/
def Ending.code (e : Ending) : Nat :=
  match e.complaint with
  | none => 0
  | some c => c.exitCode

/-- How the program ends with a command, which begins with nothing written. -/
def Command.ending {γ : Type} (c : Command) (w : Surroundings γ) : Ending :=
  match (c.run w).goOn fun _ => "" with
  | (.ok _, output) => ⟨output, none⟩
  | (.error complaint, output) => ⟨output, some complaint⟩

end ModuleAtlas.CommandLine
