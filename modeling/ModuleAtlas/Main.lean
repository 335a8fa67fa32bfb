import ModuleAtlas.CommandLine.Help
import ModuleAtlas.CommandLine.Run
import ModuleAtlas.Config.Document
import ModuleAtlas.FileSystem.Listing
import ModuleAtlas.Grammar.Parse
import ModuleAtlas.Random.ChaCha

/-!
# The program

Reads the words of its call and the standard input, runs the command, and writes what it gives. The
standard input is the text to measure, if the command asks for it, and a listing of the files
otherwise.
-/

namespace ModuleAtlas.CommandLine

/-- Whether a command measures the standard input. -/
def Command.takesText : Command → Bool
  | .metrics { source := .stdin _, .. } => true
  | _ => false

/-- All bytes of a stream. -/
partial def readAll (stream : IO.FS.Stream) (before : ByteArray) : IO ByteArray := do
  let more ← stream.read 65536
  if more.isEmpty then pure before else readAll stream (before ++ more)

/-- Runs a command on the standard input. -/
def perform (c : Command) : IO UInt32 := do
  let started ← IO.monoMsNow
  let input := (← readAll (← IO.getStdin) .empty).toList
  let seed ← IO.rand 0 0xffffffffffffffff
  let listing := if c.takesText then "" else (Text.Utf8.decode? input).getD "?"
  match Snapshot.ofListing? listing with
  | none =>
    IO.eprintln "Error: the listing of the files cannot be read"
    pure 1
  | some files =>
    let ending := c.ending
      { files, stdin := input, colour := false, verdict := Grammar.verdict,
        readDocument? := Config.ofText?,
        random := ⟨Generator.unit, Generator.ofSeed, .ofSeed seed.toUInt64⟩ }
    let code := ending.code
    let ended ← IO.monoMsNow
    IO.print (ending.output (ended - started))
    if let some complaint := ending.complaint then
      IO.eprintln s!"Error: {complaint.message}"
    pure code.toUInt32

end ModuleAtlas.CommandLine

open ModuleAtlas.CommandLine in
def main (words : List String) : IO UInt32 :=
  match Invocation.ofWords? words with
  | .ok { command := some c, .. } => perform c
  | .ok { command := none, .. } => do
    IO.print help
    pure 0
  | .error f => do
    if f.exitCode = 0 then IO.print f.message else IO.eprintln s!"error: {f.message}"
    pure f.exitCode.toUInt32
