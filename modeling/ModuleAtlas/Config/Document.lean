import ModuleAtlas.Config.Lexeme
import ModuleAtlas.Config.Settings

/-!
# Configuration documents

A document has a statement in each line: a key that is set to a value, or the header of the table to
which the keys that follow belong. No key is set twice and no table is opened twice, but the header
of a table may follow those of tables within it.

* `Document.statement` reads a line, `Document.follow?` does what it says;
* `Document.parse?` reads a whole document.
-/

namespace ModuleAtlas.Config

/-! ### Tables -/

namespace Entries

/-- The table with the value of a key replaced, or with the key added. -/
def set (key : String) (v : Value) : Entries → Entries
  | [] => [(key, v)]
  | (k, w) :: rest => if k == key then (key, v) :: rest else (k, w) :: set key v rest

/-- The last table of a list changed. -/
def changeLast? (f : Form → Entries → Option Entries) (ts : List Value) : Option (List Value) := do
  match ts.getLast? with
  | some (.table form inner) =>
    let inner ← f form inner
    some (ts.dropLast ++ [.table form inner])
  | _ => none

/-- Sets a dotted key. The tables on the way are made, or must have been made by dotted keys; the
outermost table may be of any form. -/
def put? (v : Value) : List String → Entries → Option Entries
  | [], _ => none
  | [k], entries => if (entries.lookup k).isSome then none else some (entries.set k v)
  | k :: ks@(_ :: rest), entries =>
    /- Whether the key may go on in a table of this form. -/
    let admits (form : Form) : Bool := form = .dotted || (form = .implied && !rest.isEmpty)
    match entries.lookup k with
    | none => do
      let inner ← put? v ks []
      some (entries.set k (.table .dotted inner))
    | some (.table form inner) =>
      if admits form then do
        let inner ← put? v ks inner
        some (entries.set k (.table form inner))
      else none
    | some (.tables ts) =>
      if rest.isEmpty then none
      else do
        let ts ← changeLast? (fun _ inner => put? v ks inner) ts
        some (entries.set k (.tables ts))
    | some _ => none

/-- Changes the table at a path; tables on the way that are not there are made. -/
def change? (f : Entries → Option Entries) : List String → Entries → Option Entries
  | [], entries => f entries
  | k :: ks, entries =>
    match entries.lookup k with
    | none => do
      let inner ← change? f ks []
      some (entries.set k (.table .implied inner))
    | some (.table form inner) =>
      if form = .closed then none
      else do
        let inner ← change? f ks inner
        some (entries.set k (.table form inner))
    | some (.tables ts) => do
      let ts ← changeLast? (fun _ inner => change? f ks inner) ts
      some (entries.set k (.tables ts))
    | some _ => none

/-- Gives the table of a key its header. -/
def addHeader? (k : String) (entries : Entries) : Option Entries :=
  match entries.lookup k with
  | none => some (entries.set k (.table .header []))
  | some (.table .implied inner) => some (entries.set k (.table .header inner))
  | some _ => none

/-- Adds a table to the list of a key. -/
def addTable? (k : String) (entries : Entries) : Option Entries :=
  match entries.lookup k with
  | none => some (entries.set k (.tables [.table .header []]))
  | some (.tables ts) => some (entries.set k (.tables (ts ++ [.table .header []])))
  | some _ => none

end Entries

/-! ### Values -/

namespace Document

open Scanner

/-- The table that is written in braces with the given keys. -/
def closedTable? (pairs : List (List String × Value)) : Option Value :=
  (pairs.foldlM (fun entries (path, v) => Entries.put? v path entries) []).map (.table .closed)

/-- A value, with lists and tables within each other up to the given depth. -/
def value : Nat → Scanner Value
  | 0 => Lexeme.scalar
  | depth + 1 => do
    if ← starts "[" then
      let element : Scanner Value := do
        Lexeme.gap
        let v ← value depth
        Lexeme.gap
        pure v
      let values ← optional (do
        let values ← separated element (char ',')
        let _ ← starts ","
        pure values)
      Lexeme.gap
      char ']'
      pure (.list (values.getD []))
    else if ← starts "\x7b" then
      let pair : Scanner (List String × Value) := do
        let path ← Lexeme.key
        char '='
        Lexeme.blanks
        let v ← value depth
        Lexeme.blanks
        pure (path, v)
      let pairs ← optional (separated pair (char ','))
      Lexeme.blanks
      char '\x7d'
      match closedTable? (pairs.getD []) with
      | some v => pure v
      | none => failure
    else Lexeme.scalar

/-- How deep values may be nested. -/
def maxDepth : Nat := 79

/-! ### Statements -/

inductive Statement where
  | set (path : List String) (v : Value)
  /-- The header of a table. -/
  | opens (path : List String)
  /-- The header of a table in a list. -/
  | opensNext (path : List String)
  | empty
deriving Inhabited

/-- A line of a document, its end included. -/
def statement : Scanner Statement := do
  Lexeme.blanks
  match ← peek with
  | none => failure
  | some '[' => do
    if ← starts "[[" then
      let path ← Lexeme.key
      if ← starts "]]" then
        Lexeme.tail
        pure (.opensNext path)
      else failure
    else
      char '['
      let path ← Lexeme.key
      char ']'
      Lexeme.tail
      pure (.opens path)
  | some c =>
    if c == '#' || c == '\n' || c == '\r' then
      Lexeme.tail
      pure .empty
    else
      let path ← Lexeme.key
      char '='
      Lexeme.blanks
      let v ← value maxDepth
      Lexeme.tail
      pure (.set path v)

/-- What has been read: the outermost table, and the path of the table that is being filled. -/
structure Progress where
  entries : Entries
  current : List String
deriving Inhabited

/-- Does what a statement says. -/
def follow? (p : Progress) : Statement → Option Progress
  | .empty => some p
  | .set path v => do
    let entries ← p.entries.change? (Entries.put? v path) p.current
    some { p with entries }
  | .opens path => do
    let k ← path.getLast?
    let entries ← p.entries.change? (Entries.addHeader? k) path.dropLast
    some ⟨entries, path⟩
  | .opensNext path => do
    let k ← path.getLast?
    let entries ← p.entries.change? (Entries.addTable? k) path.dropLast
    some ⟨entries, path⟩

/-- All statements of a document; a byte order mark at its start is left out. -/
def statements : Scanner (List Statement) := do
  let _ ← starts "\ufeff"
  let all ← many statement
  Lexeme.blanks
  atEnd
  pure all

/-- The table that a document describes. -/
def parse? (source : String) : Option Value := do
  let (all, _) ← statements source.toList
  let p ← all.foldlM follow? ⟨[], []⟩
  some (.table .header p.entries)

end Document

/-- The settings that the text of a document asks for. -/
def ofText? (source : String) : Option (Settings Float) := (Document.parse? source).bind settingsOf?

end ModuleAtlas.Config
