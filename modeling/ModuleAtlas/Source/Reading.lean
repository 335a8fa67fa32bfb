import ModuleAtlas.Source.Dialect
import ModuleAtlas.Source.Item

/-!
# Reading a source file

A file is read in the dialect that suits its name, and in the other one if that fails. How a text
is read in one dialect is a parameter (`Verdict`): nothing here depends on the grammars.

* `Reading.of?` reads a text in one of the two dialects;
* `Reading.items` are the items of what was read.
-/

namespace ModuleAtlas.Source

/-- Where a text stops making sense: its line and, in bytes, its column, both counted from one. -/
structure Fault where
  line : Nat
  column : Nat
deriving DecidableEq, Repr, Inhabited

namespace Fault

/-- The line and the column of a character. -/
def ofPosition (script : Array Char) (i : Nat) : Fault :=
  let before := (script.extract 0 i).toList
  let line := before.reverse.takeWhile (· != '\n')
  ⟨before.count '\n' + 1, line.foldl (fun n c => n + c.utf8Size) 1⟩

def message (f : Fault) : String := s!"syntax error at line {f.line}, column {f.column}"

end Fault

/-- The tree of each text in each dialect, or where the text stops making sense. -/
abbrev Verdict := Dialect → String → Except Fault Tree

/-- A text with its tree, in the dialect in which it made sense. -/
structure Reading where
  text : String
  dialect : Dialect
  tree : Tree
deriving Inhabited

namespace Reading

/-- Reads a text in the given dialect, else in the other one. If it makes sense in neither, the
fault is that of the second attempt. -/
def of? (verdict : Verdict) (preferred : Dialect) (text : String) : Except Fault Reading :=
  match verdict preferred text with
  | .ok tree => .ok ⟨text, preferred, tree⟩
  | .error _ =>
    match verdict preferred.other text with
    | .ok tree => .ok ⟨text, preferred.other, tree⟩
    | .error fault => .error fault

/-- The items of a text, in the order of the walk through its tree. -/
def items (r : Reading) : List Item := itemsOf r.text.toList.toArray r.tree

end Reading

end ModuleAtlas.Source
