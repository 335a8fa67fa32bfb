import ModuleAtlas.Grammar.Signature

/-!
# Patterns

What may stand to the left of an assignment and what a parameter may be: names, destructured
objects and arrays, and accesses.
-/

namespace ModuleAtlas.Grammar

open ModuleAtlas.Source
open Reader

/-- A pattern with a value for where there is none. -/
def patternWithValue (rules : Rules) : Reader Tree := do
  let rest ← look nextChar
  let p ← rules .pattern
  if rest == '.' then return p
  let value ← maybe (initializer rules .inside)
  return if value.isEmpty then p else .group .phrase (p :: value)

/-- `[a, b = 1, ...c]` -/
def arrayPattern (rules : Rules) : Reader Tree := do
  let opening ← mark "["
  let inner ← sparseList (patternWithValue rules)
  let closing ← mark "]"
  return .group .phrase (opening :: inner ++ [closing])

/-- `{a, b: c, d = 1, ...e}` -/
def objectPattern (rules : Rules) : Reader Tree := do
  let opening ← mark "\x7b"
  let pair := do
    let key ← propertyName rules
    let colon ← mark ":"
    let target ← patternWithValue rules
    return Tree.group .phrase [key, colon, target]
  let valued (target : Reader Tree) := do
    let t ← target
    let value ← maybe (initializer rules .inside)
    return if value.isEmpty then t else Tree.group .phrase (t :: value)
  let destructured (inner : Rules → Reader Tree) := do
    let t ← inner rules
    let value ← initializer rules .inside
    return Tree.group .phrase (t :: value)
  let arrayInside (rules : Rules) : Reader Tree := do
    let opening ← mark "["
    let inner ← sparseList (patternWithValue rules)
    let closing ← mark "]"
    return .group .phrase (opening :: inner ++ [closing])
  let inner ← sparseList (do
    match ← look nextChar with
    | '.' => rules .pattern
    | '[' => both pair (destructured arrayInside)
    | '\x7b' => destructured fun rules => filter (·.kind = .phrase) (rules .pattern)
    | _ => orElse pair (valued name))
  let closing ← mark "\x7d"
  return .group .phrase (opening :: inner ++ [closing])

def destructuring (rules : Rules) : Reader Tree := do
  if (← look nextChar) == '[' then arrayPattern rules else objectPattern rules

/-- A name or a destructuring, as declarations introduce. -/
def binding (rules : Rules) : Reader Tree := do
  match ← look nextChar with
  | '[' | '\x7b' => destructuring rules
  | _ => name

/-- What an assignment may assign to. -/
def Assignable (k : Kind) : Bool :=
  k matches .identifier | .member | .subscript | .nonNull

/-- What can be assigned to, without the rest of a list. -/
def target (rules : Rules) : Reader Tree := do
  let access := filter (Assignable ·.kind) (rules (.operand .chain .inside))
  match ← look nextChar with
  | '[' | '\x7b' => both access (destructuring rules)
  | _ => access

/-- A pattern, or the rest of a list. -/
def patternRule (rules : Rules) : Reader Tree := do
  if (← look nextChar) == '.' then
    both
      (do
        let dots ← mark "..."
        let t ← target rules
        return .group .phrase [dots, t])
      (target rules)
  else target rules

end ModuleAtlas.Grammar
