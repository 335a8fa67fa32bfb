import ModuleAtlas.Grammar.Phrase

/-!
# Literals, names and arguments

The small phrases that the larger ones share: literals, the names of properties, argument lists and
decorators.
-/

namespace ModuleAtlas.Grammar

open ModuleAtlas.Source
open Reader

/-! ### Literals -/

/-- A quoted text. Blanks and comments may stand before the closing quote. -/
def quotedText (quote : Char) : Reader Tree := do
  let opening ← mark (String.singleton quote)
  let stop ← closing
  return .leaf .literal opening.start stop
where
  closing : Reader Nat := fun s i p =>
    let j := skipTrivia s.script (quotedEndIn quote s.script (s.script.size + 1 - i) i)
    if charAt s.script j == quote then ([(j + 1, j + 1)], p) else stuckAt j s i p

def stringLiteral : Reader Tree := both (quotedText '"') (quotedText '\'')

def numberLiteral : Reader Tree := lexeme .literal numberEnd?

def regexLiteral : Reader Tree := lexeme .literal regexEnd?

/-- The pieces of a template: text, or what the reader says inside `${ }`. -/
def templateOf (substitution : Reader (List Tree)) : Reader Tree := do
  let opening ← mark "\x60"
  let inner ← many (do
    let _ ← lexemeHere fun s i =>
      let j := templateCharsEndIn s (s.size + 1 - i) i
      if standsAt s j "$\x7b" then some (j + 2) else none
    let inside ← substitution
    let _ ← mark "\x7d"
    return inside)
  let closing ← lexemeHere fun s i =>
    let j := templateCharsEndIn s (s.size + 1 - i) i
    if charAt s j == '\x60' && j < s.size then some (j + 1) else none
  return .node ⟨.literal, none, opening.start, closing⟩ inner
where
  /-- Reads on from the very position, over no blanks. -/
  lexemeHere (end? : Script → Nat → Option Nat) : Reader Nat := fun s i p =>
    match end? s.script i with
    | some k => ([(k, k)], p)
    | none => stuckAt i s i p

/-! ### Lists of expressions -/

/-- Expressions with commas between them, as one. -/
def expressions (rules : Rules) (tail : Tail) : Reader Tree := do
  let first ← rules.expression tail
  let rest ← many (do
    sameLine tail
    let comma ← mark ","
    let e ← rules.expression tail
    return [comma, e])
  return if rest.isEmpty then first else .group .phrase (first :: rest)

/-- `...` and an expression. -/
def spread (rules : Rules) : Reader Tree := do
  let dots ← mark "..."
  let e ← rules.expression .inside
  return .group .phrase [dots, e]

/-- Items with commas between them, of which any may be missing, but no two without a comma. -/
def sparseList (item : Reader Tree) : Reader (List Tree) := do
  let first ← maybe (one item)
  let rest ← many (do
    let comma ← mark ","
    let next ← maybe (one item)
    return comma :: next)
  return first ++ rest

def arguments (rules : Rules) : Reader Tree := do
  let opening ← mark "("
  let inner ← sparseList (do
    if (← look nextChar) == '.' then both (spread rules) (rules.expression .inside)
    else rules.expression .inside)
  let closing ← mark ")"
  return .group .phrase (opening :: inner ++ [closing])

def template (rules : Rules) : Reader Tree :=
  templateOf (one (expressions rules .inside))

/-! ### Names -/

/-- A word as a name. -/
def name : Reader Tree := do
  let (_, t) ← word
  return t

/-- The name that a declaration introduces. -/
def declaredName : Reader Tree := do
  let n ← name
  return n.withRole .name

/-- A quoted text that names a module. -/
def sourceText (quote : Char) : Reader Tree := do
  let t ← quotedText quote
  return t.withRole .source

/-- A name that begins with `#`. -/
def privateName : Reader Tree :=
  lexeme .identifier fun s j => if charAt s j == '#' then wordEnd? s (j + 1) else none

/-- A name behind a dot. -/
def memberName : Reader Tree := do
  if (← look nextChar) == '#' then privateName else name

/-- Names with dots between them. -/
def qualifiedName : Reader Tree := do
  let first ← name
  let rest ← many (do
    let dot ← mark "."
    let n ← name
    return [dot, n])
  return if rest.isEmpty then first else .group .member (first :: rest)

/-- The name of a property: a word, a text, a number, or an expression in brackets. -/
def propertyName (rules : Rules) : Reader Tree := do
  match ← look nextChar with
  | '"' => quotedText '"'
  | '\'' => quotedText '\''
  | '#' => privateName
  | '[' =>
    let opening ← mark "["
    let e ← rules.expression .inside
    let closing ← mark "]"
    return .group .phrase [opening, e, closing]
  | c => if isDigit c || c == '.' then numberLiteral else name

/-! ### Decorators -/

/-- `@` with a qualified name and possibly arguments. -/
def decorator (rules : Rules) : Reader (List Tree) := do
  let sign ← mark "@"
  let callee ← qualifiedName
  if (← look nextChar) == '(' then
    let args ← arguments rules
    return [.group .phrase [sign, .group .call [callee.withRole .callee, args]]]
  else return [.group .phrase [sign, callee]]

def decorators (rules : Rules) : Reader (List Tree) := many (decorator rules)

end ModuleAtlas.Grammar
