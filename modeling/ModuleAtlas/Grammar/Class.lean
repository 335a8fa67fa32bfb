import ModuleAtlas.Grammar.Signature

/-!
# Functions, methods and classes
-/

namespace ModuleAtlas.Grammar

open ModuleAtlas.Source
open Reader

/-- Statements in braces. -/
def block (rules : Rules) : Reader Tree := do
  let opening ← mark "\x7b"
  let inner ← many (one (rules .statement))
  let closing ← mark "\x7d"
  return .group .phrase (opening :: inner ++ [closing])

/-- A function expression, behind a possible `async`. -/
def functionExpression (rules : Rules) (async : List Tree) : Reader Tree := do
  let word ← keyword "function"
  let star ← maybe (one (mark "*"))
  let n ← maybe (one declaredName)
  let s ← signature rules .inside
  let body ← block rules
  return .group (if star.isEmpty then .functionExpression else .generatorExpression)
    (async ++ [word] ++ star ++ n ++ s ++ [body])

/-- A method with its body. A line end behind a modifier makes it a name where `tail` says so. -/
def method (rules : Rules) (before : List Tree) (tail : Tail) (bodyTail : Tail) : Reader Tree := do
  let access ← modifier accessWords tail
  let static ← modifier ["static"] tail
  let override ← modifier ["override"] tail
  let readonly ← modifier ["readonly"] tail
  let async ← modifier ["async"] tail
  let kind ← both (modifier ["get", "set"] tail) (one (mark "*"))
  guarded !((static ++ override ++ async ++ kind).isEmpty && (← look nextWord) == "abstract" && tail == .line)
  let n ← propertyName rules
  let mark? ← maybe (one (mark "?"))
  if (async ++ kind).isEmpty then sameLine tail
  let s ← signature rules bodyTail
  let body ← block rules
  return .group .methodDefinition (before ++ access ++ static ++ override ++ readonly ++ async ++
    kind ++ [n.withRole .name] ++ mark? ++ s ++ [body])

/-- A method without its body. -/
def methodSignature (rules : Rules) : Reader Tree := do
  let access ← modifier accessWords .line
  let static ← modifier ["static"] .line
  let override ← modifier ["override"] .line
  let readonly ← modifier ["readonly"] .line
  let async ← modifier ["async"] .line
  let kind ← both (modifier ["get", "set"] .line) (one (mark "*"))
  guarded !((static ++ override ++ async ++ kind).isEmpty && (← look nextWord) == "abstract")
  let n ← propertyName rules
  let mark? ← maybe (one (mark "?"))
  if (async ++ kind).isEmpty then sameLine .line
  let s ← signature rules .signature
  return .group .phrase (access ++ static ++ override ++ readonly ++ async ++ kind ++ [n] ++ mark? ++
    s)

def abstractMethod (rules : Rules) : Reader Tree := do
  let access ← modifier accessWords .line
  let abstract ← keyword "abstract"
  let override ← modifier ["override"] .inside
  let kind ← both (modifier ["get", "set"] .inside) (one (mark "*"))
  let n ← propertyName rules
  let mark? ← maybe (one (mark "?"))
  if kind.isEmpty then sameLine .line
  let s ← signature rules .line
  return .group .phrase (access ++ [abstract] ++ override ++ kind ++ [n] ++ mark? ++ s)

/-- A field of a class, and what may follow it. -/
def field (rules : Rules) : Reader (Tree × Tail) := do
  let decorators ← decorators rules
  let visibility ← anyOf [
    do
      let declare ← modifier ["declare"] .line
      let access ← modifier accessWords .line
      return declare ++ access,
    do
      let t ← keywordOf accessWords
      sameLine .line
      let declare ← keyword "declare"
      sameLine .line
      return [t, declare]]
  let kind ← anyOf [
    do
      let static ← modifier ["static"] .line
      let override ← modifier ["override"] .line
      let readonly ← modifier ["readonly"] .line
      guarded !((static ++ override).isEmpty && (← look nextWord) == "abstract")
      return static ++ override ++ readonly,
    do
      let abstract ← keyword "abstract"
      let readonly ← modifier ["readonly"] .line
      return abstract :: readonly,
    do
      let readonly ← keyword "readonly"
      sameLine .line
      let abstract ← keyword "abstract"
      return [readonly, abstract]]
  let n ← propertyName rules
  let mark? ← maybe (one (both (mark "?") (markUnless "!" fun s i => charAt s i == '=')))
  let type ← maybe (one (typeAscription rules .line))
  let value ← maybe (initializer rules .operand)
  return (.group .phrase (decorators ++ visibility ++ kind ++ [n] ++ mark? ++ type ++ value),
    if value.isEmpty then .line else .operand)

/-- The end of a member: a comma, a semicolon, or a line's end. -/
def memberEnd (tail : Tail) : Reader (List Tree) :=
  orElse (semicolon tail) (one (mark ","))

/-- A member of a class, with what ends it. -/
def classMember (rules : Rules) : Reader (List Tree) := do
  if (← look nextChar) == ';' then return [← mark ";"]
  let defined := do
    let decorators ← decorators rules
    let m ← method rules decorators .line .signature
    let ending ← maybe (semicolon .line)
    return m :: ending
  let signed := do
    let m ← methodSignature rules
    let ending ← memberEnd .signature
    return m :: ending
  let initial := do
    let static ← keyword "static"
    sameLine .line
    let body ← block rules
    return [Tree.group .phrase [static, body]]
  let abstracted := do
    let m ← abstractMethod rules
    let ending ← memberEnd .line
    return m :: ending
  let indexed := do
    let m ← indexSignature rules
    let ending ← memberEnd .line
    return m :: ending
  let stored := do
    let (m, tail) ← field rules
    let ending ← memberEnd tail
    return m :: ending
  settled (anyOf [defined, signed, initial, abstracted, indexed, stored])

def classBody (rules : Rules) : Reader Tree := do
  let opening ← mark "\x7b"
  let inner ← many (classMember rules)
  let closing ← mark "\x7d"
  return .group .phrase (opening :: inner ++ [closing])

/-- What a class extends and implements. -/
def classHeritage (rules : Rules) : Reader (List Tree) := do
  let parent ← maybe (do
    let word ← keyword "extends"
    let parents ← separated
      (do
        let e ← rules.expression .inside
        let args ← ifChar '<' (one (typeArguments rules))
        return e :: args)
      (one (mark ","))
    return word :: parents)
  let interfaces ← maybe (do
    let word ← keyword "implements"
    let types ← separated (one (rules (.type .inside false))) (one (mark ","))
    return word :: types)
  return parent ++ interfaces

/-- A class from the word `class` on. -/
def classFrom (rules : Rules) (kind : Kind) (named : Bool) (before : List Tree) : Reader Tree := do
  let word ← keyword "class"
  let next ← look nextWord
  let n ← if named then one declaredName
    else if next == "extends" || next == "implements" then pure []
    else maybe (one declaredName)
  let generic ← ifChar '<' (one (typeParameters rules))
  let heritage ← classHeritage rules
  let body ← classBody rules
  return .group kind (before ++ [word] ++ n ++ generic ++ heritage ++ [body])

def classExpression (rules : Rules) : Reader Tree := do
  let decorators ← decorators rules
  classFrom rules .classExpression false decorators

end ModuleAtlas.Grammar
