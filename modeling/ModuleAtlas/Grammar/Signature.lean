import ModuleAtlas.Grammar.Name

/-!
# Signatures

Type parameters, parameters and the types given to names, parameters and results.
-/

namespace ModuleAtlas.Grammar

open ModuleAtlas.Source
open Reader

/-- A colon and a type. -/
def typeAscription (rules : Rules) (tail : Tail) : Reader Tree := do
  let colon ← mark ":"
  let t ← rules (.type tail false)
  return .group .typeAscription [colon, t]

/-- `=` and a value. -/
def initializer (rules : Rules) (tail : Tail) : Reader (List Tree) := do
  let sign ← mark "="
  let value ← rules.expression tail
  return [sign, value]

/-- `x is T`, said of a parameter or of `this`. -/
def typePredicate (rules : Rules) (tail : Tail) : Reader Tree := do
  let subject ← name
  sameLine tail
  let is ← keyword "is"
  let t ← rules (.type tail false)
  return .group .phrase [subject, is, t]

/-- `asserts x` or `asserts x is T`. -/
def typeAssertion (rules : Rules) (tail : Tail) : Reader Tree := do
  let asserts ← keyword "asserts"
  guarded ((← look nextWord) != "is")
  let subject ← orElse (typePredicate rules tail) name
  return .group .phrase [asserts, subject]

/-- A type; the word `asserts` begins none. -/
def resultOnly (rules : Rules) (tail : Tail) : Reader Tree := do
  guarded ((← look nextWord) != "asserts")
  rules (.type tail false)

/-- The result of a function type: a type, or what a call tells of its arguments. -/
def resultType (rules : Rules) (tail : Tail) : Reader Tree :=
  orElse (both (typePredicate rules tail) (typeAssertion rules tail)) (resultOnly rules tail)

/-- A colon and the result of a function. -/
def resultAscription (rules : Rules) (tail : Tail) : Reader Tree := do
  let colon ← mark ":"
  let told := do
    let t ← both (typePredicate rules tail) (typeAssertion rules tail)
    return .group .phrase [colon, t]
  orElse told do
    let t ← resultOnly rules tail
    return .group .typeAscription [colon, t]

def typeParameter (rules : Rules) : Reader Tree := do
  let const ← maybe (one (keyword "const"))
  let n ← name
  let bound ← maybe (do
    let sign ← orElse (keyword "extends") (mark ":")
    let t ← rules (.type .inside false)
    return [sign, t])
  let default ← maybe (do
    let sign ← mark "="
    let t ← rules (.type .inside false)
    return [sign, t])
  return .group .phrase (const ++ [n] ++ bound ++ default)

/-- Items with commas between them and possibly one more comma at the end. -/
def commaList (item : Reader Tree) : Reader (List Tree) := do
  let inner ← separated (one item) (one (mark ","))
  let last ← maybe (one (mark ","))
  return inner ++ last

def typeParameters (rules : Rules) : Reader Tree := do
  let opening ← mark "<"
  let inner ← commaList (typeParameter rules)
  let closing ← mark ">"
  return .group .phrase (opening :: inner ++ [closing])

def typeArguments (rules : Rules) : Reader Tree := do
  let opening ← mark "<"
  let inner ← commaList (rules (.type .inside false))
  let closing ← mark ">"
  return .group .phrase (opening :: inner ++ [closing])

/-- Words before a name, or none of them: a word that ends its line is a name itself. -/
def modifier (words : List String) (tail : Tail) : Reader (List Tree) := do
  if words.contains (← look nextWord) then
    optional do
      let t ← keywordOf words
      sameLine tail
      return [t]
  else return []

def accessWords : List String := ["public", "private", "protected"]

/-- The question mark of an optional parameter. -/
def optionalMark : Reader (List Tree) := maybe do
  guarded (← look ternaryMark?).isNone
  return [← mark "?"]

def parameter (rules : Rules) : Reader Tree := do
  let decorators ← decorators rules
  let access ← modifier accessWords .inside
  let override ← modifier ["override"] .inside
  let readonly ← modifier ["readonly"] .inside
  let pattern ← if (← look nextWord) == "this" then
      both (keyword "this") (rules .pattern)
    else rules .pattern
  let mark? ← optionalMark
  let type ← maybe (one (typeAscription rules .inside))
  let value ← maybe (initializer rules .inside)
  return .group .phrase (decorators ++ access ++ override ++ readonly ++ [pattern] ++ mark? ++ type ++
    value)

/-- The parameters of a function, in parentheses. -/
def parameterList (rules : Rules) : Reader Tree := do
  let opening ← mark "("
  let inner ← maybe (commaList (parameter rules))
  let closing ← mark ")"
  return .group .phrase (opening :: inner ++ [closing])

/-- Type parameters, parameters and a result. -/
def signature (rules : Rules) (tail : Tail) : Reader (List Tree) := do
  let generic ← ifChar '<' (one (typeParameters rules))
  let params ← rules .parameters
  let result ← maybe (do
    sameLine tail
    return [← resultAscription rules tail])
  return generic ++ [params] ++ result

/-- A key and its type, for all keys of a kind. -/
def indexSignature (rules : Rules) : Reader Tree := do
  let readonly ← maybe (do
    let sign ← maybe (one (both (mark "-") (mark "+")))
    let word ← keyword "readonly"
    return sign ++ [word])
  let opening ← mark "["
  let key ← both
    (do
      let n ← name
      let colon ← mark ":"
      let t ← rules (.type .inside false)
      return [n, colon, t])
    (do
      let n ← name
      let inWord ← keyword "in"
      let t ← rules (.type .inside false)
      let renamed ← maybe (do
        let asWord ← keyword "as"
        let t ← rules (.type .inside false)
        return [asWord, t])
      return [n, inWord, t] ++ renamed)
  let closing ← mark "]"
  let type ← anyOf [
    one (typeAscription rules .line),
    do
      let sign ← anyOf [mark "-?:", mark "+?:", mark "?:"]
      let t ← rules (.type .line false)
      return [sign, t]]
  return .group .phrase (readonly ++ [opening] ++ key ++ [closing] ++ type)

end ModuleAtlas.Grammar
