import ModuleAtlas.Grammar.Signature

/-!
# Types

Types, for the most part only to know where they end: nothing in a type counts but the types that
it gives to names in turn, the calls in its queries and the values of its parameters.
-/

namespace ModuleAtlas.Grammar

open ModuleAtlas.Source
open Reader

/-- The members of an object type and of an interface, without the separators. -/
def typeMember (rules : Rules) : Reader (List Tree) := do
  let c ← look nextChar
  let callable := do
    let s ← signature rules .line
    return [Tree.group .phrase s]
  let indexed := one (indexSignature rules)
  let constructor := do
    let abstract ← maybe (one (keyword "abstract"))
    let new ← keyword "new"
    sameLine .line
    let generic ← maybe (one (typeParameters rules))
    let params ← rules .parameters
    let result ← maybe (one (typeAscription rules .line))
    return [Tree.group .phrase (abstract ++ [new] ++ generic ++ [params] ++ result)]
  let named := do
    let access ← modifier accessWords .line
    let static ← modifier ["static"] .line
    let override ← modifier ["override"] .line
    let readonly ← modifier ["readonly"] .line
    let before := access ++ static ++ override ++ readonly
    let property := do
      let n ← propertyName rules
      let mark? ← maybe (one (mark "?"))
      let type ← maybe (one (typeAscription rules .line))
      return [Tree.group .phrase (before ++ [n] ++ mark? ++ type)]
    let method := do
      let async ← modifier ["async"] .line
      let kind ← both (modifier ["get", "set"] .line) (one (mark "*"))
      let n ← propertyName rules
      let mark? ← maybe (one (mark "?"))
      let s ← signature rules .line
      return [Tree.group .phrase (before ++ async ++ kind ++ [n] ++ mark? ++ s)]
    both method property
  if c == '(' || c == '<' then callable
  else if c == '[' || c == '-' || c == '+' then both indexed named
  else
    let w ← look nextWord
    let exported := do
      if w == "export" then
        return [← filter (·.kind = .exportStatement) (rules .statement)]
      else fail
    let readonlyIndex := do
      if w == "readonly" then indexed else fail
    if w == "abstract" then constructor
    else if w == "new" then both constructor named
    else anyOf [exported, readonlyIndex, named]

/-- The members of a type in braces. -/
def objectType (rules : Rules) : Reader Tree := do
  let opening ← orElse (mark "\x7b|") (mark "\x7b")
  let early ← maybe (one (both (mark ",") (mark ";")))
  let separator := orElse (one (mark ",")) (semicolon .line)
  let inner ← (if early.isEmpty then maybe else id) (do
    let members ← separated (settled (typeMember rules)) separator
    let last ← maybe separator
    return members ++ last)
  let closing ← orElse (mark "|\x7d") (mark "\x7d")
  return .group .phrase (opening :: early ++ inner ++ [closing])

/-- Words that mean something of their own where a type may begin. -/
def typeWordsOnly : List String :=
  ["void", "never", "unknown", "unique", "keyof", "infer", "abstract", "typeof", "import", "const",
    "null", "true", "false"]

/-- Words that are types, and names as well. -/
def typeNames : List String :=
  ["number", "string", "boolean", "any", "symbol", "object", "undefined"]

def tupleType (rules : Rules) : Reader Tree := do
  let opening ← mark "["
  let plain := do
    let t ← rules (.type .inside false)
    let mark? ← maybe (one (mark "?"))
    return Tree.group .phrase (t :: mark?)
  let named := do
    guarded !((typeWordsOnly ++ typeNames).contains (← look nextWord))
    let n ← name
    let mark? ← maybe (one (mark "?"))
    let t ← typeAscription rules .inside
    return Tree.group .phrase ([n] ++ mark? ++ [t])
  let rest := do
    let dots ← mark "..."
    let t ← both
      (do
        let n ← rules .pattern
        let t ← typeAscription rules .inside
        return [n, t])
      (one (rules (.type .inside false)))
    return Tree.group .phrase (dots :: t)
  let inner ← orElse (commaList (do
    if (← look nextChar) == '.' then rest else both named plain)) (maybe (one (mark ",")))
  let closing ← mark "]"
  return .group .phrase (opening :: inner ++ [closing])

/-- Whether an opening parenthesis can begin parameters, where a type in parentheses could stand as
well: not before a word that is only a type, nor before a single word that may be one. -/
def opensParameters (s : Script) (i : Nat) : Bool :=
  let j := skipTrivia s i
  if charAt s j != '(' then true
  else
    let k := skipTrivia s (j + 1)
    match wordEnd? s k with
    | none => true
    | some stop =>
      let w := nextWord s k
      !(typeWordsOnly.contains w || (typeNames.contains w && nextChar s stop == ')'))

def functionType (rules : Rules) (tail : Tail) : Reader Tree := do
  guarded (← look opensParameters)
  let generic ← ifChar '<' (one (typeParameters rules))
  let params ← rules .parameters
  let arrow ← mark "=>"
  let result ← resultType rules tail
  return .group .phrase (generic ++ [params, arrow, result])

def constructorType (rules : Rules) (tail : Tail) : Reader Tree := do
  let abstract ← maybe (one (keyword "abstract"))
  let new ← keyword "new"
  let generic ← maybe (one (typeParameters rules))
  let params ← rules .parameters
  let arrow ← mark "=>"
  let result ← rules (.type tail false)
  return .group .phrase (abstract ++ [new] ++ generic ++ [params, arrow, result])

/-- What may follow the beginning of a queried name: accesses, calls and type arguments. -/
def queryAfter (rules : Rules) (tail : Tail) : Nat → Tree → Reader Tree
  | 0, t => pure t
  | fuel + 1, t => do
    if ← look (fun s i => lineEndsPhrase s tail i) then return t
    match ← look nextChar with
    | '.' =>
      orElse (do
        let dot ← mark "."
        let n ← memberName
        queryAfter rules tail fuel (.group .member [t, dot, n])) (pure t)
    | '?' =>
      orElse (do
        let dot ← mark "?."
        let access ← both (one memberName) bracketed
        queryAfter rules tail fuel (.group .member ([t, dot] ++ access))) (pure t)
    | '[' =>
      orElse (do
        let access ← bracketed
        queryAfter rules tail fuel (.group .subscript (t :: access))) (pure t)
    | '(' =>
      if t.kind = .call then return t
      else
        orElse (do
          let args ← arguments rules
          queryAfter rules tail fuel (.group .call [t.withRole .callee, args])) (pure t)
    | '<' =>
      if t.kind = .call then return t
      else
        let args ← typeArguments rules
        return .group .instantiation [t, args]
    | _ => return t
where
  bracketed : Reader (List Tree) := do
    let opening ← mark "["
    let key ← firstOf [stringLiteral, numberLiteral,
      keywordOf ["any", "number", "boolean", "string", "symbol", "void", "unknown", "never", "object"]]
    let closing ← mark "]"
    return [opening, key, closing]

/-- `typeof` and a name, possibly that of an imported module. -/
def typeQuery (rules : Rules) (tail : Tail) : Reader Tree := do
  let typeof ← keyword "typeof"
  let fuel ← look fun s i => s.size + 1 - i
  let start ← if (← look nextWord) == "import" then imported else name
  if start.kind = .instantiation then return .group .phrase [typeof, start]
  else
    let q ← queryAfter rules tail fuel start
    return .group .phrase [typeof, q]
where
  imported : Reader Tree := do
    let importWord ← keyword "import"
    if (← look nextChar) == '<' then
      let args ← typeArguments rules
      return .group .instantiation [importWord, args]
    else
      let args ← arguments rules
      return .group .call [importWord.withRole .callee, args]

/-- An imported module's member as a type. -/
def importedType (rules : Rules) : Reader Tree := do
  let importWord ← keyword "import"
  guarded ((← look nextChar) == '(')
  let rest ← many (do
    if (← look nextChar) == '.' then
      let dot ← mark "."
      let n ← memberName
      return [dot, n]
    else return [← arguments rules])
  return combine importWord rest
where
  /-- Each list of arguments makes a call of all that stands before it. -/
  combine (t : Tree) : List Tree → Tree
    | [] => t
    | [a] => .group .call [t.withRole .callee, a]
    | a :: b :: rest =>
      if a.kind = .token "." then combine (.group .member [t, a, b]) rest
      else combine (.group .call [t.withRole .callee, a]) (b :: rest)

/-- Whether a type, unless it is put in parentheses, is no operand of `?` and `keyof`. -/
def isLoose (t : Tree) : Bool :=
  t.children.any (·.kind = .token "=>") ||
    match t.children with
    | first :: _ => first.kind = .token "readonly" || first.kind = .token "infer"
    | [] => false

/-- A type without what may follow it, and whether brackets may follow it. -/
def typeHead (rules : Rules) (tail : Tail) (operators : Bool) : Reader (Tree × Bool) := do
  let primary (r : Reader Tree) : Reader (Tree × Bool) := do return (← r, true)
  let final (r : Reader Tree) : Reader (Tree × Bool) := do return (← r, false)
  let whole := rules (.type tail operators)
  match ← look nextChar with
  | '(' => both (final (functionType rules tail)) (primary do
      let opening ← mark "("
      let t ← rules (.type .inside false)
      let closing ← mark ")"
      return .group .phrase [opening, t, closing])
  | '<' => final (functionType rules tail)
  | '\x7b' => primary (objectType rules)
  | '[' => primary (tupleType rules)
  | '?' => primary do
      let sign ← mark "?"
      let t ← filter (!isLoose ·) whole
      return .group .phrase [sign, t]
  | '*' => primary (mark "*")
  | '|' => primary do
      let sign ← markUnless "|" fun s i => charAt s i == '\x7d'
      let t ← whole
      return .group .phrase [sign, t]
  | '&' => primary do
      let sign ← mark "&"
      let t ← whole
      return .group .phrase [sign, t]
  | '"' => primary (quotedText '"')
  | '\'' => primary (quotedText '\'')
  | '\x60' => primary (templateOf (one (rules (.type .inside false))))
  | '-' => primary do
      let sign ← mark "-"
      let n ← numberLiteral
      return .group .phrase [sign, n]
  | '+' => primary do
      let sign ← mark "+"
      let n ← numberLiteral
      return .group .phrase [sign, n]
  | c =>
    if isDigit c || c == '.' then primary numberLiteral
    else
      match ← look nextWord with
      | "readonly" => final do
          let word ← keyword "readonly"
          let t ← whole
          return .group .phrase [word, t]
      | "new" | "abstract" => final (constructorType rules tail)
      | "infer" => final do
          let word ← keyword "infer"
          let n ← name
          let bound ← maybe (do
            sameLine tail
            let extends_ ← keyword "extends"
            let t ← whole
            return [extends_, t])
          return .group .phrase ([word, n] ++ bound)
      | "typeof" => primary (typeQuery rules tail)
      | "keyof" => primary do
          let word ← keyword "keyof"
          let t ← filter (!isLoose ·) whole
          return .group .phrase [word, t]
      | "unique" => primary do
          let word ← keyword "unique"
          let symbol ← keyword "symbol"
          return .group .phrase [word, symbol]
      | "import" => final (importedType rules)
      | "any" | "number" | "boolean" | "string" | "symbol" | "void" | "unknown" | "never"
      | "object" | "this" | "true" | "false" | "null" | "undefined" | "const" => primary name
      | _ => primary do
          let n ← qualifiedName
          if (← look nextChar) == '<' && !(← look fun s i => lineEndsPhrase s tail i) then
            let args ← typeArguments rules
            return .group .phrase [n, args]
          else return n

/-- What may follow a type: brackets, further members of a union or an intersection, a condition. -/
def typeAfter (rules : Rules) (tail : Tail) (operators : Bool) : Nat → Tree → Bool → Reader Tree
  | 0, t, _ => pure t
  | fuel + 1, t, primary => do
    if ← look (fun s i => lineEndsPhrase s tail i) then return t
    let joined (sign : Reader Tree) : Reader Tree := do
      let sign ← sign
      let u ← rules (.type tail operators)
      return .group .phrase [t, sign, u]
    match ← look nextChar with
    | '[' =>
      if primary then
        let opening ← mark "["
        let index ← maybe (one (rules (.type .inside false)))
        let closing ← mark "]"
        typeAfter rules tail operators fuel (.group .phrase (t :: opening :: index ++ [closing])) true
      else return t
    | '|' =>
      orElse (joined (markUnless "|" fun s i =>
        charAt s i == '\x7d' || (operators && (charAt s i == '|' || charAt s i == '='))))
        (pure t)
    | '&' =>
      orElse (joined (markUnless "&" fun s i =>
        operators && (charAt s i == '&' || charAt s i == '='))) (pure t)
    | 'e' =>
      if (← look nextWord) == "extends" then
        orElse (do
          let word ← keyword "extends"
          let bound ← rules (.type .inside false)
          let question ← mark "?"
          let yes ← rules (.type .inside false)
          let colon ← mark ":"
          let no ← rules (.type tail operators)
          return .group .phrase [t, word, bound, question, yes, colon, no]) (pure t)
      else return t
    | _ => return t

/-- A type. -/
def typeRule (rules : Rules) (tail : Tail) (operators : Bool) : Reader Tree := do
  let fuel ← look fun s i => s.size + 1 - i
  let (t, primary) ← typeHead rules tail operators
  typeAfter rules tail operators fuel t primary

end ModuleAtlas.Grammar
