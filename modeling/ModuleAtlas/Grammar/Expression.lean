import ModuleAtlas.Grammar.Pattern
import ModuleAtlas.Grammar.Class
import ModuleAtlas.Grammar.Markup

/-!
# Expressions

An expression is a head (a literal, a name, something in brackets, or an operator before its
operand) and what extends it. Where an angle bracket may open type arguments or compare, both
readings are kept; of two readings of the same characters the one whose outermost phrase comes
first in `Kind.rank` is preferred.
-/

namespace ModuleAtlas.Grammar

open ModuleAtlas.Source
open Reader

/-! ### Preference -/

/-- The order of preference among readings of the same characters. -/
def rank : Kind → Nat
  | .yielding => 1
  | .markupElement | .markupSelfClosing => 2
  | .construction => 3
  | .awaiting => 4
  | .assignment => 5
  | .augmentedAssignment => 6
  | .ternary => 7
  | .binary => 8
  | .unary => 9
  | .update => 10
  | .assertion => 11
  | .asType => 12
  | .instantiation => 13
  | _ => 0

mutual

/-- Compares two readings: by their outermost phrases, the number of their parts, and then the
parts from the left. -/
def preference : Tree → Tree → Ordering
  | .node l cs, .node m ds =>
    (compare (rank l.kind) (rank m.kind)).then
      ((compare cs.length ds.length).then (preferenceAll cs ds))

def preferenceAll : List Tree → List Tree → Ordering
  | [], _ => .eq
  | _, [] => .eq
  | c :: cs, d :: ds => (preference c d).then (preferenceAll cs ds)

end

/-- For each place where readings end, the preferred one. -/
def preferred (readings : List (Tree × Nat)) : List (Tree × Nat) :=
  match readings with
  | [] => []
  | [r] => [r]
  | readings => readings.foldl (fun kept r =>
      if kept.any (·.2 == r.2) then
        kept.map fun k => if k.2 == r.2 && preference r.1 k.1 == .lt then r else k
      else kept ++ [r]) []

/-! ### What extends an expression -/

/-- Whether an expression of the kind is as firmly closed as a name or a call. -/
def isPrimary (k : Kind) : Bool := rank k == 0

/-- The spelling in the list that stands at the position. -/
def spellingAt? (s : Script) (i : Nat) (spellings : List String) : Option String :=
  spellings.find? (standsAt s i)

/-- What stands behind an expression. -/
def suffixAt (tail : Tail) (s : Script) (i : Nat) : Suffix :=
  if lineEndsPhrase s tail i then .nothing
  else
    let j := skipTrivia s i
    let operator : Suffix :=
      match spellingAt? s j augmentedOperators with
      | some o => .augment o
      | none =>
        match binaryOperators.find? fun o => standsAt s j o.1 with
        | some o => .binary o.1 o.2
        | none => .nothing
    match charAt s j with
    | '.' => .member
    | '[' => .index
    | '(' => .arguments
    | '\x60' => .template
    | '?' =>
      if (ternaryMark? s i).isSome then .ternary
      else if standsAt s j "?." then .optionalAccess
      else operator
    | '!' => if charAt s (j + 1) == '=' then operator else .nonNull
    | '+' => if charAt s (j + 1) == '+' then .update "++" else operator
    | '-' => if charAt s (j + 1) == '-' then .update "--" else operator
    | '<' =>
      if charAt s (j + 1) == '<' || charAt s (j + 1) == '=' then operator else .angle
    | '=' =>
      if charAt s (j + 1) == '=' then operator
      else if charAt s (j + 1) == '>' then .nothing
      else .assign
    | 'a' => if nextWord s i == "as" then .typed "as" else .nothing
    | 's' => if nextWord s i == "satisfies" then .typed "satisfies" else .nothing
    | 'i' =>
      match nextWord s i with
      | "in" => .binary "in" comparisonStrength
      | "instanceof" => .binary "instanceof" comparisonStrength
      | _ => .nothing
    | _ => operator

/-- Words that an opening angle bracket turns into the beginning of a type. -/
def typeOnlyWords : List String :=
  ["keyof", "unique", "infer", "unknown", "never", "abstract", "const"]

/-- Whether what follows an angle bracket goes on as only an expression can: a single word or
literal, and an operator that a type could not have. -/
def comparesOnly (s : Script) (i : Nat) : Bool :=
  let j := skipTrivia s (skipTrivia s i + 1)
  let stop? := match wordEnd? s j with
    | some k => if typeOnlyWords.contains (nextWord s j) then none else some k
    | none => numberEnd? s j
  match stop? with
  | some k =>
    (spellingAt? s (skipTrivia s k) [">>", ">=", "||", "|=", "&&", "&=", "<=", "<<"]).isSome
  | none => false

/-- Extends an expression by what the slot takes. -/
def extend (rules : Rules) (slot : Slot) (tail : Tail) : Nat → Tree → Reader Tree
  | 0, left => pure left
  | fuel + 1, left => do
    let suffix ← look (suffixAt tail)
    if !slot.takes suffix then return left
    let onward (t : Tree) : Reader Tree := extend rules slot tail fuel t
    match suffix with
    | .nothing => return left
    | .member =>
      let dot ← mark "."
      let n ← memberName
      onward (.group .member [left, dot, n])
    | .optionalAccess =>
      let dot ← mark "?."
      match ← look nextChar with
      | '[' =>
        let opening ← mark "["
        let key ← expressions rules .inside
        let closing ← mark "]"
        onward (.group .subscript [left, dot, opening, key, closing])
      | '(' =>
        guarded (isPrimary left.kind)
        let args ← arguments rules
        onward (.group .call [left.withRole .callee, dot, args])
      | '<' =>
        guarded (isPrimary left.kind)
        let types ← typeArguments rules
        let args ← arguments rules
        onward (.group .call [left.withRole .callee, dot, types, args])
      | _ =>
        let n ← memberName
        onward (.group .member [left, dot, n])
    | .index =>
      let opening ← mark "["
      let key ← expressions rules .inside
      let closing ← mark "]"
      onward (.group .subscript [left, opening, key, closing])
    | .arguments =>
      let args ← arguments rules
      onward (.group .call [left.withRole .callee, args])
    | .template =>
      if isPrimary left.kind || left.kind = .construction then
        let text ← template rules
        onward (.group .call [left.withRole .callee, text])
      else return left
    | .nonNull =>
      let sign ← mark "!"
      onward (.group .nonNull [left, sign])
    | .update spelling =>
      let sign ← mark spelling
      onward (.group .update [left, sign])
    | .typed spelling =>
      let word ← keyword spelling
      let t ← rules (.type tail true)
      onward (.group .asType [left, word, t])
    | .ternary =>
      let question ← mark "?"
      let yes ← rules.expression .inside
      let colon ← mark ":"
      let no ← rules.expression tail
      onward (.group .ternary [left, question, yes, colon, no])
    | .assign =>
      if Assignable left.kind || left.kind = .parenthesized then
        let sign ← mark "="
        let value ← rules.expression tail
        onward (.group .assignment [left, sign, value])
      else return left
    | .augment spelling =>
      if Assignable left.kind || left.kind = .parenthesized then
        let sign ← mark spelling
        let value ← rules.expression tail
        onward (.group .augmentedAssignment [left, sign, value])
      else return left
    | .binary spelling strength =>
      let sign ← if spelling == "in" || spelling == "instanceof" then keyword spelling
        else mark spelling
      let right ← rules (.operand (.right strength) tail)
      onward (.group .binary [left, sign.withRole .operator, right])
    | .angle =>
      let typed : Reader Tree := do
        guarded !(← look comparesOnly)
        let types ← typeArguments rules
        if (← look nextChar) == '(' then
          let args ← arguments rules
          onward (.group .call [left.withRole .callee, types, args])
        else onward (.group .instantiation [left, types])
      let compared : Reader Tree := do
        let sign ← mark "<"
        guarded !(typeOnlyWords.contains (← look nextWord))
        let right ← rules (.operand (.right comparisonStrength) tail)
        onward (.group .binary [left, sign.withRole .operator, right])
      both (both typed compared) (if slot.yieldsAngle then pure left else fail)

/-! ### Heads -/

/-- Words that continue an expression and so begin none. -/
def operatorWords : List String := ["in", "instanceof", "as", "satisfies"]

def arrayLiteral (rules : Rules) : Reader Tree := do
  let opening ← mark "["
  let inner ← sparseList (do
    if (← look nextChar) == '.' then both (spread rules) (rules.expression .inside)
    else rules.expression .inside)
  let closing ← mark "]"
  return .group .arrayLiteral (opening :: inner ++ [closing])

/-- A member of an object literal; a lone name is one only if `short`. -/
def objectMember (rules : Rules) (short : Bool) : Reader Tree := do
  let pair := do
    let key ← propertyName rules
    let colon ← mark ":"
    let value ← rules.expression .inside
    return Tree.group .phrase [key, colon, value]
  let rest := if short then [name] else []
  if (← look nextChar) == '.' then both (spread rules) pair
  else firstOf ([pair, method rules [] .inside .inside] ++ rest)

def objectLiteral (rules : Rules) : Reader Tree := do
  let opening ← mark "\x7b"
  let inner ← sparseList (objectMember rules true)
  let closing ← mark "\x7d"
  return .group .objectLiteral (opening :: inner ++ [closing])

/-- Words that mean something of their own at the beginning of a statement, and so are no names
there. -/
def statementWords : List String :=
  ["if", "for", "while", "do", "switch", "try", "with", "return", "throw", "break", "continue",
    "debugger", "var", "const", "function", "class", "import", "delete", "typeof", "void", "yield",
    "await", "interface", "enum", "abstract", "using", "this", "super", "null", "true", "false", "undefined"]

/-- An object literal where a block could stand as well: it does not begin with a lone name, nor
with a word that begins a statement. -/
def plainObject (rules : Rules) : Reader Tree := do
  let opening ← mark "\x7b"
  guarded !(statementWords.contains (← look nextWord))
  let first ← if (← look nextChar) == ',' then pure [] else one (objectMember rules false)
  let rest ← many (do
    let comma ← mark ","
    let next ← maybe (one (objectMember rules true))
    return comma :: next)
  let closing ← mark "\x7d"
  return .group .objectLiteral (opening :: first ++ rest ++ [closing])

/-- The empty object literal. -/
def emptyObject : Reader Tree := do
  let opening ← mark "\x7b"
  let closing ← mark "\x7d"
  return .group .objectLiteral [opening, closing]

def parenthesized (rules : Rules) : Reader Tree := do
  let opening ← mark "("
  let first ← rules.expression .inside
  let rest ← if (← look nextChar) == ':' then one (typeAscription rules .inside)
    else many (do
      let comma ← mark ","
      let e ← rules.expression .inside
      return [comma, e])
  let closing ← mark ")"
  return .group .parenthesized (opening :: first :: rest ++ [closing])

/-- Assignment to a destructured value. -/
def destructuringAssignment (rules : Rules) (tail : Tail) : Reader Tree := do
  let t ← destructuring rules
  let sign ← markUnless "=" fun s i => charAt s i == '=' || charAt s i == '>'
  let value ← rules.expression tail
  return .group .assignment [t, sign, value]

/-- Assignment to a destructured value where a block could stand as well: the pattern does not begin
with a lone name, nor with a word that begins a statement. -/
def plainDestructuring (rules : Rules) (tail : Tail) : Reader Tree := do
  let (w, next) ← look fun s i =>
    let j := skipTrivia s i + 1
    (nextWord s j, nextChar s ((wordEnd? s (skipTrivia s j)).getD j))
  guarded (w == "" || (next == ':' && !statementWords.contains w))
  destructuringAssignment rules tail

/-- The body of an arrow function. -/
def arrowBody (rules : Rules) (tail : Tail) : Reader Tree := do
  if (← look nextChar) == '\x7b' then
    let fuel ← look fun s i => s.size + 1 - i
    let object : Reader Tree := do extend rules .whole tail fuel (← plainObject rules)
    settled (anyOf [object, plainDestructuring rules tail, block rules])
  else rules.expression tail

/-- An arrow function with its parameters in parentheses. -/
def arrow (rules : Rules) (tail : Tail) (async : List Tree) : Reader Tree := do
  let s ← signature rules .inside
  let sign ← mark "=>"
  let body ← arrowBody rules tail
  return .group .arrowFunction (async ++ s ++ [sign, body])

/-- An arrow function of one parameter that stands by itself. -/
def shortArrow (rules : Rules) (tail : Tail) (async : List Tree) : Reader Tree := do
  guarded (async.isEmpty || !operatorWords.contains (← look nextWord))
  let parameter ← name
  let sign ← mark "=>"
  let body ← arrowBody rules tail
  return .group .arrowFunction (async ++ [parameter, sign, body])

/-- A word, as a name or as the parameter of an arrow function. -/
def nameOrArrow (rules : Rules) (tail : Tail) : Reader Tree := do
  let next ← look fun s i =>
    match wordEnd? s (skipTrivia s i) with
    | some k => standsAt s (skipTrivia s k) "=>"
    | none => false
  if next then shortArrow rules tail [] else name

/-- Accesses and templates behind the name of what `new` makes. -/
def constructed (rules : Rules) : Nat → Tree → Reader Tree
  | 0, t => pure t
  | fuel + 1, t => do
    match ← look (suffixAt .inside) with
    | .member =>
      let dot ← mark "."
      let n ← memberName
      constructed rules fuel (.group .member [t, dot, n])
    | .index =>
      let opening ← mark "["
      let key ← expressions rules .inside
      let closing ← mark "]"
      constructed rules fuel (.group .subscript [t, opening, key, closing])
    | .template =>
      let text ← template rules
      constructed rules fuel (.group .call [t.withRole .callee, text])
    | .arguments =>
      if t.kind = .construction then
        let args ← arguments rules
        constructed rules fuel (.group .call [t.withRole .callee, args])
      else return t
    | .optionalAccess =>
      let dot ← mark "?."
      match ← look nextChar with
      | '[' =>
        let opening ← mark "["
        let key ← expressions rules .inside
        let closing ← mark "]"
        constructed rules fuel (.group .subscript [t, dot, opening, key, closing])
      | '(' =>
        let args ← arguments rules
        constructed rules fuel (.group .call [t.withRole .callee, dot, args])
      | _ =>
        let n ← memberName
        constructed rules fuel (.group .member [t, dot, n])
    | _ => return t

/-- `new` with what it makes, or `new.target`. -/
def construction (rules : Rules) : Reader Tree := do
  let word ← keyword "new"
  if (← look nextChar) == '.' then
    let dot ← mark "."
    let target ← keyword "target"
    return .group .phrase [word, dot, target]
  else
    let fuel ← look fun s i => s.size + 1 - i
    let start ← filter (fun t => isPrimary t.kind || t.kind = .construction) (rules (.head .inside))
    let made ← filter (isPrimary ·.kind) (constructed rules fuel start)
    let types ← if (← look (suffixAt .inside)) = .angle then one (typeArguments rules)
      else pure []
    let args ← ifChar '(' (one (arguments rules))
    return .group .construction (word :: made :: types ++ args)

/-- An operator before its operand. -/
def prefixed (rules : Rules) (kind : Kind) (sign : Reader Tree) (slot : Slot) (tail : Tail) :
    Reader Tree := do
  let sign ← sign
  let e ← rules (.operand slot tail)
  return .group kind [sign, e]

/-- Whether an expression may begin with what comes next. -/
def beginsOperand (s : Script) (i : Nat) : Bool :=
  let j := skipTrivia s i
  if (spellingAt? s j (augmentedOperators ++ ["<=", "<<", "!="])).isSome then false
  else if charAt s j == '.' then isDigit (charAt s (j + 1))
  else if "([\x7b/<\x60\"'+-~!@#".contains (charAt s j) && j < s.size then true
  else
    let w := nextWord s j
    if w == "" then isDigit (charAt s j) else !operatorWords.contains w

/-- `yield`, with what it yields or without. -/
def yielded (rules : Rules) (tail : Tail) : Reader Tree := do
  let word ← keyword "yield"
  if ← look (fun s i => lineEndsPhrase s tail i) then return .group .yielding [word]
  if (← look nextChar) == '*' then
    let star ← mark "*"
    let e ← rules.expression tail
    return .group .yielding [word, star, e]
  else if ← look beginsOperand then
    let e ← rules.expression tail
    return .group .yielding [word, e]
  else return .group .yielding [word]

/-- `async` before a function, or as a name. -/
def asynchronous (rules : Rules) (tail : Tail) : Reader Tree := do
  let word ← keyword "async"
  let plain : Reader Tree := pure (.leaf .identifier word.start word.stop)
  if ← look (fun s i => lineEndsPhrase s tail i) then plain
  else
    match ← look nextChar with
    | '(' | '<' => both (arrow rules tail [word]) plain
    | '=' => orElse (arrowFrom word) plain
    | _ =>
      if (← look nextWord) == "function" then functionExpression rules [word]
      else orElse (shortArrow rules tail [word]) plain
where
  /-- An arrow function whose parameter is the word itself. -/
  arrowFrom (word : Tree) : Reader Tree := do
    let sign ← mark "=>"
    let body ← arrowBody rules tail
    return .group .arrowFunction [word, sign, body]

/-- The name of a module or namespace, and its body where it has one. -/
def moduleRest (rules : Rules) (tail : Tail) : Reader (List Tree) := do
  let n ← match ← look nextChar with
    | '"' => quotedText '"'
    | '\'' => quotedText '\''
    | _ => qualifiedName
  let body ← maybe (do
    sameLine tail
    return [← block rules])
  return n :: body

/-- What a word begins. -/
def wordHead (rules : Rules) (tail : Tail) : Reader Tree := do
  match ← look nextWord with
  | "function" => functionExpression rules []
  | "async" => asynchronous rules tail
  | "class" => classExpression rules
  | "new" =>
    let ends ← look fun s i => lineEndsPhrase s tail (skipTrivia s i + 3)
    if ends then name
    else
      let (operand, next) ← look fun s i =>
        (beginsOperand s (skipTrivia s i + 3), nextChar s (skipTrivia s i + 3))
      if operand || next == '.' then construction rules else nameOrArrow rules tail
  | "await" => prefixed rules .awaiting (keyword "await") .awaited tail
  | "typeof" => prefixed rules .unary (keyword "typeof") .unary tail
  | "void" => prefixed rules .unary (keyword "void") .unary tail
  | "delete" => prefixed rules .unary (keyword "delete") .unary tail
  | "yield" => yielded rules tail
  | "this" | "super" | "true" | "false" | "null" => do
    let (_, t) ← word
    return .leaf .literal t.start t.stop
  | "undefined" => name
  | "import" =>
    let word ← keyword "import"
    match ← look nextChar with
    | '.' | '?' =>
      let dot ← orElse (mark "?.") (mark ".")
      let n ← memberName
      return .group .member [word, dot, n]
    | '<' =>
      let types ← typeArguments rules
      let args ← arguments rules
      return .group .call [word.withRole .callee, types, args]
    | _ =>
      let args ← arguments rules
      return .group .call [word.withRole .callee, args]
  | "using" =>
    let word ← keyword "using"
    let t ← both (filter (·.kind = .parenthesized) (rules (.head .inside))) (target rules)
    let sign ← mark "="
    let value ← rules.expression tail
    return .group .assignment [word, t, sign, value]
  | "namespace" =>
    let ends ← look fun s i => lineEndsPhrase s tail (skipTrivia s i + 9)
    if ends then name
    else
      orElse (do
        let word ← keyword "namespace"
        let rest ← moduleRest rules tail
        return .group .phrase (word :: rest)) (nameOrArrow rules tail)
  | _ => nameOrArrow rules tail

/-- An expression without what may extend it. -/
def headRule (rules : Rules) (tail : Tail) : Reader Tree := do
  markupTrivia
  let sign := mark
  match ← look nextChar with
  | '(' => both (arrow rules tail []) (parenthesized rules)
  | '[' => both (destructuringAssignment rules tail) (arrayLiteral rules)
  | '\x7b' => both (destructuringAssignment rules tail) (objectLiteral rules)
  | '<' =>
    let s ← setting
    both (arrow rules tail [])
      (if s.markup then rules .markup
      else do
        let types ← typeArguments rules
        let e ← rules (.operand .asserted tail)
        return .group .assertion [types, e])
  | '\x60' => template rules
  | '"' => quotedText '"'
  | '\'' => quotedText '\''
  | '/' => regexLiteral
  | '@' => classExpression rules
  | '!' => prefixed rules .unary (sign "!") .unary tail
  | '~' => prefixed rules .unary (sign "~") .unary tail
  | '+' =>
    if ← look (fun s i => standsAt s (skipTrivia s i) "++") then
      prefixed rules .update (sign "++") .updated tail
    else prefixed rules .unary (sign "+") .unary tail
  | '-' =>
    if ← look (fun s i => standsAt s (skipTrivia s i) "--") then
      prefixed rules .update (sign "--") .updated tail
    else prefixed rules .unary (sign "-") .unary tail
  | '#' =>
    let n ← privateName
    guarded ((← look nextWord) == "in")
    return n
  | c => if isDigit c || c == '.' then numberLiteral else wordHead rules tail

/-- An expression in a slot. -/
def operandRule (rules : Rules) (slot : Slot) (tail : Tail) : Reader Tree := fun s i p =>
  let read : Reader Tree := do
    let h ← rules (.head tail)
    extend rules slot tail (s.script.size + 1 - i) h
  let (readings, p) := read s i p
  (preferred readings, p)

end ModuleAtlas.Grammar
