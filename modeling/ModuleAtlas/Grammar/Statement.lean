import ModuleAtlas.Grammar.Expression
import ModuleAtlas.Grammar.Type

/-!
# Statements and declarations
-/

namespace ModuleAtlas.Grammar

open ModuleAtlas.Source
open Reader

/-! ### Declarations -/

/-- One of the names that a declaration introduces, with its type and value. -/
def declarator (rules : Rules) (slot : Slot) : Reader (List Tree × Tail) := do
  let n ← binding rules
  let ends ← look fun s i => lineEndsPhrase s .line i
  if ends then return ([n], .line)
  if (← look nextChar) == '!' then
    guarded (n.kind = .identifier)
    let sign ← mark "!"
    let type ← typeAscription rules .line
    return ([.group .phrase [n, sign, type]], .line)
  let type ← maybe (one (typeAscription rules .line))
  let value ← unlessLineEnds .line <| maybe (do
    let sign ← mark "="
    let e ← rules (.operand slot .operand)
    return [sign, e])
  return ([.group .phrase ([n] ++ type ++ value)], if value.isEmpty then .line else .operand)

/-- Names with commas between them, and what may follow the last. -/
def declarators (rules : Rules) : Nat → Reader (List Tree × Tail)
  | 0 => fail
  | fuel + 1 => do
    let (first, tail) ← declarator rules .whole
    let ends ← look fun s i => lineEndsPhrase s tail i
    if !ends && (← look nextChar) == ',' then
      let comma ← mark ","
      let (rest, tail) ← declarators rules fuel
      return (first ++ comma :: rest, tail)
    else return (first, tail)

/-- `var`, `let` or `const` with the names that it declares. -/
def variableDeclaration (rules : Rules) : Reader Tree := do
  let word ← keywordOf ["var", "let", "const"]
  let fuel ← look fun s i => s.size + 1 - i
  let (names, tail) ← declarators rules fuel
  let ending ← semicolon tail
  return .group .phrase (word :: names ++ ending)

/-- A named function, or its signature. -/
def functionDeclaration (rules : Rules) : Reader Tree := do
  let async ← maybe (one (keyword "async"))
  let word ← keyword "function"
  if (← look nextChar) == '*' then
    let star ← mark "*"
    let n ← name
    let s ← signature rules .inside
    let body ← block rules
    return .group .generatorDeclaration (async ++ [word, star, n.withRole .name] ++ s ++ [body])
  else
    let n ← name
    let s ← signature rules .signature
    if (← look nextChar) == '\x7b' then
      let body ← block rules
      return .group .functionDeclaration (async ++ [word, n.withRole .name] ++ s ++ [body])
    else
      let ending ← semicolon .signature
      return .group .phrase (async ++ [word, n] ++ s ++ ending)

def interfaceDeclaration (rules : Rules) : Reader Tree := do
  let word ← keyword "interface"
  let n ← name
  let generic ← ifChar '<' (one (typeParameters rules))
  let parents ← maybe (do
    let word ← keyword "extends"
    let types ← separated
      (do
        let n ← qualifiedName
        let args ← ifChar '<' (one (typeArguments rules))
        return n :: args)
      (one (mark ","))
    return word :: types)
  let body ← objectType rules
  return .group .interfaceDeclaration ([word, n.withRole .name] ++ generic ++ parents ++ [body])

def enumDeclaration (rules : Rules) : Reader Tree := do
  let const ← maybe (one (keyword "const"))
  let word ← keyword "enum"
  let n ← name
  let opening ← mark "\x7b"
  let inner ← maybe (commaList (do
    let n ← propertyName rules
    let value ← maybe (initializer rules .inside)
    return .group .phrase (n :: value)))
  let closing ← mark "\x7d"
  return .group .phrase (const ++ [word, n, opening] ++ inner ++ [closing])

def typeAliasDeclaration (rules : Rules) : Reader Tree := do
  let word ← keyword "type"
  let n ← name
  let generic ← ifChar '<' (one (typeParameters rules))
  let sign ← mark "="
  let t ← rules (.type .line false)
  let ending ← semicolon .line
  return .group .typeAliasDeclaration ([word, n.withRole .name] ++ generic ++ [sign, t] ++ ending)

/-- `import A = B.C;` -/
def importAlias : Reader Tree := do
  let word ← keyword "import"
  guarded !(["type", "typeof"].contains (← look nextWord))
  let n ← name
  let sign ← mark "="
  guarded ((← look nextWord) != "require")
  let t ← qualifiedName
  let ending ← semicolon .line
  return .group .phrase ([word, n, sign, t] ++ ending)

/-- Whether the word at the position is followed by a line's end that makes it a statement. -/
def standsAlone (tail : Tail) (s : Script) (i : Nat) : Bool :=
  match wordEnd? s (skipTrivia s i) with
  | some k => lineEndsPhrase s tail k
  | none => false

/-- The word behind the next one. -/
def secondWord (s : Script) (i : Nat) : String :=
  match wordEnd? s (skipTrivia s i) with
  | some k => nextWord s k
  | none => ""

/-- The character behind the next word. -/
def secondChar (s : Script) (i : Nat) : Char :=
  match wordEnd? s (skipTrivia s i) with
  | some k => nextChar s k
  | none => nul

/-- Whether a star that multiplies nothing stands behind the next word. -/
def startsStar (s : Script) (i : Nat) : Bool :=
  match wordEnd? s (skipTrivia s i) with
  | some k =>
    let j := skipTrivia s k
    charAt s j == '*' && charAt s (j + 1) != '*' && charAt s (j + 1) != '='
  | none => false

/-- Whether a name could be followed by a word and an expression still not go on. -/
def beginsName (w : String) : Bool :=
  w != "" && !(["in", "instanceof", "as", "satisfies"].contains w)

/-- `module` or `namespace` with its name and body. -/
def moduleDeclaration (rules : Rules) (word : String) : Reader Tree := do
  let word ← keyword word
  let rest ← moduleRest rules .inside
  return .group .phrase (word :: rest)

/-- A class, with the decorators before it. -/
def classDeclaration (rules : Rules) (before : List Tree) : Reader Tree := do
  if (← look nextWord) == "abstract" then
    let word ← keyword "abstract"
    classFrom rules .abstractClassDeclaration true (before ++ [word])
  else classFrom rules .classDeclaration true before

/-- A class where an expression could stand as well, and so an unnamed one. -/
def classStatement (rules : Rules) (before : List Tree) : Reader Tree := do
  guarded !((← look nextWord) == "class" && ["extends", "implements"].contains (← look secondWord))
  classDeclaration rules before

/-- `declare` and a declaration, or what it adds to the global names. -/
def ambient (rules : Rules) (declaration : Reader Tree) : Reader Tree := do
  let word ← keyword "declare"
  let inner ← match ← look nextWord with
    | "global" => both forAll (one declaration)
    | "module" => if (← look secondChar) == '.' then memberOfModule else one declaration
    | _ => one declaration
  return .group .phrase (word :: inner)
where
  forAll : Reader (List Tree) := do
    let global ← keyword "global"
    let body ← block rules
    return [global, body]
  memberOfModule : Reader (List Tree) := do
    let module ← keyword "module"
    let dot ← mark "."
    let n ← name
    let colon ← mark ":"
    let t ← rules (.type .line false)
    let ending ← semicolon .line
    return [module, dot, n, colon, t] ++ ending

/-- What may stand behind `export` and `declare`; declarations may themselves be declared, `fuel`
times at the most. -/
def declarationIn (rules : Rules) : Nat → Reader Tree
  | 0 => fail
  | fuel + 1 => do
    match ← look nextWord with
    | "function" => functionDeclaration rules
    | "async" => functionDeclaration rules
    | "var" | "let" => variableDeclaration rules
    | "const" =>
      if (← look secondWord) == "enum" then enumDeclaration rules else variableDeclaration rules
    | "class" | "abstract" => classDeclaration rules []
    | "module" => moduleDeclaration rules "module"
    | "namespace" => moduleDeclaration rules "namespace"
    | "type" => typeAliasDeclaration rules
    | "enum" => enumDeclaration rules
    | "interface" => interfaceDeclaration rules
    | "import" => importAlias
    | "declare" => ambient rules (declarationIn rules fuel)
    | _ =>
      if (← look nextChar) == '@' then
        let decorators ← decorators rules
        classDeclaration rules decorators
      else fail

def declaration (rules : Rules) : Reader Tree := fun s i p =>
  declarationIn rules (s.script.size + 1 - i) s i p

/-! ### Imports and exports -/

/-- `from` and the name of a module. -/
def fromClause : Reader (List Tree) := do
  let word ← keyword "from"
  let source ← stringLiteral
  return [word, source.withRole .source]

/-- A name of a module's member: a word or a quoted text. -/
def memberOfSource : Reader Tree := do
  match ← look nextChar with
  | '"' => quotedText '"'
  | '\'' => quotedText '\''
  | _ => name

/-- Words that restrict an import or an export to types. -/
def typeWords : List String := ["type", "typeof"]

/-- A name that is exported, and the name under which; `type` before it is never a name. -/
def exportedName : Reader Tree := do
  let typed ← if typeWords.contains (← look nextWord) then one (keywordOf typeWords) else pure []
  let n ← memberOfSource
  let renamed ← maybe (do
    let word ← keyword "as"
    let m ← memberOfSource
    return [word, m])
  return .group .phrase (typed ++ [n] ++ renamed)

/-- A name that is imported, and the name under which; only a quoted name has to be renamed. -/
def importedName : Reader Tree := do
  let typed ← if (← look secondWord) == "as" then pure [] else optional (one (keywordOf typeWords))
  let n ← memberOfSource
  let rename : Reader (List Tree) := do
    let word ← keyword "as"
    let m ← name
    return [word, m]
  let renamed ← if n.kind = .literal then rename else maybe rename
  return .group .phrase (typed ++ [n] ++ renamed)

/-- Names in braces. -/
def namesInBraces (item : Reader Tree) : Reader Tree := do
  let opening ← mark "\x7b"
  let inner ← orElse (commaList item) (maybe (one (mark ",")))
  let closing ← mark "\x7d"
  return .group .phrase (opening :: inner ++ [closing])

/-- `* as x`, of an import. -/
def importAll : Reader Tree := do
  let star ← mark "*"
  let word ← keyword "as"
  let n ← name
  return .group .phrase [star, word, n]

/-- `* as x`, of an export. -/
def exportAllAs : Reader Tree := do
  let star ← mark "*"
  let word ← keyword "as"
  let n ← memberOfSource
  return .group .namespaceExport [star, word, n]

def importStatement (rules : Rules) : Reader Tree := do
  let word ← keyword "import"
  let typed ← if (← look secondWord) == "from" then pure [] else optional (one (keywordOf typeWords))
  let inner ← match ← look nextChar with
    | '"' => one (sourceText '"')
    | '\'' => one (sourceText '\'')
    | _ =>
      let clause : Reader (List Tree) := do
        match ← look nextChar with
        | '*' => return [← importAll]
        | '\x7b' => return [← namesInBraces importedName]
        | _ =>
          guarded ((← look nextWord) != "typeof")
          let n ← name
          let more ← maybe (do
            let comma ← mark ","
            let rest ← both importAll (namesInBraces importedName)
            return [comma, rest])
          return n :: more
      anyOf [
        do
          let c ← clause
          let f ← fromClause
          return c ++ f,
        do
          guarded !(typeWords.contains (← look nextWord))
          let n ← name
          let sign ← mark "="
          let require ← keyword "require"
          let opening ← mark "("
          let source ← stringLiteral
          let closing ← mark ")"
          return [.group .importRequire [n, sign, require, opening, source.withRole .source, closing]]]
  let attributes ← unlessLineEnds .line <| maybe (do
    let word ← keyword "with"
    let o ← objectLiteral rules
    return [.group .phrase [word, o]])
  let ending ← semicolon .line
  return .group .importStatement (word :: typed ++ inner ++ attributes ++ ending)

/-- An export, from the word `export` on. -/
def exportFrom (rules : Rules) (before : List Tree) : Reader Tree := do
  let word ← keyword "export"
  let made (rest : List Tree) : Tree := .group .exportStatement (before ++ word :: rest)
  let declared : Reader Tree := do return made [← declaration rules]
  match ← look nextChar with
  | '*' =>
    guarded before.isEmpty
    let clause ← both (one (mark "*")) (one exportAllAs)
    let f ← fromClause
    let ending ← semicolon .line
    return made (clause ++ f ++ ending)
  | '\x7b' =>
    guarded before.isEmpty
    let names ← namesInBraces exportedName
    let f ← unlessLineEnds .line <| maybe fromClause
    let ending ← semicolon .line
    return made (names :: f ++ ending)
  | '=' =>
    guarded before.isEmpty
    let sign ← markUnless "=" fun s i => charAt s i == '=' || charAt s i == '>'
    let e ← rules.expression .operand
    let ending ← semicolon .operand
    return made ([sign, e] ++ ending)
  | _ =>
    match ← look nextWord with
    | "default" =>
      let word ← keyword "default"
      let value : Reader Tree := do
        guarded !(["interface", "enum", "abstract", "var", "const"].contains (← look nextWord))
        let e ← rules.expression .operand
        let ending ← semicolon .operand
        return made ([word, e] ++ ending)
      let declared : Reader Tree := do
        guarded !((← look nextWord) == "class" &&
          ["extends", "implements"].contains (← look secondWord))
        return made [word, ← declaration rules]
      settled (both declared value)
    | "as" =>
      guarded before.isEmpty
      let as ← keyword "as"
      let namespaceWord ← keyword "namespace"
      let n ← name
      let ending ← semicolon .line
      return made ([as, namespaceWord, n] ++ ending)
    | "type" =>
      orElse declared do
        guarded before.isEmpty
        let type ← keyword "type"
        let names ← namesInBraces exportedName
        let f ← unlessLineEnds .line <| maybe fromClause
        let ending ← semicolon .line
        return made ([type, names] ++ f ++ ending)
    | _ => declared

/-! ### Statements -/

/-- An expression in parentheses, on which a statement depends. -/
def condition (rules : Rules) : Reader Tree := parenthesized rules

def expressionStatement (rules : Rules) : Reader Tree := do
  let e ← expressions rules .operand
  let ending ← semicolon .operand
  return .group .phrase (e :: ending)

def ifStatement (rules : Rules) : Reader Tree := do
  let word ← keyword "if"
  let c ← condition rules
  let yes ← rules .statement
  let no ← ifWord "else" (do
    let word ← keyword "else"
    let s ← rules .statement
    return [.group .phrase [word, s]])
  return .group .ifStatement ([word, c, yes] ++ no)

/-- The head of a loop over keys or values. -/
def loopOver (rules : Rules) : Reader (List Tree) := do
  let opening ← mark "("
  let continues : Reader Unit := do
    guarded !(← look fun s i => charAt s (skipTrivia s i) != '}' && lineEndsPhrase s .operand i)
  let left ← anyOf [
    do
      guarded !(["var", "const"].contains (← look nextWord))
      let t ← both (target rules)
        (filter (·.kind = .parenthesized) (rules (.operand .chain .inside)))
      continues
      return [t],
    do
      let word ← keyword "var"
      let n ← binding rules
      let value ← maybe (do
        let sign ← mark "="
        let e ← rules (.operand .loopValue .inside)
        return [sign, e])
      return [word, n] ++ value,
    do
      let word ← keywordOf ["let", "const"]
      guarded !(word.kind = .token "let" && (← look nextWord) == "in")
      let n ← binding rules
      continues
      return [word, n]]
  let word ← keywordOf ["in", "of"]
  let e ← expressions rules .inside
  let closing ← mark ")"
  return [opening] ++ left ++ [word, e, closing]

/-- The head of a loop with a condition and a step. -/
def loopWhile (rules : Rules) : Reader (List Tree) := do
  let opening ← mark "("
  let first ← if (← look nextChar) == ';' then mark ";"
    else
      match ← look nextWord with
      | "var" | "const" => variableDeclaration rules
      | "let" =>
        if ← look (standsAlone .operand) then expressionStatement rules
        else both (variableDeclaration rules) (expressionStatement rules)
      | _ => expressionStatement rules
  let second ← if (← look nextChar) == ';' then mark ";" else expressionStatement rules
  let third ← maybe (one (expressions rules .inside))
  let closing ← mark ")"
  return [opening, first, second] ++ third ++ [closing]

def forStatement (rules : Rules) : Reader Tree := do
  let word ← keyword "for"
  let overAll := do
    let await ← maybe (one (keyword "await"))
    let head ← loopOver rules
    let body ← rules .statement
    return Tree.group .forInStatement (word :: await ++ head ++ [body])
  let stepping := do
    let head ← loopWhile rules
    let body ← rules .statement
    return Tree.group .forStatement (word :: head ++ [body])
  both overAll stepping

def whileStatement (rules : Rules) : Reader Tree := do
  let word ← keyword "while"
  let c ← condition rules
  let body ← rules .statement
  return .group .whileStatement [word, c, body]

def doStatement (rules : Rules) : Reader Tree := do
  let word ← keyword "do"
  let body ← rules .statement
  let again ← keyword "while"
  let c ← condition rules
  let ending ← maybe (semicolon .line)
  return .group .doStatement ([word, body, again, c] ++ ending)

def tryStatement (rules : Rules) : Reader Tree := do
  let word ← keyword "try"
  let body ← block rules
  let handler ← ifWord "catch" (do
    let word ← keyword "catch"
    let caught ← ifChar '(' (do
      let opening ← mark "("
      let n ← binding rules
      let type ← maybe (one (typeAscription rules .inside))
      let closing ← mark ")"
      return [opening, n] ++ type ++ [closing])
    let body ← block rules
    return [.group .catchClause (word :: caught ++ [body])])
  let final ← ifWord "finally" (do
    let word ← keyword "finally"
    let body ← block rules
    return [.group .phrase [word, body]])
  return .group .phrase ([word, body] ++ handler ++ final)

def withStatement (rules : Rules) : Reader Tree := do
  let word ← keyword "with"
  let c ← condition rules
  let body ← rules .statement
  return .group .phrase [word, c, body]

/-- A case of a `switch`, with the statements up to the next one. -/
def switchCase (rules : Rules) : Reader Tree := do
  let statements : Reader (List Tree) := many (do
    guarded !(["case", "default"].contains (← look nextWord))
    return [← rules .statement])
  if (← look nextWord) == "case" then
    let word ← keyword "case"
    let value ← expressions rules .inside
    let colon ← mark ":"
    let body ← statements
    return .group .switchCase ([word, value, colon] ++ body)
  else
    let word ← keyword "default"
    let colon ← mark ":"
    let body ← statements
    return .group .phrase ([word, colon] ++ body)

def switchStatement (rules : Rules) : Reader Tree := do
  let word ← keyword "switch"
  let value ← condition rules
  let opening ← mark "\x7b"
  let cases ← many (one (switchCase rules))
  let closing ← mark "\x7d"
  return .group .phrase ([word, value, opening] ++ cases ++ [closing])

/-- `break` or `continue`, with a label or without. -/
def jump (spelling : String) : Reader Tree := do
  let word ← keyword spelling
  let label ← unlessLineEnds .line <| maybe (one name)
  let ending ← semicolon .line
  return .group .phrase (word :: label ++ ending)

def returnStatement (rules : Rules) : Reader Tree := do
  let word ← keyword "return"
  if ← look (fun s i => lineEndsPhrase s .line i) then return .group .phrase [word]
  if (← look nextChar) == ';' then return .group .phrase [word, ← mark ";"]
  let e ← expressions rules .operand
  let ending ← semicolon .operand
  return .group .phrase ([word, e] ++ ending)

def throwStatement (rules : Rules) : Reader Tree := do
  let word ← keyword "throw"
  let e ← expressions rules .operand
  let ending ← semicolon .operand
  return .group .phrase ([word, e] ++ ending)

/-- A statement with a label before it. -/
def labeled (rules : Rules) : Reader Tree := do
  let n ← name
  let colon ← mark ":"
  let s ← rules .statement
  return .group .phrase [n, colon, s]

/-- An expression statement from its first expression's head on. -/
def expressionFrom (rules : Rules) (head : Reader Tree) : Reader Tree := do
  let fuel ← look fun s i => s.size + 1 - i
  let h ← head
  let first ← extend rules .whole .operand fuel h
  let rest ← many (do
    sameLine .operand
    let comma ← mark ","
    let e ← rules.expression .operand
    return [comma, e])
  let ending ← semicolon .operand
  return .group .phrase (first :: rest ++ ending)

/-- Goes on only before what continues an expression and begins no statement. -/
def continuing : Reader Unit := do
  guarded !(← look beginsOperand)
  guarded ((← look nextChar) != ';')

/-- What begins with a brace: an object literal where it is one beyond doubt, else a block. -/
def bracedStatement (rules : Rules) : Reader Tree :=
  anyOf [expressionFrom rules (plainObject rules),
    expressionFrom rules (plainDestructuring rules .operand), block rules,
    expressionFrom rules emptyObjectOnly]
where
  emptyObjectOnly : Reader Tree := do
    let o ← emptyObject
    continuing
    return o

/-- A statement that begins with a word. -/
def wordStatement (rules : Rules) : Reader Tree := do
  let w ← look nextWord
  let alone ← look (standsAlone .operand)
  let next ← look secondWord
  let mark ← look secondChar
  let plain :=
    orElse (if mark == ':' && !statementWords.contains w then labeled rules else fail)
      (expressionStatement rules)
  let named := beginsName next || mark == '"' || mark == '\''
  let declared (test : Bool) (r : Reader Tree) : Reader Tree :=
    if test && !alone then orElse r plain else plain
  match w with
  | "debugger" => jumpless "debugger"
  | "var" => variableDeclaration rules
  | "const" => if next == "enum" then enumDeclaration rules else variableDeclaration rules
  | "let" =>
    if !alone && (beginsName next || mark == '[' || mark == '\x7b') then variableDeclaration rules
    else plain
  | "if" => ifStatement rules
  | "switch" => switchStatement rules
  | "for" => forStatement rules
  | "while" => whileStatement rules
  | "do" => doStatement rules
  | "try" => tryStatement rules
  | "with" => withStatement rules
  | "break" => jump "break"
  | "continue" => jump "continue"
  | "return" => returnStatement rules
  | "throw" => throwStatement rules
  | "enum" => enumDeclaration rules
  | "interface" => interfaceDeclaration rules
  | "abstract" => classDeclaration rules []
  | "function" => both (functionDeclaration rules) (expressionStatement rules)
  | "class" => both (classStatement rules []) (expressionStatement rules)
  | "async" =>
    declared (next == "function") (both (functionDeclaration rules) (expressionStatement rules))
  | "module" => declared named (moduleDeclaration rules "module")
  | "namespace" => declared named (both (moduleDeclaration rules "namespace") (expressionFrom rules namespaceValue))
  | "type" => declared (beginsName next) (typeAliasDeclaration rules)
  | "declare" => declared (beginsName next || mark == '@') (ambient rules (declaration rules))
  | "export" =>
    let committed := mark == '\x7b' || next == "as" || (← look startsStar)
    if alone && mark != '*' then plain
    else if committed then exportFrom rules []
    else orElse (exportFrom rules []) plain
  | "import" =>
    if mark == '(' || mark == '.' || mark == '<' || mark == '?' then expressionStatement rules
    else both (importStatement rules) importAlias
  | _ => plain
where
  /-- A namespace as the beginning of an expression. -/
  namespaceValue : Reader Tree := do
    let n ← rules (.head .operand)
    continuing
    return n
  /-- A word and the end of the statement. -/
  jumpless (spelling : String) : Reader Tree := do
    let word ← keyword spelling
    let ending ← semicolon .line
    return .group .phrase (word :: ending)

def statementRule (rules : Rules) : Reader Tree := do
  markupTrivia
  match ← look nextChar with
  | ';' => mark ";"
  | '\x7b' => bracedStatement rules
  | '@' =>
    both
      (do
        let before ← decorators rules
        if (← look nextWord) == "export" then exportFrom rules before
        else classStatement rules before)
      (expressionStatement rules)
  | _ =>
    if (← look nextWord) == "" then expressionStatement rules else wordStatement rules

end ModuleAtlas.Grammar
