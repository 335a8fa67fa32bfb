import ModuleAtlas.Source.Cursor

/-!
# Items

What an analysis learns from a source file: the modules that it names, what it declares, where it
branches. Each item comes from one node of the file's tree, and most nodes yield none.

* `Item.ofTree?` is the item of a node;
* `itemsOf` lists the items of a tree in the order of the walk.
-/

namespace ModuleAtlas.Source

inductive Item where
  /-- A module that is imported. -/
  | importFrom (source : String)
  /-- A module some of whose members are exported again, by name or under one name. -/
  | exportFrom (source : String)
  /-- A module all of whose members are exported again. -/
  | exportAll (source : String)
  /-- An export that names no module. -/
  | exportLocal
  | function (name : Option String)
  | classLike (name : Option String)
  | interface (name : String)
  | typeAlias (name : String)
  | typeAscription
  | call (callee : String)
  /-- A point where control may go two ways. -/
  | branch
  | markup
deriving DecidableEq, Repr, Inhabited

/-- The text that a node covers. -/
def Tree.textIn (script : Array Char) (t : Tree) : String :=
  String.ofList (script.extract t.start t.stop).toList

/-- The text of the first child that plays the given part. -/
def Tree.roleText? (script : Array Char) (t : Tree) (r : Role) : Option String :=
  (t.child? r).map (Tree.textIn script)

def isQuote (c : Char) : Bool := c == '"' || c == '\'' || c == '\x60'

/-- A text without the quotes at both ends, however many there are. -/
def unquote (s : String) : String :=
  String.ofList ((s.toList.dropWhile isQuote).reverse.dropWhile isQuote).reverse

namespace Item

/-- The module that an import statement names, be it behind `from` or in a call of `require`. -/
def importedModule? (script : Array Char) (t : Tree) : Option String :=
  match t.roleText? script .source with
  | some text => some (unquote text)
  | none =>
    (t.childOfKind? .importRequire).bind fun clause =>
      (clause.roleText? script .source).map unquote

/-- An export is of all members only with a bare `*`. -/
def ofExport (script : Array Char) (t : Tree) : Item :=
  match t.roleText? script .source with
  | none => exportLocal
  | some text =>
    let source := unquote text
    if t.children.any (·.kind = .token "*") && !t.children.any (·.kind = .namespaceExport) then
      exportAll source
    else exportFrom source

/-- The operators that need not evaluate their second operand. -/
def isShortCircuit (t : Tree) : Bool :=
  match t.child? .operator with
  | some o => o.kind = .token "&&" || o.kind = .token "||" || o.kind = .token "??"
  | none => false

/-- The item that a node yields; a mere token yields none. -/
def ofTree? (script : Array Char) (t : Tree) : Option Item :=
  if !t.kind.isNamed then none else
  match t.kind with
  | .importStatement => (importedModule? script t).map importFrom
  | .exportStatement => some (ofExport script t)
  | .functionDeclaration | .generatorDeclaration | .functionExpression | .generatorExpression
  | .arrowFunction | .methodDefinition => some (function (t.roleText? script .name))
  | .classDeclaration | .abstractClassDeclaration | .classExpression =>
    some (classLike (t.roleText? script .name))
  | .interfaceDeclaration => (t.roleText? script .name).map interface
  | .typeAliasDeclaration => (t.roleText? script .name).map typeAlias
  | .typeAscription => some typeAscription
  | .call => (t.roleText? script .callee).map call
  | .ifStatement | .forStatement | .forInStatement | .whileStatement | .doStatement | .switchCase
  | .catchClause | .ternary => some branch
  | .binary => if isShortCircuit t then some branch else none
  | .markupElement | .markupSelfClosing => some markup
  | _ => none

/-- The module that an item names. -/
def module? : Item → Option String
  | importFrom source | exportFrom source | exportAll source => some source
  | _ => none

end Item

/-- The items of a tree, in the order of the walk. -/
def itemsOf (script : Array Char) (t : Tree) : List Item :=
  (Cursor.walk t).filterMap (Item.ofTree? script)

end ModuleAtlas.Source
