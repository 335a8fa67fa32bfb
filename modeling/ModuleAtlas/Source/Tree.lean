/-!
# Trees of a source text

The tree that reading a script yields. A node knows what it is (`Kind`), what it is to its parent
(`Role`) and which stretch of the text it covers; everything else an analysis needs is read off
these three. Tokens are nodes too: keywords, operators and punctuation are leaves of kind
`Kind.token`, and only they are anonymous.

* `Tree.preorder` lists a tree's nodes, each before those inside it.
-/

namespace ModuleAtlas.Source

/-- What a node is. Constructs that no analysis tells apart share `phrase`. -/
inductive Kind where
  /-- A keyword, operator or mark, spelled as given. -/
  | token (spelling : String)
  | program
  | importStatement
  /-- The `x = require("…")` of an import statement. -/
  | importRequire
  | exportStatement
  /-- The `* as x` of an export statement. -/
  | namespaceExport
  | functionDeclaration
  | generatorDeclaration
  | functionExpression
  | generatorExpression
  | arrowFunction
  | methodDefinition
  | classDeclaration
  | abstractClassDeclaration
  | classExpression
  | interfaceDeclaration
  | typeAliasDeclaration
  /-- A colon with the type that it gives to a name, a parameter or a result. -/
  | typeAscription
  | ifStatement
  | forStatement
  | forInStatement
  | whileStatement
  | doStatement
  | switchCase
  | catchClause
  | ternary
  | binary
  | unary
  | update
  | assignment
  | augmentedAssignment
  | awaiting
  | yielding
  | call
  | construction
  | member
  | subscript
  | nonNull
  | parenthesized
  | identifier
  | literal
  | objectLiteral
  | arrayLiteral
  | assertion
  | asType
  | instantiation
  | markupElement
  | markupSelfClosing
  | phrase
deriving DecidableEq, Repr, Inhabited

namespace Kind

/-- Whether nodes of this kind have a name of their own, rather than being a mere token. -/
def isNamed : Kind → Bool
  | token _ => false
  | _ => true

end Kind

/-- What a node is to its parent. -/
inductive Role where
  /-- The name that a declaration introduces. -/
  | name
  /-- The text that an import or export names its module with. -/
  | source
  /-- What a call calls. -/
  | callee
  /-- The operator of a binary expression. -/
  | operator
deriving DecidableEq, Repr, Inhabited

/-- What is known of a node without its children: the stretch is from `start` up to, and without,
`stop`, counted in characters. -/
structure Label where
  kind : Kind
  role : Option Role
  start : Nat
  stop : Nat
deriving DecidableEq, Repr, Inhabited

/-- A node over the nodes inside it, in the order of the text. -/
inductive Tree where
  | node (label : Label) (children : List Tree)
deriving Repr, Inhabited

namespace Tree

def label : Tree → Label
  | node l _ => l

def children : Tree → List Tree
  | node _ cs => cs

def kind (t : Tree) : Kind := t.label.kind
def role (t : Tree) : Option Role := t.label.role
def start (t : Tree) : Nat := t.label.start
def stop (t : Tree) : Nat := t.label.stop

/-- The same node with the given part to play in its parent. -/
def withRole (r : Role) : Tree → Tree
  | node l cs => node { l with role := some r } cs

/-- A leaf of the given kind. -/
def leaf (kind : Kind) (start stop : Nat) : Tree :=
  node ⟨kind, none, start, stop⟩ []

/-- A node that covers exactly its children. -/
def group (kind : Kind) (children : List Tree) : Tree :=
  node ⟨kind, none, (children.head?.map start).getD 0, (children.getLast?.map stop).getD 0⟩ children

/-- The first child that plays the given part. -/
def child? (t : Tree) (r : Role) : Option Tree :=
  t.children.find? (·.role = some r)

/-- The first child of the given kind. -/
def childOfKind? (t : Tree) (k : Kind) : Option Tree :=
  t.children.find? (·.kind = k)

mutual

/-- The nodes of a tree, each before the nodes inside it. -/
def preorder : Tree → List Tree
  | node l cs => node l cs :: preorderAll cs

/-- The nodes of several trees, one tree after the other. -/
def preorderAll : List Tree → List Tree
  | [] => []
  | t :: ts => preorder t ++ preorderAll ts

end

end Tree

end ModuleAtlas.Source
