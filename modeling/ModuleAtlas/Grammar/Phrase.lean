import ModuleAtlas.Grammar.Reader

/-!
# Phrases

The phrases of a script that contain one another, and the operators of its expressions with their
strengths. The rules for the phrases are ordinary functions of the readers for all phrases
(`Rules`); `Grammar.Parse` ties them together.

* `Slot.takes` is the whole table of precedence: whether an expression that stands in some slot
  takes the next operator to itself or leaves it to what surrounds the slot.
-/

namespace ModuleAtlas.Grammar

open ModuleAtlas.Source

/-- Where an expression stands, seen from an operator behind it. -/
inductive Slot where
  /-- By itself, or to the right of an assignment, an arrow or a colon: it takes every operator. -/
  | whole
  /-- The initial value of a loop variable, where `in` begins the rest of the loop's head. -/
  | loopValue
  /-- Where only accesses and calls may follow. -/
  | chain
  /-- To the right of a binary operator of the given strength. -/
  | right (strength : Nat)
  | unary
  | awaited
  | updated
  | asserted
deriving DecidableEq, Repr, Inhabited

/-- The next thing behind an expression that could extend it. -/
inductive Suffix where
  | member
  | optionalAccess
  | index
  | arguments
  | template
  /-- An opening angle bracket: type arguments, or the comparison. -/
  | angle
  | nonNull
  | update (spelling : String)
  /-- A type given with `as` or `satisfies`. -/
  | typed (spelling : String)
  | ternary
  | assign
  | augment (spelling : String)
  | binary (spelling : String) (strength : Nat)
  | nothing
deriving DecidableEq, Repr, Inhabited

/-- The strength of comparison, and of `<` with it. -/
def comparisonStrength : Nat := 9

/-- The strength of the power operator, the only one that associates to the right. -/
def powerStrength : Nat := 13

/-- The binary operators with their strengths, a longer spelling before its beginnings. -/
def binaryOperators : List (String × Nat) :=
  [("===", 8), ("!==", 8), (">>>", 10), ("**", powerStrength), ("&&", 4), ("||", 3), ("??", 2),
    ("==", 8), ("!=", 8), ("<=", comparisonStrength), (">=", comparisonStrength), ("<<", 10),
    (">>", 10), (">", comparisonStrength), ("+", 11), ("-", 11), ("*", 12), ("/", 12), ("%", 12),
    ("&", 7), ("^", 6), ("|", 5)]

/-- The operators that assign what they compute. -/
def augmentedOperators : List String :=
  [">>>=", "&&=", "||=", "??=", "**=", "<<=", ">>=", "+=", "-=", "*=", "/=", "%=", "^=", "&=",
    "|="]

/-- Whether an expression in the slot takes the operator. -/
def Slot.takes : Slot → Suffix → Bool
  | _, .nothing => false
  | .chain, s =>
    (s matches .member | .optionalAccess | .index | .arguments | .template | .nonNull)
  | _, .member | _, .optionalAccess | _, .index | _, .arguments | _, .template | _, .assign
  | _, .augment _ | _, .angle => true
  | .whole, _ => true
  | .loopValue, s => s != .binary "in" comparisonStrength
  | .right n, .binary _ m => n < m || (n == powerStrength && m == powerStrength)
  | .right n, .nonNull | .right n, .typed _ => n == powerStrength
  | .right _, .update _ => true
  | .right _, .ternary => false
  | .awaited, s => (s matches .nonNull | .typed _ | .update _)
  | .unary, s | .updated, s => (s matches .update _)
  | .asserted, _ => false

/-- Whether the comparison may as well be left to what surrounds the slot, though the expression
could take it. -/
def Slot.yieldsAngle : Slot → Bool
  | .right n => comparisonStrength < n
  | .unary | .awaited | .updated => true
  | _ => false

/-- The phrases that the rules refer to. -/
inductive Phrase where
  | statement
  /-- An expression without what may extend it. -/
  | head (tail : Tail)
  | operand (slot : Slot) (tail : Tail)
  /-- A type; an operator of expressions may follow it, or not. -/
  | type (tail : Tail) (operators : Bool)
  | pattern
  | parameters
  | markup
deriving DecidableEq, Repr, Inhabited

def Tail.code : Tail → Nat
  | .inside => 0
  | .line => 1
  | .signature => 2
  | .operand => 3

def Slot.code : Slot → Nat
  | .whole => 0
  | .loopValue => 1
  | .chain => 2
  | .unary => 3
  | .awaited => 4
  | .updated => 5
  | .asserted => 6
  | .right n => 7 + n

/-- A number for each phrase, below `Phrase.codes`. -/
def Phrase.code : Phrase → Nat
  | .statement => 0
  | .pattern => 1
  | .parameters => 2
  | .markup => 3
  | .head t => 4 + t.code
  | .type t operators => 8 + 2 * t.code + operators.toNat
  | .operand s t => 16 + 4 * s.code + t.code

def Phrase.codes : Nat := 128

/-- Readers for all phrases. -/
abbrev Rules := Phrase → Reader Tree

namespace Rules

def expression (rules : Rules) (tail : Tail) : Reader Tree := rules (.operand .whole tail)

end Rules

end ModuleAtlas.Grammar
