/-!
# Values of configuration documents

What a key of a configuration document can be set to.
-/

namespace ModuleAtlas.Config

/-- How a table came to be, which decides what may still be added to it. -/
inductive Form where
  /-- It is written in braces and complete. -/
  | closed
  /-- It has a header of its own. -/
  | header
  /-- The header of a table within it mentions it. -/
  | implied
  /-- A dotted key mentions it. -/
  | dotted
deriving DecidableEq, Repr, Inhabited

inductive Value where
  | text (s : String)
  | integer (i : Int)
  | number (x : Float)
  | boolean (b : Bool)
  /-- A date or a time of day. -/
  | date
  | list (values : List Value)
  /-- A list of tables with a header for each. -/
  | tables (values : List Value)
  | table (form : Form) (entries : List (String × Value))
deriving Repr, Inhabited

/-- The content of a table. -/
abbrev Entries := List (String × Value)

namespace Value

/-- The fields of a record, which may be given by name, or in the order of their names. A date is a
record without any. -/
def fields? (names : List String) : Value → Option Entries
  | table _ entries => some entries
  | list values => some (names.zip values)
  | tables values => some (names.zip values)
  | date => some []
  | _ => none

def text? : Value → Option String
  | text s => some s
  | _ => none

def texts? : Value → Option (List String)
  | list values => values.mapM text?
  | tables values => values.mapM text?
  | _ => none

/-- A natural number of 64 bits. -/
def natural? : Value → Option Nat
  | integer i => if 0 ≤ i ∧ i < 0x10000000000000000 then some i.toNat else none
  | _ => none

/-- A number; integers are numbers. -/
def number? : Value → Option Float
  | integer i => some (Float.ofInt i)
  | number x => some x
  | _ => none

def isEmpty : Value → Bool
  | list values => values.isEmpty
  | tables values => values.isEmpty
  | table _ entries => entries.isEmpty
  | _ => false

/-- One of several names: written as a text, or as the only key of a table with nothing under it. -/
def name? : Value → Option String
  | text s => some s
  | table _ [(key, v)] => if v.isEmpty then some key else none
  | _ => none

end Value

/-- The value of a key, or what stands for it if the key is absent; `none` if the value does not
fit. -/
def Entries.getD? {α : Type} (entries : Entries) (key : String) (absent : α)
    (read : Value → Option α) : Option α :=
  match entries.lookup key with
  | some v => read v
  | none => some absent

end ModuleAtlas.Config
