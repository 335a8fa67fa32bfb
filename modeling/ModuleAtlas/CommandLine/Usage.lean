import ModuleAtlas.Layout.Settings

/-!
# What a command can be given

Commands are given switches, which stand alone, and slots, which are filled with a text: options by
their names, and one operand without. A command may be given each of them once.

* `Given.read?` reads the words of one command up to the end, or up to a word that stands for a
  command of its own;
* `Slot.check?` says which texts fit into which slot.
-/

namespace ModuleAtlas.CommandLine

/-- Why words are no command, or that they ask for help instead. -/
inductive UsageFault where
  | unknownArgument
  | unknownCommand
  /-- A value is missing, is empty where it must not be, or is not among those allowed. -/
  | invalidValue
  /-- A value is not written as it should be. -/
  | malformedValue
  /-- A switch was given a value. -/
  | needlessValue
  /-- Something was given twice, or together with what excludes it. -/
  | conflict
  | missingArgument
  | helpWanted
  | versionWanted
deriving DecidableEq, Repr, Inhabited

/-- The code that the program ends with. -/
def UsageFault.exitCode : UsageFault → Nat
  | helpWanted => 0
  | versionWanted => 0
  | _ => 2

inductive Switch where
  | verbose
  | help
  | version
  | pretty
  | stdin
deriving DecidableEq, Repr, Inhabited

namespace Switch

def name : Switch → String
  | verbose => "verbose"
  | help => "help"
  | version => "version"
  | pretty => "pretty"
  | stdin => "stdin"

/-- The letter that stands for the switch, if one does. -/
def letter? : Switch → Option Char
  | verbose => some 'v'
  | help => some 'h'
  | version => some 'V'
  | pretty => none
  | stdin => none

end Switch

inductive Slot where
  | operand
  | layout
  | seed
  | config
  | format
  | focus
  | name
deriving DecidableEq, Repr, Inhabited

/-- How the report on a directory is written. -/
inductive Format where
  | json
  | text
deriving DecidableEq, Repr, Inhabited

def Format.ofName? : String → Option Format
  | "json" => some json
  | "text" => some text
  | _ => none

/-- A natural number of 64 bits in decimal digits, a plus before them allowed. -/
def seedOf? (s : String) : Option UInt64 :=
  let digits := match s.toList with
    | '+' :: rest => rest
    | all => all
  if digits.isEmpty || !digits.all Char.isDigit then none
  else
    let n : Nat := digits.foldl (fun n c => 10 * n + (c.toNat - 48)) 0
    if n < 0x10000000000000000 then some n.toUInt64 else none

namespace Slot

/-- The name of an option; the operand has none. -/
def optionName? : Slot → Option String
  | operand => none
  | layout => some "layout"
  | seed => some "seed"
  | config => some "config"
  | format => some "format"
  | focus => some "focus"
  | name => some "name"

/-- Whether a text fits into a slot. -/
def check? (value : String) : Slot → Except UsageFault Unit
  | layout => if (Strategy.ofName? value).isSome then .ok () else .error .invalidValue
  | format => if (Format.ofName? value).isSome then .ok () else .error .invalidValue
  | seed => if (seedOf? value).isSome then .ok () else .error .malformedValue
  | operand | config | focus => if value.isEmpty then .error .invalidValue else .ok ()
  | name => .ok ()

end Slot

/-- What a command knows. -/
structure Shape where
  switches : List Switch
  slots : List Slot
  /-- The words that stand for commands of their own. -/
  commands : List String
deriving Repr, Inhabited

/-- What a command has been given. -/
structure Given where
  switches : List Switch
  values : List (Slot × String)
  /-- The slot that was named last, and what it is to be filled with, which has not been checked. -/
  pending : Option (Slot × Option String)
deriving DecidableEq, Repr, Inhabited

namespace Given

def nothing : Given := ⟨[], [], none⟩

def has (g : Given) (s : Switch) : Bool := g.switches.contains s

def value? (g : Given) (s : Slot) : Option String := g.values.lookup s

/-- Fills a slot. -/
def fill? (g : Given) (s : Slot) (value : String) : Except UsageFault Given :=
  if (g.value? s).isSome then .error .conflict
  else do
    s.check? value
    pure { g with values := g.values ++ [(s, value)] }

/-- Fills the slot that was named last. -/
def settle? (g : Given) : Except UsageFault Given :=
  match g.pending with
  | none => .ok g
  | some (_, none) => .error .invalidValue
  | some (s, some value) => { g with pending := none }.fill? s value

/-- Takes a switch. -/
def switch? (g : Given) (s : Switch) : Except UsageFault Given := do
  let g ← g.settle?
  match s with
  | .help => .error .helpWanted
  | .version => .error .versionWanted
  | s => if g.has s then .error .conflict else pure { g with switches := g.switches ++ [s] }

/-- Takes a word that begins with two dashes, which are left out here. -/
def long? (shape : Shape) (g : Given) (word : List Char) : Except UsageFault Given :=
  let name := String.ofList (word.takeWhile (· != '='))
  let attached := match word.dropWhile (· != '=') with
    | [] => none
    | _ :: value => some (String.ofList value)
  match shape.slots.find? fun s => s.optionName? = some name, attached with
  | some s, some value => do
    let g ← g.settle?
    g.fill? s value
  | some s, none => do
    let g ← g.settle?
    pure { g with pending := some (s, none) }
  | none, attached =>
    match shape.switches.find? fun s => s.name = name with
    | none => .error .unknownArgument
    | some s => if attached.isSome then .error .needlessValue else g.switch? s

/-- Takes the letters of a word that begins with one dash. -/
def letters? (shape : Shape) (g : Given) : List Char → Except UsageFault Given
  | [] => .ok g
  | c :: rest =>
    match shape.switches.find? fun s => s.letter? = some c with
    | none => .error .unknownArgument
    | some s => do
      let g ← g.switch? s
      letters? shape g rest

/-- Whether the operand has been given. -/
def hasOperand (g : Given) : Bool :=
  (g.value? .operand).isSome || g.pending.any (·.1 = .operand)

/-- Takes a word as the operand; `isLast` says that no word is an option any more. -/
def operand? (shape : Shape) (isLast : Bool) (g : Given) (word : String) :
    Except UsageFault Given :=
  if shape.slots.contains .operand then
    if g.hasOperand then .error .unknownArgument
    else do
      let g ← g.settle?
      pure { g with pending := some (.operand, some word) }
  else if isLast && shape.commands.contains word then .error .unknownArgument
  else .error .unknownCommand

/-- Takes a word. -/
def word? (shape : Shape) (g : Given) (word : String) : Except UsageFault Given :=
  match word.toList with
  | '-' :: '-' :: rest => g.long? shape rest
  | '-' :: c :: rest => g.letters? shape (c :: rest)
  | _ =>
    match g.pending with
    | some (s, none) => .ok { g with pending := some (s, some word) }
    | _ => g.operand? shape false word

/-- Takes the words behind two lone dashes. -/
def operands? (shape : Shape) (g : Given) : List String → Except UsageFault Given
  | [] => g.settle?
  | w :: rest => do
    let g ← g.operand? shape true w
    operands? shape g rest

/-- Reads the words of a command; with what was given comes the command that a word stands for, and
the words behind it. -/
def read? (shape : Shape) (g : Given) :
    List String → Except UsageFault (Given × Option (String × List String))
  | [] => do
    let g ← g.settle?
    pure (g, none)
  | w :: rest =>
    if shape.commands.contains w then .ok (g, some (w, rest))
    else if w = "--" then do
      let g ← g.operands? shape rest
      pure (g, none)
    else do
      let g ← g.word? shape w
      read? shape g rest

end Given

end ModuleAtlas.CommandLine
