/-!
# Reading a text from its start

A scanner reads something from the start of a text and says what is left of it, or finds that it does
not stand there. Loops end because every turn leaves less to read.
-/

namespace ModuleAtlas.Config

/-- Reads from the start of a text. -/
abbrev Scanner := StateT (List Char) Option

namespace Scanner

variable {α : Type}

/-- The next character, which is not read. -/
def peek : Scanner (Option Char) := fun s => some (s.head?, s)

/-- A character of the given kind. -/
def satisfy (p : Char → Bool) : Scanner Char
  | c :: rest => if p c then some (c, rest) else none
  | [] => none

def char (c : Char) : Scanner Unit := do let _ ← satisfy (· == c)

/-- All characters of the given kind that stand side by side. -/
def takeWhile (p : Char → Bool) : Scanner (List Char) := fun s => some (s.span p)

/-- Whether the text starts with the given one, which is read if it does. -/
def starts (t : String) : Scanner Bool := fun s =>
  if t.toList.isPrefixOf s then some (true, s.drop t.length) else some (false, s)

/-- Reads on while what is read stands there and takes something of the text. -/
def manyFrom (a : Scanner α) (s : List Char) : List α × List Char :=
  match a s with
  | some (r, rest) =>
    if rest.length < s.length then
      let (more, rest) := manyFrom a rest
      (r :: more, rest)
    else ([], s)
  | none => ([], s)
termination_by s.length

/-- As many as there are. -/
def many (a : Scanner α) : Scanner (List α) := fun s => some (manyFrom a s)

/-- One or more with a separator between each two. -/
def separated (a : Scanner α) (separator : Scanner Unit) : Scanner (List α) := do
  let first ← a
  let rest ← many (do separator; a)
  pure (first :: rest)

/-- Nothing is left. -/
def atEnd : Scanner Unit
  | [] => some ((), [])
  | _ => none

end Scanner

end ModuleAtlas.Config
