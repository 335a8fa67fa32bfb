import Std.Data.HashMap
import ModuleAtlas.Source.Tree
import ModuleAtlas.Grammar.Lexeme

/-!
# Readers

A reader looks for a phrase at a position of a script and answers with every way to read it, the
preferred one first, each with the position behind it. Where two phrases begin alike (a
parenthesis may open an expression or the parameters of a function) both readings are kept until
what follows decides. What was read at a position is remembered, so that no phrase is read twice
there, and so is the furthest token that did not fit.

* `both` keeps the readings of two readers, `orElse` those of the second only where the first has
  none;
* `optional` reads something or nothing, `maybe` only takes nothing where there is nothing;
* `many` reads on for as long as it can;
* `mark`, `word`, `keyword` read one token.
-/

namespace ModuleAtlas.Grammar

open ModuleAtlas.Source

/-- What stays the same while a script is read: its characters, and whether the dialect has markup
elements (and hence no type assertions in angle brackets). -/
structure Setting where
  script : Script
  markup : Bool
deriving Inhabited

/-- What a reading leaves behind: the readings of each phrase at each place, and the furthest
position of a token that did not fit. -/
structure Progress where
  known : Std.HashMap Nat (List (Tree × Nat)) := ∅
  reached : Nat := 0
deriving Inhabited

def Reader (α : Type) : Type :=
  Setting → Nat → Progress → List (α × Nat) × Progress

namespace Reader

variable {α β : Type}

protected def pure (a : α) : Reader α := fun _ i p => ([(a, i)], p)

/-- Reads one thing after the other, for every reading of the first. -/
protected def bind (r : Reader α) (f : α → Reader β) : Reader β := fun s i p =>
  match r s i p with
  | ([], p) => ([], p)
  | ([(a, j)], p) => f a s j p
  | (readings, p) =>
    readings.foldl (fun (found, p) (a, j) =>
      let (more, p) := f a s j p
      (found ++ more, p)) ([], p)

instance : Monad Reader where
  pure := Reader.pure
  bind := Reader.bind

instance : Inhabited (Reader α) := ⟨fun _ _ p => ([], p)⟩

/-- No reading. -/
def fail : Reader α := fun _ _ p => ([], p)

/-- The readings of the first reader, then those of the second. -/
def both (r t : Reader α) : Reader α := fun s i p =>
  let (found, p) := r s i p
  let (more, p) := t s i p
  (found ++ more, p)

/-- The readings of the first reader; those of the second if the first has none. -/
def orElse (r t : Reader α) : Reader α := fun s i p =>
  match r s i p with
  | ([], p) => t s i p
  | found => found

/-- The readings of all readers in the list. -/
def anyOf : List (Reader α) → Reader α
  | [] => fail
  | r :: rs => both r (anyOf rs)

/-- The readings of the first reader in the list that has any. -/
def firstOf : List (Reader α) → Reader α
  | [] => fail
  | r :: rs => orElse r (firstOf rs)

/-- Reads something, or nothing. -/
def optional (r : Reader (List α)) : Reader (List α) := both r (pure [])

/-- Reads nothing only where there is nothing to read. -/
def maybe (r : Reader (List α)) : Reader (List α) := orElse r (pure [])

/-- At most `fuel` of the same, in reversed order before those already read. -/
def manyAfter (r : Reader (List α)) : Nat → List (List α) → Reader (List α)
  | 0, acc => pure acc.reverse.flatten
  | fuel + 1, acc => fun s i p =>
    match r s i p with
    | ([], p) => ([(acc.reverse.flatten, i)], p)
    | ([(a, j)], p) =>
      if j > i then manyAfter r fuel (a :: acc) s j p else ([(acc.reverse.flatten, i)], p)
    | (readings, p) =>
      readings.foldl (fun (found, p) (a, j) =>
        if j > i then
          let (more, p) := manyAfter r fuel (a :: acc) s j p
          (found ++ more, p)
        else (found, p)) ([], p)

/-- As many of the same as there are. -/
def many (r : Reader (List α)) : Reader (List α) := fun s i p =>
  manyAfter r (s.script.size + 1 - i) [] s i p

/-- Keeps, of the readings that end at one place, the first. -/
def distinct (readings : List (α × Nat)) : List (α × Nat) :=
  match readings with
  | [] => []
  | [r] => [r]
  | readings => readings.foldl (fun kept r =>
      if kept.any (·.2 == r.2) then kept else kept ++ [r]) []

/-- One reading for each place where the readings end. -/
def settled (r : Reader α) : Reader α := fun s i p =>
  let (readings, p) := r s i p
  (distinct readings, p)

/-- Only the readings that pass the test. -/
def filter (test : α → Bool) (r : Reader α) : Reader α := fun s i p =>
  let (readings, p) := r s i p
  (readings.filter (test ·.1), p)

def setting : Reader Setting := fun s i p => ([(s, i)], p)

def position : Reader Nat := fun _ i p => ([(i, i)], p)

/-- What a function of the script and the position says. -/
def look (f : Script → Nat → β) : Reader β := fun s i p => ([(f s.script i, i)], p)

/-- Goes on only if the test holds. -/
def guarded (test : Bool) : Reader Unit := if test then pure () else fail

/-- Notes that the token at the position does not fit. -/
def stuckAt (i : Nat) : Reader α := fun _ _ p =>
  ([], if i > p.reached then { p with reached := i } else p)

/-- A leaf that ends where the function says, behind blanks and comments. -/
def lexeme (kind : Kind) (end? : Script → Nat → Option Nat) : Reader Tree := fun s i p =>
  let j := skipTrivia s.script i
  match end? s.script j with
  | some k => ([(.leaf kind j k, k)], p)
  | none => stuckAt j s i p

/-- The mark, which no other character that the test admits may extend. -/
def markUnless (text : String) (extends? : Script → Nat → Bool) : Reader Tree :=
  lexeme (.token text) fun s j =>
    if standsAt s j text && !extends? s (j + text.length) then some (j + text.length) else none

def mark (text : String) : Reader Tree := markUnless text fun _ _ => false

/-- A word with its spelling. -/
def word : Reader (String × Tree) := fun s i p =>
  let j := skipTrivia s.script i
  match wordEnd? s.script j with
  | some k => ([((String.ofList (s.script.extract j k).toList, .leaf .identifier j k), k)], p)
  | none => stuckAt j s i p

/-- The next word, read over nothing; empty if there is none. -/
def nextWord (s : Script) (i : Nat) : String :=
  let j := skipTrivia s i
  match wordEnd? s j with
  | some k => String.ofList (s.extract j k).toList
  | none => ""

/-- The given word, as a token. -/
def keyword (spelling : String) : Reader Tree := fun s i p =>
  let j := skipTrivia s.script i
  let k := j + spelling.length
  if standsAt s.script j spelling && wordEnd? s.script j == some k then
    ([(.leaf (.token spelling) j k, k)], p)
  else stuckAt j s i p

/-- One of the given words, as a token. -/
def keywordOf (spellings : List String) : Reader Tree := do
  let (w, t) ← word
  if spellings.contains w then return .leaf (.token w) t.start t.stop
  else stuckAt t.start

/-- What the reader reads, as a list of one. -/
def one (r : Reader α) : Reader (List α) := do
  let a ← r
  return [a]

/-- The end of a statement: a semicolon, or nothing where a line may end it. -/
def semicolon (tail : Tail) : Reader (List Tree) := fun s i p =>
  if lineEndsPhrase s.script tail i then ([([], i)], p)
  else (one (mark ";")) s i p

/-- The next visible character. -/
def nextChar (s : Script) (i : Nat) : Char := charAt s (skipTrivia s i)

/-- Reads something where the next visible character is the given one, and nothing elsewhere. -/
def ifChar (c : Char) (r : Reader (List α)) : Reader (List α) := fun s i p =>
  if nextChar s.script i == c then r s i p else ([([], i)], p)

/-- Reads something where the next word is the given one, and nothing elsewhere. -/
def ifWord (spelling : String) (r : Reader (List α)) : Reader (List α) := fun s i p =>
  if nextWord s.script i == spelling then r s i p else ([([], i)], p)

/-- Reads something where the phrase goes on, and nothing where a line may end it. -/
def unlessLineEnds (tail : Tail) (r : Reader (List α)) : Reader (List α) := fun s i p =>
  if lineEndsPhrase s.script tail i then ([([], i)], p) else r s i p

/-- Goes on only where no line may end the phrase. -/
def sameLine (tail : Tail) : Reader Unit := fun s i p =>
  if lineEndsPhrase s.script tail i then ([], p) else ([((), i)], p)

/-- Passes blanks and all comments, those of markup included. -/
def markupTrivia : Reader Unit := fun s i p => ([((), skipMarkupTrivia s.script i)], p)

/-- Items with a separator between them, and possibly one at the end. -/
def separated (item separator : Reader (List α)) : Reader (List α) := do
  let first ← item
  let rest ← many (do
    let m ← separator
    let t ← item
    return m ++ t)
  return first ++ rest

end Reader

end ModuleAtlas.Grammar
