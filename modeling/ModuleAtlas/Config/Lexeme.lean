import ModuleAtlas.Config.Scanner
import ModuleAtlas.Config.Value

/-!
# Words of a configuration document

Blanks, comments and line ends, keys, and the values that are a single word: texts in four kinds of
quotes, numbers, dates, and the names of the two truth values.
-/

namespace ModuleAtlas.Config

namespace Lexeme

open Scanner

/-! ### Blanks and comments -/

def isBlank (c : Char) : Bool := c == ' ' || c == '\t'

/-- A character that may stand in a line: no control character but the tab. -/
def isLineChar (c : Char) : Bool := c == '\t' || (' ' ≤ c && c.toNat ≠ 127)

def blanks : Scanner Unit := do let _ ← takeWhile isBlank

/-- A line feed, with or without a carriage return before it. -/
def newline : Scanner Unit := do
  let _ ← optional (char '\r')
  char '\n'

def lineEnd : Scanner Unit := newline <|> atEnd

/-- A comment up to the end of its line, if there is one. -/
def comment : Scanner Unit := do
  if ← starts "#" then
    let _ ← takeWhile isLineChar

/-- What may follow a statement in its line. -/
def tail : Scanner Unit := do
  blanks
  comment
  lineEnd

/-- What may stand between the elements of a list. -/
def gap : Scanner Unit := do
  let _ ← many (do
    blanks
    comment
    newline)
  blanks

/-! ### Texts -/

/-- The code point of so many hexadecimal digits. -/
def codePoint (count : Nat) : Scanner Char := fun s =>
  let digits := s.take count
  let isDigit (c : Char) : Bool := c.isDigit || ('a' ≤ c && c ≤ 'f') || ('A' ≤ c && c ≤ 'F')
  let value (c : Char) : Nat :=
    if c.isDigit then c.toNat - 48 else if c.isLower then c.toNat - 87 else c.toNat - 55
  if digits.length = count ∧ digits.all isDigit then
    let n := digits.foldl (fun n c => 16 * n + value c) 0
    if n.isValidChar then some (Char.ofNat n, s.drop count) else none
  else none

/-- What follows a backslash. -/
def escape : Scanner Char := do
  match ← satisfy fun _ => true with
  | 'b' => pure '\x08'
  | 't' => pure '\t'
  | 'n' => pure '\n'
  | 'f' => pure '\x0c'
  | 'r' => pure '\r'
  | '"' => pure '"'
  | '\\' => pure '\\'
  | 'u' => codePoint 4
  | 'U' => codePoint 8
  | _ => failure

/-- A character of a text in double quotes. -/
def basicChar : Scanner Char :=
  (satisfy fun c => isLineChar c && c != '"' && c != '\\') <|> (do
    char '\\'
    escape)

/-- A text in double quotes, in one line. -/
def basic : Scanner String := do
  char '"'
  let cs ← many basicChar
  char '"'
  pure (String.ofList cs)

/-- A text in single quotes, in one line; no character has a meaning of its own. -/
def literal : Scanner String := do
  char '\''
  let cs ← takeWhile fun c => isLineChar c && c != '\''
  char '\''
  pure (String.ofList cs)

/-- One or two quotes that are not the end of a text of several lines. -/
def innerQuotes (quote : Char) : Scanner (List Char) := fun s =>
  let n := (s.takeWhile (· == quote)).length
  if n = 1 ∨ n = 2 then some (List.replicate n quote, s.drop n) else none

/-- The end of a text of several lines: three quotes, and up to two more before them that belong to
the text. -/
def outerQuotes (quote : Char) : Scanner (List Char) := fun s =>
  let n := (s.takeWhile (· == quote)).length
  if 3 ≤ n ∧ n ≤ 5 then some (List.replicate (n - 3) quote, s.drop n) else none

def brokenLine : Scanner (List Char) := do
  newline
  pure ['\n']

/-- A backslash at the end of a line takes away all blanks and line ends up to the next word. -/
def joinedLines : Scanner (List Char) := do
  char '\\'
  blanks
  newline
  let _ ← takeWhile fun c => isBlank c || c == '\n' || c == '\r'
  pure []

/-- A text of several lines in three quotes; a line end that follows them is left out. -/
def severalLines (quote : Char) (piece : Scanner (List Char)) : Scanner String := do
  let _ ← optional newline
  let pieces ← many (piece <|> brokenLine <|> innerQuotes quote)
  let last ← outerQuotes quote
  pure (String.ofList (pieces.flatten ++ last))

def text : Scanner String := do
  if ← starts "\"\"\"" then
    severalLines '"' (([·]) <$> basicChar <|> joinedLines)
  else if ← starts "'''" then
    severalLines '\'' (([·]) <$> satisfy fun c => isLineChar c && c != '\'')
  else basic <|> literal

/-! ### Keys -/

def isKeyChar (c : Char) : Bool := c.isAlphanum || c == '_' || c == '-'

def simpleKey : Scanner String :=
  basic <|> literal <|> (do
    let cs ← takeWhile isKeyChar
    if cs.isEmpty then failure else pure (String.ofList cs))

/-- A key with its parts; there may be up to 79. -/
def key : Scanner (List String) := do
  let part : Scanner String := do
    blanks
    let k ← simpleKey
    blanks
    pure k
  let parts ← separated part (char '.')
  if parts.length < 80 then pure parts else failure

/-! ### Numbers -/

/-- Digits, between which an underscore may stand. -/
def digits (isDigit : Char → Bool) : Scanner (List Char) := do
  let first ← satisfy isDigit
  let rest ← many (satisfy isDigit <|> (do
    char '_'
    satisfy isDigit))
  pure (first :: rest)

def valueOf (base : Nat) (ds : List Char) : Nat :=
  ds.foldl (fun n c =>
    let digit :=
      if c.isDigit then c.toNat - 48 else if c.isLower then c.toNat - 87 else c.toNat - 55
    base * n + digit) 0

/-- An optional sign: whether it is a minus. -/
def minus : Scanner Bool := do
  if ← starts "-" then pure true
  else
    let _ ← starts "+"
    pure false

/-- A whole number without a superfluous zero at its front. -/
def whole : Scanner (List Char) := do
  if ← starts "0" then pure ['0'] else digits Char.isDigit

/-- An integer of 64 bits. -/
def bounded (i : Int) : Scanner Value :=
  if -0x8000000000000000 ≤ i ∧ i < 0x8000000000000000 then pure (.integer i) else failure

def integer : Scanner Value := do
  let isHexDigit (c : Char) : Bool :=
    c.isDigit || ('a' ≤ c && c ≤ 'f') || ('A' ≤ c && c ≤ 'F')
  if ← starts "0x" then
    let ds ← digits isHexDigit
    bounded (valueOf 16 ds)
  else if ← starts "0o" then
    let ds ← digits fun c => '0' ≤ c && c ≤ '7'
    bounded (valueOf 8 ds)
  else if ← starts "0b" then
    let ds ← digits fun c => c == '0' || c == '1'
    bounded (valueOf 2 ds)
  else
    let negative ← minus
    let ds ← whole
    bounded (if negative then -(valueOf 10 ds : Int) else valueOf 10 ds)

/-- The floating-point number nearest to a decimal. -/
def nearest (mantissa : Nat) (exponent : Int) : Float :=
  let magnitude := exponent + (Nat.toDigits 10 mantissa).length
  if mantissa = 0 ∨ magnitude < -400 then 0.0
  else if magnitude > 400 then 1.0 / 0.0
  else Float.ofScientific mantissa (exponent < 0) exponent.natAbs

def exponent : Scanner Int := do
  let _ ← satisfy fun c => c == 'e' || c == 'E'
  let negative ← minus
  let ds ← digits Char.isDigit
  pure (if negative then -(valueOf 10 ds : Int) else valueOf 10 ds)

/-- A number with a point, an exponent or both, or one of the names of the numbers that are not
finite. A positive number must not be too great. -/
def number : Scanner Value := do
  let negative ← minus
  let signed (x : Float) : Value := .number (if negative then -x else x)
  if ← starts "inf" then pure (signed (1.0 / 0.0))
  else if ← starts "nan" then pure (signed (0.0 / 0.0))
  else
    let ds ← whole
    let places ← optional (do
      char '.'
      digits Char.isDigit)
    let e ← match places with
      | some _ => do
        let e ← optional exponent
        pure (e.getD 0)
      | none => exponent
    let fraction := places.getD []
    let x := nearest (valueOf 10 (ds ++ fraction)) (e - fraction.length)
    if x.isInf && !negative then failure else pure (signed x)

/-! ### Dates -/

/-- A number of so many digits within bounds. -/
def fieldOf (count low high : Nat) : Scanner Nat := fun s =>
  let ds := s.take count
  let n := valueOf 10 ds
  if ds.length = count ∧ ds.all Char.isDigit ∧ low ≤ n ∧ n ≤ high then some (n, s.drop count)
  else none

def daysOf (year month : Nat) : Nat :=
  let leap := year % 4 = 0 ∧ (year % 100 ≠ 0 ∨ year % 400 = 0)
  if month = 2 then if leap then 29 else 28
  else if month = 4 ∨ month = 6 ∨ month = 9 ∨ month = 11 then 30
  else 31

def day : Scanner Unit := do
  let year ← fieldOf 4 0 9999
  char '-'
  let month ← fieldOf 2 1 12
  char '-'
  let _ ← fieldOf 2 1 (daysOf year month)

def time : Scanner Unit := do
  let _ ← fieldOf 2 0 23
  char ':'
  let _ ← fieldOf 2 0 59
  char ':'
  let _ ← fieldOf 2 0 60
  let _ ← optional (do
    char '.'
    let _ ← satisfy Char.isDigit
    takeWhile Char.isDigit)

def offset : Scanner Unit := do
  let sign ← satisfy fun c => c == 'Z' || c == 'z' || c == '+' || c == '-'
  if sign == '+' || sign == '-' then
    let _ ← fieldOf 2 0 23
    char ':'
    let _ ← fieldOf 2 0 59

/-- A day with or without a time of day, or a time of day. -/
def date : Scanner Value := do
  (do
    day
    let _ ← optional (do
      let _ ← satisfy fun c => c == 'T' || c == 't' || c == ' '
      time
      optional offset)) <|> time
  pure .date

/-- A value that is a single word. -/
def scalar : Scanner Value := do
  match ← peek with
  | some c =>
    if c == '"' || c == '\'' then .text <$> text
    else if ← starts "true" then pure (.boolean true)
    else if ← starts "false" then pure (.boolean false)
    else date <|> number <|> integer
  | none => failure

end Lexeme

end ModuleAtlas.Config
