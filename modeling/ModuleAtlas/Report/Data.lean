import ModuleAtlas.Decimal.Shortest

/-!
# Data of a report

A report is written as data with names: in one line, or indented by two blanks for each level.

* `Data.compact` and `Data.pretty` are the two ways to write it.
-/

namespace ModuleAtlas.Report

inductive Data where
  | flag (b : Bool)
  | count (n : Nat)
  | number (x : Float)
  | text (s : String)
  | list (items : List Data)
  | record (fields : List (String × Data))
deriving Inhabited

/-! ### Words -/

def hexDigit (n : Nat) : Char := if n < 10 then Char.ofNat (48 + n) else Char.ofNat (87 + n)

/-- A character within quotes. -/
def escaped (c : Char) : List Char :=
  match c with
  | '"' => ['\\', '"']
  | '\\' => ['\\', '\\']
  | '\n' => ['\\', 'n']
  | '\r' => ['\\', 'r']
  | '\t' => ['\\', 't']
  | '\x08' => ['\\', 'b']
  | '\x0c' => ['\\', 'f']
  | c =>
    if c.toNat < 32 then ['\\', 'u', '0', '0', hexDigit (c.toNat / 16), hexDigit (c.toNat % 16)]
    else [c]

def quoted (s : String) : String := "\"" ++ String.ofList (s.toList.flatMap escaped) ++ "\""

/-- A decimal that is not zero. With the point behind up to sixteen digits, or behind a zero and up
to four more, it is written in full; otherwise with an exponent. -/
def decimalText (d : Decimal.Digits) : String :=
  let digits := Nat.toDigits 10 d.digits
  let point := digits.length + d.exponent
  let zeros (n : Int) : List Char := List.replicate n.toNat '0'
  let written :=
    if 0 ≤ d.exponent ∧ point ≤ 16 then digits ++ zeros d.exponent ++ ['.', '0']
    else if 0 < point ∧ point ≤ 16 then
      digits.take point.toNat ++ '.' :: digits.drop point.toNat
    else if -5 < point ∧ point ≤ 0 then '0' :: '.' :: zeros (-point) ++ digits
    else
      let exponent := 'e' :: (toString (point - 1)).toList
      match digits with
      | [c] => c :: exponent
      | c :: rest => c :: '.' :: rest ++ exponent
      | [] => []
  String.ofList written

/-- The shortest text that is read as the number; numbers that are not finite have none. -/
def numberText (x : Float) : String :=
  let sign := if Decimal.isNegative x then "-" else ""
  match Decimal.Exact.ofFloat x with
  | .finite ⟨0, _⟩ _ => sign ++ "0.0"
  | .finite value isPower => sign ++ decimalText (Decimal.shortest value isPower)
  | _ => "null"

namespace Data

/-! ### In one line -/

mutual

def compact : Data → String
  | flag b => if b then "true" else "false"
  | count n => toString n
  | number x => numberText x
  | text s => quoted s
  | list items => "[" ++ ",".intercalate (compactItems items) ++ "]"
  | record fields => "\x7b" ++ ",".intercalate (compactFields fields) ++ "\x7d"

def compactItems : List Data → List String
  | [] => []
  | d :: rest => d.compact :: compactItems rest

def compactFields : List (String × Data) → List String
  | [] => []
  | (name, d) :: rest => (quoted name ++ ":" ++ d.compact) :: compactFields rest

end

/-! ### Indented -/

/-- The start of a line at a level. -/
def margin (level : Nat) : String := String.ofList (List.replicate (2 * level) ' ')

/-- Lines between brackets. -/
def block (opening closing : String) (level : Nat) (lines : List String) : String :=
  if lines.isEmpty then opening ++ closing
  else
    opening ++ "\n" ++ ",\n".intercalate (lines.map (margin (level + 1) ++ ·)) ++ "\n" ++
      margin level ++ closing

mutual

/-- Written from the given level on. -/
def indented (level : Nat) : Data → String
  | list items => block "[" "]" level (indentedItems (level + 1) items)
  | record fields => block "\x7b" "\x7d" level (indentedFields (level + 1) fields)
  | flag b => (flag b).compact
  | count n => (count n).compact
  | number x => (number x).compact
  | text s => (text s).compact

def indentedItems (level : Nat) : List Data → List String
  | [] => []
  | d :: rest => d.indented level :: indentedItems level rest

def indentedFields (level : Nat) : List (String × Data) → List String
  | [] => []
  | (name, d) :: rest => (quoted name ++ ": " ++ d.indented level) :: indentedFields level rest

end

def pretty (d : Data) : String := d.indented 0

/-- Written indented or in one line. -/
def write (d : Data) (isPretty : Bool) : String := if isPretty then d.pretty else d.compact

end Data

end ModuleAtlas.Report
