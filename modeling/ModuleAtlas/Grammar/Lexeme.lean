import ModuleAtlas.Text.Blank

/-!
# Lexemes

Where the tokens of a script end. Every function here looks at the characters of the script from a
position on and answers with the position behind what it found: `none` if nothing of the kind
stands there. Positions count characters, and behind the end stands the null character.

* `skipTrivia` passes what separates tokens: white space and comments;
* `wordEnd?`, `numberEnd?`, `escapeEnd?`, `regexEnd?`, … measure one lexeme each;
* `lineEndsPhrase` says whether a statement may end at a line's end, with no semicolon;
* `ternaryMark?` tells the question mark of a conditional expression from the other ones.
-/

namespace ModuleAtlas.Grammar

open ModuleAtlas.Text

abbrev Script := Array Char

def nul : Char := Char.ofNat 0

/-- The character at a position. -/
def charAt (s : Script) (i : Nat) : Char := s.getD i nul

def isDigit (c : Char) : Bool := '0' ≤ c && c ≤ '9'

def isHexDigit (c : Char) : Bool :=
  isDigit c || ('a' ≤ c && c ≤ 'f') || ('A' ≤ c && c ≤ 'F')

def isAsciiLetter (c : Char) : Bool := ('a' ≤ c && c ≤ 'z') || ('A' ≤ c && c ≤ 'Z')

/-- Whether the text stands at the position. -/
def standsAt (s : Script) (i : Nat) (text : String) : Bool :=
  text.toList.zipIdx.all fun (c, k) => charAt s (i + k) == c

/-- The first position from `i` on whose character fails the test. -/
def scanWhile (p : Char → Bool) (s : Script) (i : Nat) : Nat :=
  if h : i < s.size then
    if p s[i] then scanWhile p s (i + 1) else i
  else i
termination_by s.size - i

/-- The first position from `i` on at which the text stands. -/
def find? (s : Script) (text : String) (i : Nat) : Option Nat :=
  if _h : i < s.size then
    if standsAt s i text then some i else find? s text (i + 1)
  else none
termination_by s.size - i

/-! ### What separates tokens -/

/-- The characters that end a line comment. -/
def endsLine (c : Char) : Bool :=
  c == '\n' || c == '\r' || c.toNat == 0x2028 || c.toNat == 0x2029

/-- Where the comment that begins at the position ends. -/
def commentEnd? (s : Script) (i : Nat) : Option Nat :=
  if charAt s i != '/' then none
  else if charAt s (i + 1) == '/' then some (scanWhile (fun c => !endsLine c) s i)
  else if charAt s (i + 1) == '*' then (find? s "*/" (i + 2)).map (· + 2)
  else none

/-- Passes blanks and comments; each round passes one comment at least. -/
def skipTriviaIn (s : Script) : Nat → Nat → Nat
  | 0, i => i
  | fuel + 1, i =>
    let j := scanWhile isSeparator s i
    match commentEnd? s j with
    | some k => skipTriviaIn s fuel k
    | none => j

def skipTrivia (s : Script) (i : Nat) : Nat := skipTriviaIn s (s.size + 1 - i) i

/-- Where the markup comment of one line ends that begins at the position. -/
def markupCommentEnd? (s : Script) (i : Nat) : Option Nat :=
  if standsAt s i "<!--" || standsAt s i "-->" then
    some (scanWhile (fun c => !(c == '\n' || c.toNat == 0x2028 || c.toNat == 0x2029)) s i)
  else none

/-- Passes blanks, comments and markup comments. -/
def skipMarkupTriviaIn (s : Script) : Nat → Nat → Nat
  | 0, i => i
  | fuel + 1, i =>
    let j := skipTrivia s i
    match markupCommentEnd? s j with
    | some k => skipMarkupTriviaIn s fuel k
    | none => j

def skipMarkupTrivia (s : Script) (i : Nat) : Nat := skipMarkupTriviaIn s (s.size + 1 - i) i

/-! ### Words -/

/-- What may stand inside a word: all but controls, separators and marks. -/
def isWordChar (c : Char) : Bool :=
  !(c.toNat < 0x20 || isSeparator c || ":;\x60\"'@#.,|^&<=>+-*/\\%?!~()[]\x7b\x7d".contains c)

/-- The escape of a character inside a word: four hexadecimal digits, or any number in braces. -/
def wordEscapeEnd? (s : Script) (i : Nat) : Option Nat :=
  if charAt s i != '\\' || charAt s (i + 1) != 'u' then none
  else if charAt s (i + 2) == '{' then
    let j := scanWhile isHexDigit s (i + 3)
    if j > i + 3 && charAt s j == '}' then some (j + 1) else none
  else
    let digits := [2, 3, 4, 5].all fun k => isHexDigit (charAt s (i + k))
    if digits then some (i + 6) else none

def wordEndIn (s : Script) : Nat → Nat → Nat
  | 0, i => i
  | fuel + 1, i =>
    let j := scanWhile isWordChar s i
    match wordEscapeEnd? s j with
    | some k => wordEndIn s fuel k
    | none => j

/-- Where the word that begins at the position ends; a word does not begin with a digit. -/
def wordEnd? (s : Script) (i : Nat) : Option Nat :=
  if i ≥ s.size || isDigit (charAt s i) then none
  else
    let j := wordEndIn s (s.size + 1 - i) i
    if j > i then some j else none

/-! ### Numbers -/

/-- Digits of one kind, with single underscores between them. -/
def digitsEndIn (p : Char → Bool) (s : Script) : Nat → Nat → Nat
  | 0, i => i
  | fuel + 1, i =>
    let j := scanWhile p s i
    if charAt s j == '_' && p (charAt s (j + 1)) then digitsEndIn p s fuel (j + 1) else j

def digitsEnd? (p : Char → Bool) (s : Script) (i : Nat) : Option Nat :=
  if p (charAt s i) then some (digitsEndIn p s (s.size + 1 - i) i) else none

/-- An integer in a base that the two given letters announce. -/
def basedEnd? (lower upper : Char) (p : Char → Bool) (s : Script) (i : Nat) : Option Nat :=
  if charAt s i == '0' && (charAt s (i + 1) == lower || charAt s (i + 1) == upper) then
    digitsEnd? p s (i + 2)
  else none

def exponentEnd? (s : Script) (i : Nat) : Option Nat :=
  if charAt s i == 'e' || charAt s i == 'E' then
    if charAt s (i + 1) == '+' || charAt s (i + 1) == '-' then digitsEnd? isDigit s (i + 2)
    else digitsEnd? isDigit s (i + 1)
  else none

/-- The integer part of a decimal number: zero, or digits of which at most one leading one is
zero. -/
def integerPartEnd? (s : Script) (i : Nat) : Option Nat :=
  let positive (j : Nat) : Option Nat :=
    if '1' ≤ charAt s j && charAt s j ≤ '9' then
      let k := if charAt s (j + 1) == '_' then j + 2 else j + 1
      some ((digitsEnd? isDigit s k).getD (j + 1))
    else none
  if charAt s i == '0' then some ((positive (i + 1)).getD (i + 1)) else positive i

/-- Where the longest number literal that begins at the position ends. -/
def numberEnd? (s : Script) (i : Nat) : Option Nat :=
  let suffixed (e : Option Nat) : Option Nat :=
    e.map fun j => if charAt s j == 'n' then j + 1 else j
  let based := [
    suffixed (basedEnd? 'x' 'X' isHexDigit s i),
    suffixed (basedEnd? 'b' 'B' (fun c => c == '0' || c == '1') s i),
    suffixed (basedEnd? 'o' 'O' (fun c => '0' ≤ c && c ≤ '7') s i),
    suffixed (digitsEnd? isDigit s i)]
  let withExponent (j : Nat) : Nat := (exponentEnd? s j).getD j
  let decimal := match integerPartEnd? s i with
    | some j =>
      if charAt s j == '.' then
        [some (withExponent ((digitsEnd? isDigit s (j + 1)).getD (j + 1)))]
      else [exponentEnd? s j]
    | none => []
  let fraction :=
    if charAt s i == '.' then [(digitsEnd? isDigit s (i + 1)).map withExponent] else []
  (based ++ decimal ++ fraction).foldl (fun best e => match best, e with
    | some a, some b => some (max a b)
    | none, e => e
    | best, none => best) none

/-! ### Text and patterns -/

/-- Where the escape sequence that begins at the position ends. -/
def escapeEnd? (s : Script) (i : Nat) : Option Nat :=
  if charAt s i != '\\' || i + 1 ≥ s.size then none
  else
    let c := charAt s (i + 1)
    let digits (n : Nat) : Option Nat :=
      if (List.range n).all fun k => isHexDigit (charAt s (i + 2 + k)) then some (i + 2 + n)
      else none
    if c == 'x' then digits 2
    else if c == 'u' then
      if charAt s (i + 2) == '{' then
        let j := scanWhile isHexDigit s (i + 3)
        if j > i + 3 && charAt s j == '}' then some (j + 1) else none
      else digits 4
    else if '0' ≤ c && c ≤ '7' then
      some (min (scanWhile (fun c => '0' ≤ c && c ≤ '7') s (i + 1)) (i + 4))
    else if (c == '\r' || c == '?') &&
        (charAt s (i + 2) == '\n' || charAt s (i + 2) == Char.ofNat 0x2028 ||
          charAt s (i + 2) == Char.ofNat 0x2029) then
      some (i + 3)
    else some (i + 2)

/-- The inside of a quoted text: stops at the quote, at a line's end, or at a wrong escape. -/
def quotedEndIn (quote : Char) (s : Script) : Nat → Nat → Nat
  | 0, i => i
  | fuel + 1, i =>
    let j := scanWhile (fun c => c != quote && c != '\\' && c != '\r' && c != '\n') s i
    match escapeEnd? s j with
    | some k => quotedEndIn quote s fuel k
    | none => j

/-- Where the text of a template goes on with something else: its end, a substitution, a wrong
escape or the end of the script. -/
def templateCharsEndIn (s : Script) : Nat → Nat → Nat
  | 0, i => i
  | fuel + 1, i =>
    let j := scanWhile (fun c => c != '\x60' && c != '\\' && c != '$') s i
    if charAt s j == '$' && charAt s (j + 1) != '{' then templateCharsEndIn s fuel (j + 1)
    else match escapeEnd? s j with
      | some k => templateCharsEndIn s fuel k
      | none => j

/-- A class of characters in square brackets, inside a regular expression. -/
def classEndIn (s : Script) : Nat → Nat → Option Nat
  | 0, _ => none
  | fuel + 1, i =>
    let c := charAt s i
    if i ≥ s.size || c == '\n' then none
    else if c == ']' then some (i + 1)
    else if c == '\\' then
      if i + 1 < s.size && charAt s (i + 1) != '\n' then classEndIn s fuel (i + 2) else none
    else classEndIn s fuel (i + 1)

def patternEndIn (s : Script) : Nat → Nat → Nat
  | 0, i => i
  | fuel + 1, i =>
    let c := charAt s i
    if i ≥ s.size || c == '\n' || c == '/' then i
    else if c == '[' then
      match classEndIn s (s.size + 1 - i) (i + 1) with
      | some j => patternEndIn s fuel j
      | none => i
    else if c == '\\' then
      if i + 1 < s.size && charAt s (i + 1) != '\n' then patternEndIn s fuel (i + 2) else i
    else patternEndIn s fuel (i + 1)

/-- Where the regular expression ends that begins at the position, flags included. -/
def regexEnd? (s : Script) (i : Nat) : Option Nat :=
  if charAt s i != '/' then none
  else
    let j := patternEndIn s (s.size + 1 - i) (i + 1)
    if j > i + 1 && charAt s j == '/' && j < s.size then
      some (scanWhile (fun c => 'a' ≤ c && c ≤ 'z') s (j + 1))
    else none

/-! ### Markup -/

/-- A name with a hyphen in it, which only markup admits. -/
def hyphenatedEnd? (s : Script) (i : Nat) : Option Nat :=
  let begins (c : Char) : Bool := isAsciiLetter c || c == '_' || c == '$'
  let goesOn (c : Char) : Bool := begins c || isDigit c
  if begins (charAt s i) then
    let j := scanWhile goesOn s i
    if charAt s j == '-' then some (scanWhile (fun c => goesOn c || c == '-') s j) else none
  else none

/-- A character reference such as `&amp;`, `&#38;` or `&#x26;`. -/
def entityEnd? (s : Script) (i : Nat) : Option Nat :=
  let closed (p : Char → Bool) (most j : Nat) : Option Nat :=
    let k := scanWhile p s j
    if k > j && k ≤ j + most && charAt s k == ';' then some (k + 1) else none
  if charAt s i != '&' then none
  else if charAt s (i + 1) == '#' then
    if charAt s (i + 2) == 'x' || charAt s (i + 2) == 'X' then closed isHexDigit 6 (i + 3)
    else closed isDigit 5 (i + 2)
  else closed isAsciiLetter 30 (i + 1)

/-- The inside of a quoted attribute: an ampersand begins a character reference, unless what
follows can begin none, and then it stands with its successor for itself. -/
def attributeTextEndIn (quote : Char) (s : Script) : Nat → Nat → Nat
  | 0, i => i
  | fuel + 1, i =>
    let j := scanWhile (fun c => c != quote && c != '&') s i
    if charAt s j == '&' then
      match entityEnd? s j with
      | some k => attributeTextEndIn quote s fuel k
      | none =>
        let c := charAt s (j + 1)
        if c == '#' || isAsciiLetter c || j + 1 ≥ s.size then j
        else attributeTextEndIn quote s fuel (j + 2)
    else j

/-- Where the text between markup tags goes on with a tag, a brace or a reference. -/
def markupTextEndIn (s : Script) : Nat → Nat → Nat
  | 0, i => i
  | fuel + 1, i =>
    let c := charAt s i
    if i ≥ s.size || c == '{' || c == '}' || c == '<' || c == '>' || c == '&' then i
    else if standsAt s i "//" then
      markupTextEndIn s fuel (scanWhile (· != '\n') s i)
    else if standsAt s i "/*" then
      let plain := scanWhile
        (fun c => !(c == '{' || c == '}' || c == '<' || c == '>' || c == '&' || c == '\n')) s i
      match commentEnd? s i with
      | some j => markupTextEndIn s fuel (if plain > j then plain else j)
      | none => markupTextEndIn s fuel plain
    else if c == ' ' || c == '\n' then markupTextEndIn s fuel (i + 1)
    else
      markupTextEndIn s fuel (scanWhile
        (fun c => !(c == '{' || c == '}' || c == '<' || c == '>' || c == '&' || c == '\n')) s i)

/-! ### Ends of lines, question marks -/

/-- What may follow the phrase that is being read, at the least. -/
inductive Tail where
  /-- Something that the enclosing phrase still needs. -/
  | inside
  /-- The end of the statement; an operator cannot follow. -/
  | line
  /-- The end of a signature; an opening brace would begin the body instead. -/
  | signature
  /-- The end of the statement, or an operator. -/
  | operand
deriving DecidableEq, Repr, Inhabited

/-- Passes ASCII blanks and comments; `none` at a slash that begins no comment. An unclosed comment
reaches to the end of the script. -/
def skipToLineStart? (s : Script) : Nat → Nat → Option Nat
  | 0, i => some i
  | fuel + 1, i =>
    let j := scanWhile isAsciiBlank s i
    if charAt s j == '/' then
      if charAt s (j + 1) == '/' then skipToLineStart? s fuel (scanWhile (· != '\n') s j)
      else if charAt s (j + 1) == '*' then
        match find? s "*/" (j + 2) with
        | some k => skipToLineStart? s fuel (k + 2)
        | none => some s.size
      else none
    else some j

/-- Whether a new statement may begin with what stands at the position, the first thing on its line:
not if it continues the phrase above. -/
def lineStartsAnew (s : Script) (tail : Tail) (i : Nat) : Bool :=
  let c := charAt s i
  if i ≥ s.size then true
  else if ",.;*%><=?^|&/:".contains c then false
  else if c == '{' then tail != .signature
  else if c == '(' || c == '[' then tail != .operand
  else if c == '+' then charAt s (i + 1) == '+'
  else if c == '-' then charAt s (i + 1) == '-'
  else if c == '!' then charAt s (i + 1) != '='
  else if c == 'i' && charAt s (i + 1) == 'n' then
    if !isAsciiLetter (charAt s (i + 2)) then false
    else !(standsAt s (i + 2) "stanceof" && !isAsciiLetter (charAt s (i + 10)))
  else true

/-- Whether the phrase may end at the position without a semicolon: before a closing brace, at the
end of the script, or at a line's end. Only ASCII blanks are passed on the way there, and comments
on the same line. -/
def lineEndsPhraseIn (s : Script) (tail : Tail) : Nat → Nat → Bool
  | 0, _ => false
  | fuel + 1, i =>
    let j := scanWhile (fun c => isAsciiBlank c && c != '\n') s i
    let here :=
      if j ≥ s.size || charAt s j == nul then true
      else if charAt s j == '}' then
        charAt s (scanWhile isAsciiBlank s (j + 1)) != ':' || tail == .operand
      else if charAt s j == '\n' then
        match skipToLineStart? s (s.size + 1 - j) (j + 1) with
        | some k => lineStartsAnew s tail k
        | none => false
      else false
    here || match commentEnd? s (scanWhile isSeparator s i) with
      | some k => lineEndsPhraseIn s tail fuel k
      | none => false

def lineEndsPhrase (s : Script) (tail : Tail) (i : Nat) : Bool :=
  tail != .inside && lineEndsPhraseIn s tail (s.size + 1 - i) i

/-- Where the question mark of a conditional expression stands, if the next token is one: not before
a colon, a comma, a closing parenthesis or a dot, unless the dot begins a number. -/
def ternaryMark? (s : Script) (i : Nat) : Option Nat :=
  let j := scanWhile isAsciiBlank s (skipTrivia s i)
  if charAt s j != '?' || charAt s (j + 1) == '?' then none
  else
    let k := scanWhile isAsciiBlank s (j + 1)
    let c := charAt s k
    if c == ':' || c == ')' || c == ',' then none
    else if c == '.' && !isDigit (charAt s (k + 1)) then none
    else some j

end ModuleAtlas.Grammar
