import ModuleAtlas.Grammar.Statement
import ModuleAtlas.Source.Reading

/-!
# Reading a script

Ties the rules for the phrases together and reads whole scripts.

* `read?` is the tree of a script, or where it stops making sense.
-/

namespace ModuleAtlas.Grammar

open ModuleAtlas.Source
open Reader

/-- The rule for each phrase. -/
def rule (rules : Rules) : Phrase → Reader Tree
  | .statement => settled (statementRule rules)
  | .head tail => settled (headRule rules tail)
  | .operand slot tail => operandRule rules slot tail
  | .type tail operators => settled (typeRule rules tail operators)
  | .pattern => settled (patternRule rules)
  | .parameters => settled (parameterList rules)
  | .markup => settled (markupRule rules)

/-- Reads each phrase only once at a place. -/
def remembered (phrase : Phrase) (r : Reader Tree) : Reader Tree := fun s i p =>
  let key := i * Phrase.codes + phrase.code
  match p.known[key]? with
  | some readings => (readings, p)
  | none =>
    let (readings, p) := r s i p
    (readings, { p with known := p.known.insert key readings })

/-- The rules, for phrases nested no deeper than the fuel. -/
def rulesTo : Nat → Rules
  | 0 => fun _ => fail
  | fuel + 1 => fun phrase => remembered phrase (rule (rulesTo fuel) phrase)

/-- The first line, if it names an interpreter. -/
def interpreterLine : Reader Unit := fun s i p =>
  let j := scanWhile isSeparatorOrMark s.script i
  if standsAt s.script j "#!" then ([((), scanWhile (· != '\n') s.script j)], p) else ([((), i)], p)
where
  isSeparatorOrMark (c : Char) : Bool := Text.isSeparator c

/-- All statements, up to the end of the script. -/
def programRule (rules : Rules) : Reader Tree := do
  interpreterLine
  let statements ← many (one (rules .statement))
  let stop ← look fun s i => skipMarkupTrivia s i
  let whole ← look fun s _ => s.size
  if stop ≥ whole then return .node ⟨.program, none, 0, whole⟩ statements
  else stuckAt stop

/-- The tree of the script in the dialect with or without markup; else the position of the first
token that does not fit. -/
def read? (markup : Bool) (script : Script) : Except Nat Tree :=
  let fuel := 16 * (script.size + 4)
  match programRule (rulesTo fuel) ⟨script, markup⟩ 0 {} with
  | ((t, _) :: _, _) => .ok t
  | ([], p) => .error p.reached

/-- Where the token at the position ends: a word, a number, or one character. -/
def tokenEnd (s : Script) (i : Nat) : Nat :=
  ((wordEnd? s i).orElse fun _ => numberEnd? s i).getD (i + 1)

/-- Where the statement begins that reaches over the position, or that begins there. -/
def statementAround (markup : Bool) (s : Script) (i : Nat) : Nat :=
  go (rulesTo (16 * (s.size + 4))) (s.size + 1) (skipMarkupTrivia s 0)
where
  go (rules : Rules) : Nat → Nat → Nat
    | 0, j => j
    | fuel + 1, j =>
      match rules .statement ⟨s, markup⟩ j {} with
      | ((_, k) :: _, _) => if k > j && k ≤ i then go rules fuel (skipMarkupTrivia s k) else j
      | ([], _) => j

/-- Which token is to blame where a script does not fit at the position. If the script would fit
without the token there, that token is; but in the middle of a statement that would then end without
a semicolon, the same bracket right before it is. Else the first token of the statement is. -/
def blamed (markup : Bool) (s : Script) (i : Nat) : Nat :=
  let start := statementAround markup s i
  let stop := tokenEnd s i
  match read? markup (s.extract 0 i ++ s.extract stop s.size) with
  | .error _ => start
  | .ok _ =>
    if start = i || !lineEndsPhrase s .operand stop then i
    else if i > 0 && charAt s (i - 1) == charAt s i then i - 1
    else start

/-- Reads a text in a dialect. -/
def verdict : Verdict := fun dialect text =>
  let script := text.toList.toArray
  let markup := dialect = .markup
  match read? markup script with
  | .ok t => .ok t
  | .error i => .error (.ofPosition script (blamed markup script i))

end ModuleAtlas.Grammar
