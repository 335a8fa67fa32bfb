import ModuleAtlas.Grammar.Signature

/-!
# Markup elements

Elements in angle brackets, which one of the dialects admits as expressions. The name in a closing
tag need not be that of the opening one.
-/

namespace ModuleAtlas.Grammar

open ModuleAtlas.Source
open Reader

/-- A name in a tag, which may have hyphens. -/
def markupName : Reader Tree :=
  lexeme .identifier fun s j => match hyphenatedEnd? s j with
    | some k => match wordEnd? s j with
      | some l => some (max k l)
      | none => some k
    | none => wordEnd? s j

/-- A name, two names with a colon between them, or names with dots between them. -/
def elementName : Reader Tree := do
  let first ← markupName
  match ← look nextChar with
  | ':' =>
    let colon ← mark ":"
    let second ← markupName
    return .group .phrase [first, colon, second]
  | '.' =>
    let rest ← many (do
      let dot ← mark "."
      let n ← name
      return [dot, n])
    return .group .member (first :: rest)
  | _ => return first

/-- An expression in braces; it may be missing. -/
def embedded (rules : Rules) : Reader Tree := do
  let opening ← mark "\x7b"
  let inner ← maybe (do
    if (← look nextChar) == '.' then return [← both (spread rules) (expressions rules .inside)]
    else return [← expressions rules .inside])
  let closing ← mark "\x7d"
  return .group .phrase (opening :: inner ++ [closing])

/-- A quoted value of an attribute; line ends and character references may stand in it. -/
def attributeText (quote : Char) : Reader Tree :=
  lexeme .literal fun s j =>
    if charAt s j == quote then
      let k := attributeTextEndIn quote s (s.size + 1 - j) (j + 1)
      if charAt s k == quote then some (k + 1) else none
    else none

def tagAttribute (rules : Rules) : Reader Tree := do
  if (← look nextChar) == '\x7b' then embedded rules
  else
    let first ← markupName
    let more ← maybe (do
      let colon ← mark ":"
      let second ← markupName
      return [colon, second])
    let value ← maybe (do
      let sign ← mark "="
      let v ← match ← look nextChar with
        | '"' => attributeText '"'
        | '\'' => attributeText '\''
        | '\x7b' => embedded rules
        | _ => rules .markup
      return [sign, v])
    return .group .phrase (first :: more ++ value)

/-- What stands between two tags. -/
def content (rules : Rules) : Reader (List Tree) := do
  let _ ← textRun
  match ← look charAt with
  | '\x7b' => return [← embedded rules]
  | '&' => return [← lexeme .literal entityEnd?]
  | '<' => if (← look fun s i => charAt s (i + 1)) == '/' then fail else return [← rules .markup]
  | _ => fail
where
  textRun : Reader Unit := fun s i p =>
    ([((), markupTextEndIn s.script (s.script.size + 1 - i) i)], p)

/-- The end of a text run before a closing tag. -/
def closingTag : Reader (List Tree) := do
  let _ ← textRun
  let opening ← mark "</"
  let n ← maybe (one elementName)
  let closing ← mark ">"
  return opening :: n ++ [closing]
where
  textRun : Reader Unit := fun s i p =>
    ([((), markupTextEndIn s.script (s.script.size + 1 - i) i)], p)

def markupRule (rules : Rules) : Reader Tree := do
  let opening ← mark "<"
  let tag ← maybe (do
    let n ← elementName
    let args ← ifChar '<' (one (typeArguments rules))
    guarded ((← look nextWord) != "extends" || n.kind != .identifier)
    let attributes ← many (one (tagAttribute rules))
    return n :: args ++ attributes)
  if (← look nextChar) == '/' then
    let closing ← mark "/>"
    return .group .markupSelfClosing (opening :: tag ++ [closing])
  else
    let closing ← mark ">"
    let inner ← many (content rules)
    let last ← closingTag
    return .group .markupElement (opening :: tag ++ [closing] ++ inner ++ last)

end ModuleAtlas.Grammar
