import ModuleAtlas.Path
import ModuleAtlas.Text.Occurs

/-!
# What a file's name suggests

A file's base name may suggest that the file holds a component, settings or tests, and that it is
written with types. Letters count the same in either case where a hint says so, and the long s
(U+017F) then counts as an s.
-/

namespace ModuleAtlas.Metrics

/-- What a name suggests of a file. -/
structure Hints where
  component : Bool
  config : Bool
  test : Bool
  typed : Bool
deriving DecidableEq, Repr, Inhabited

/-- A letter without regard to its case. -/
def foldCase (c : Char) : Char := if c.toNat = 0x17f then 's' else c.toLower

/-- What stands before the ending, if the name has it. -/
def before? (ending name : List Char) : Option (List Char) :=
  if ending.isSuffixOf name then some (name.take (name.length - ending.length)) else none

/-- The extensions of scripts without markup. -/
def scriptExtensions : List String := ["js", "ts", "cjs", "cts", "mjs", "mts"]

/-- The extensions of scripts, those with markup included. -/
def allExtensions : List String := scriptExtensions ++ scriptExtensions.map (· ++ "x")

/-- The endings made of a word, a dot and an extension. -/
def endings (words extensions : List String) : List (List Char) :=
  words.flatMap fun w => extensions.map fun e => (w ++ "." ++ e).toList

/-- Whether a word may begin behind the characters: at the beginning of a name, or behind a dot, an
underscore or a hyphen. -/
def startsWord (before : List Char) : Bool :=
  match before.getLast? with
  | none => true
  | some c => c == '.' || c == '_' || c == '-'

/-- Whether a folded name ends in one of the words and an extension, the word standing by itself. -/
def hasLastWord (words extensions : List String) (name : List Char) : Bool :=
  (endings words extensions).any fun ending => (before? ending name).any startsWord

/-- A capital, letters and digits, and the extension of a script with markup. -/
def isComponentName (name : List Char) : Bool :=
  [".jsx", ".tsx"].any fun ending =>
    match before? ending.toList name with
    | some (c :: cs) => ('A' ≤ c && c ≤ 'Z') && cs.all Char.isAlphanum
    | _ => false

/-- A name whose last word is `config`, `settings` or `rc`, or a hidden name that ends in `rc`. -/
def isConfigName (name : List Char) : Bool :=
  let folded := name.map foldCase
  hasLastWord ["config", "settings", "rc"] scriptExtensions folded ||
    match folded with
    | '.' :: rest => (endings ["rc"] scriptExtensions).any fun ending =>
        (before? ending rest).any fun middle => !middle.contains '\n'
    | _ => false

/-- A name whose last word is `test` or `spec`, or the plural of one. -/
def isTestName (name : List Char) : Bool :=
  hasLastWord ["test", "tests", "spec", "specs"] allExtensions (name.map foldCase)

/-- The directory whose files are tests. -/
def testDirectory : String := "__tests__"

/-- What the name suggests; it may be a whole path, of which the last component counts. -/
def Hints.ofName (name : String) : Hints :=
  let path := Path.ofString name
  let base := match path.fileName? with
    | some bs => Text.Utf8.decodeLossy bs
    | none => name
  let extension := ((Path.ofString base).extension?.bind Text.Utf8.decode?).getD ""
  { component := isComponentName base.toList
    config := isConfigName base.toList
    test := isTestName base.toList || Text.occursIn testDirectory.toList name.toList
    typed := ["ts", "tsx", "mts", "cts"].contains extension }

end ModuleAtlas.Metrics
