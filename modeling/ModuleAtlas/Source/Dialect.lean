import ModuleAtlas.Path

/-!
# Dialects

The two forms of the language that source files are written in. The plain one has type assertions
in angle brackets, the other one markup elements instead; scripts without types are read with the
latter.
-/

namespace ModuleAtlas.Source

inductive Dialect where
  | plain
  | markup
deriving DecidableEq, Repr, Inhabited

namespace Dialect

/-- The dialect that a file name's extension announces. -/
def ofExtension? (extension : String) : Option Dialect :=
  if ["ts", "mts", "cts"].contains extension then some plain
  else if ["tsx", "js", "jsx", "mjs", "cjs"].contains extension then some markup
  else none

/-- The dialect to try first for a file; without a known extension it is the one with markup. -/
def ofPath (p : Path) : Dialect :=
  ((p.extension?.bind Text.Utf8.decode?).bind ofExtension?).getD markup

/-- The dialect to try second. -/
def other : Dialect → Dialect
  | plain => markup
  | markup => plain

end Dialect

end ModuleAtlas.Source
