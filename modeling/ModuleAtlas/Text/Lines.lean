import ModuleAtlas.Text.Blank

/-!
# Lines

A line ends in a line feed or in a carriage return and a line feed; the last one need not end. A
carriage return by itself ends nothing, and neither do the separators that Unicode has for lines and
paragraphs.
-/

namespace ModuleAtlas.Text

/-- What stands before a line feed, without the carriage return that belongs to the line feed. -/
def withoutReturn (line : List Char) : List Char :=
  if line.getLast? = some '\r' then line.dropLast else line

/-- The lines of a text without their ends. What stands behind the last line feed is a line only if
something does. -/
def linesOf (text : List Char) : List (List Char) :=
  let pieces := text.splitOn '\n'
  pieces.dropLast.map withoutReturn ++ (pieces.getLast?.filter (!·.isEmpty)).toList

/-- What is left without the blank characters at both ends. -/
def trim (line : List Char) : List Char :=
  ((line.dropWhile isBlank).reverse.dropWhile isBlank).reverse

end ModuleAtlas.Text
