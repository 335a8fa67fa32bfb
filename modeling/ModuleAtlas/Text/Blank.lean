/-!
# Blank characters

Three notions of white space that differ: the Unicode property `White_Space`, the six ASCII blanks,
and the characters that separate the tokens of a script.
-/

namespace ModuleAtlas.Text

/-- The Unicode property `White_Space`. -/
def isBlank (c : Char) : Bool :=
  let n := c.toNat
  (9 ≤ n && n ≤ 13) || n = 0x20 || n = 0x85 || n = 0xa0 || n = 0x1680 ||
    (0x2000 ≤ n && n ≤ 0x200a) || n = 0x2028 || n = 0x2029 || n = 0x202f || n = 0x205f ||
    n = 0x3000

/-- The blanks of ASCII: space, tab, line feed, vertical tab, form feed, carriage return. -/
def isAsciiBlank (c : Char) : Bool :=
  c.toNat = 0x20 || (9 ≤ c.toNat && c.toNat ≤ 13)

/-- What may stand between the tokens of a script: white space, the zero-width space, the word
joiner and the byte order mark. -/
def isSeparator (c : Char) : Bool :=
  isBlank c || c.toNat = 0x200b || c.toNat = 0x2060 || c.toNat = 0xfeff

end ModuleAtlas.Text
