/-!
# UTF-8

Text as bytes. Reading is total: every byte string is a sequence of characters and of ill-formed
stretches, where a stretch is as long as it could still have become a character.

* `decodeAll` reads a byte string, with `none` for each ill-formed stretch;
* `decode?` is the text of a well-formed byte string, `decodeLossy` puts U+FFFD for each ill-formed
  stretch;
* `encode` writes a text.
-/

namespace ModuleAtlas.Text.Utf8

/-- A character that still lacks bytes: the bits read so far, how many bytes are missing and the
range that the next of them has to be in. -/
structure Pending where
  bits : Nat
  missing : Nat
  low : Nat
  high : Nat
deriving DecidableEq, Repr

/-- What a byte begins: a character, one that lacks bytes, or nothing. -/
def start (b : Nat) : Option (Char ⊕ Pending) :=
  if b < 0x80 then some (.inl (Char.ofNat b))
  else if b < 0xc2 then none
  else if b < 0xe0 then some (.inr ⟨b - 0xc0, 1, 0x80, 0xbf⟩)
  else if b < 0xf0 then
    some (.inr ⟨b - 0xe0, 2, if b = 0xe0 then 0xa0 else 0x80, if b = 0xed then 0x9f else 0xbf⟩)
  else if b < 0xf5 then
    some (.inr ⟨b - 0xf0, 3, if b = 0xf0 then 0x90 else 0x80, if b = 0xf4 then 0x8f else 0xbf⟩)
  else none

/-- The characters from a byte on that begins anew, given how to go on behind it. -/
def begin (b : Nat) (go : Option Pending → List (Option Char)) : List (Option Char) :=
  match start b with
  | some (.inl c) => some c :: go none
  | some (.inr p) => go (some p)
  | none => none :: go none

def decodeFrom : Option Pending → List UInt8 → List (Option Char)
  | none, [] => []
  | some _, [] => [none]
  | none, b :: bs => begin b.toNat fun p => decodeFrom p bs
  | some p, b :: bs =>
    let n := b.toNat
    if p.low ≤ n ∧ n ≤ p.high then
      let bits := p.bits * 64 + (n - 0x80)
      if p.missing = 1 then some (Char.ofNat bits) :: decodeFrom none bs
      else decodeFrom (some ⟨bits, p.missing - 1, 0x80, 0xbf⟩) bs
    else none :: begin n fun p => decodeFrom p bs

/-- The characters of a byte string, `none` standing for an ill-formed stretch. -/
def decodeAll (bs : List UInt8) : List (Option Char) := decodeFrom none bs

/-- The text of a byte string, if all of it is well-formed. -/
def decode? (bs : List UInt8) : Option String :=
  ((decodeAll bs).mapM id).map String.ofList

/-- The character that stands for what is not text. -/
def replacement : Char := Char.ofNat 0xfffd

/-- The text of a byte string, with U+FFFD for each ill-formed stretch. -/
def decodeLossy (bs : List UInt8) : String :=
  String.ofList ((decodeAll bs).map (·.getD replacement))

def encode (s : String) : List UInt8 := s.toList.flatMap String.utf8EncodeChar

end ModuleAtlas.Text.Utf8
