/-!
# Random numbers

A stream cipher as a source of random words: the words of the key stream of ChaCha with twelve
rounds, for a key that is drawn from a seed. The generator is the key with a place in the stream, so
skipping words costs nothing.

* `ChaCha.block` is one block of the key stream;
* `Generator.ofSeed`, `Generator.next` and `Generator.unit` make and use a generator.
-/

namespace ModuleAtlas

namespace ChaCha

/-- The state of the cipher: sixteen words. -/
abbrev State := Array UInt32

def rotateLeft (w k : UInt32) : UInt32 := (w <<< k) ||| (w >>> (32 - k))

def word (s : State) (i : Nat) : UInt32 := s.getD i 0

/-- Adds word `b` to word `a`, mixes the sum into word `d` and rotates it. -/
def mix (a b d : Nat) (k : UInt32) (s : State) : State :=
  let sum := word s a + word s b
  (s.setIfInBounds a sum).setIfInBounds d (rotateLeft (word s d ^^^ sum) k)

def quarterRound (s : State) (a b c d : Nat) : State :=
  s |> mix a b d 16 |> mix c d b 12 |> mix a b d 8 |> mix c d b 7

/-- The words of a column or of a diagonal of the state, taken as a square. -/
def columns : List (Nat × Nat × Nat × Nat) :=
  [(0, 4, 8, 12), (1, 5, 9, 13), (2, 6, 10, 14), (3, 7, 11, 15)]

@[inherit_doc columns]
def diagonals : List (Nat × Nat × Nat × Nat) :=
  [(0, 5, 10, 15), (1, 6, 11, 12), (2, 7, 8, 13), (3, 4, 9, 14)]

/-- One round over the columns and one over the diagonals. -/
def doubleRound (s : State) : State :=
  (columns ++ diagonals).foldl (fun s (a, b, c, d) => quarterRound s a b c d) s

/-- "expand 32-byte k". -/
def constants : State := #[0x61707865, 0x3320646e, 0x79622d32, 0x6b206574]

/-- The state before the rounds: the constants, the key, the number of the block in two words, and
no nonce. -/
def start (key : Array UInt32) (block : UInt64) : State :=
  constants ++ key ++ #[block.toUInt32, (block >>> 32).toUInt32, 0, 0]

/-- A block of the key stream, with twelve rounds. -/
def block (key : Array UInt32) (n : UInt64) : State :=
  let s := start key n
  let mixed := (List.range 6).foldl (fun t _ => doubleRound t) s
  Array.zipWith (· + ·) mixed s

end ChaCha

/-- A source of random words. -/
structure Generator where
  key : Array UInt32
  /-- How many words have been taken. -/
  taken : Nat
deriving DecidableEq, Repr, Inhabited

namespace Generator

/-- The steps of a linear congruential generator. -/
def scramble (state : UInt64) : UInt64 :=
  state * 6364136223846793005 + 11634580027462260723

/-- The word that a state of that generator stands for: its upper bits folded, and rotated by its
five topmost bits. -/
def permuted (state : UInt64) : UInt32 :=
  let folded := (((state >>> 18) ^^^ state) >>> 27).toUInt32
  let turn := (state >>> 59).toUInt32
  (folded >>> turn) ||| (folded <<< ((32 - turn) % 32))

/-- So many words of a key. -/
def keyWords : Nat → UInt64 → List UInt32
  | 0, _ => []
  | n + 1, state => permuted (scramble state) :: keyWords n (scramble state)

/-- The generator of a seed. -/
def ofSeed (seed : UInt64) : Generator := ⟨(keyWords 8 seed).toArray, 0⟩

/-- The generator with so many words left out. -/
def skip (g : Generator) (n : Nat) : Generator := { g with taken := g.taken + n }

/-- The next word. A block holds eight. -/
def word (g : Generator) : UInt64 :=
  let b := ChaCha.block g.key (g.taken / 8).toUInt64
  let i := 2 * (g.taken % 8)
  (ChaCha.word b i).toUInt64 ||| ((ChaCha.word b (i + 1)).toUInt64 <<< 32)

/-- Takes a word. -/
def next (g : Generator) : UInt64 × Generator := (g.word, g.skip 1)

/-- The number at least 0 and less than 1 that the upper 53 bits of a word stand for. -/
def fraction (w : UInt64) : Float := (w >>> 11).toFloat * Float.scaleB 1.0 (-53)

/-- Takes a number at least 0 and less than 1. -/
def unit (g : Generator) : Float × Generator :=
  let (w, g) := g.next
  (fraction w, g)

end Generator

end ModuleAtlas
