import ModuleAtlas.FileSystem.Snapshot

/-!
# Listings

A file tree as text, to hand it to a program: a line for each entry, with what it is, its path and
what is in it, each behind a tab. The bytes of a file are written in hexadecimal digits. A directory
that cannot be read, or in which nothing can be looked up, has a word of its own.

* `Snapshot.ofListing?` reads a listing.
-/

namespace ModuleAtlas

namespace Listing

def digit? (c : Char) : Option UInt8 :=
  if c.isDigit then some (c.toNat - 48).toUInt8
  else if 'a' ≤ c ∧ c ≤ 'f' then some (c.toNat - 87).toUInt8
  else none

/-- The bytes that pairs of hexadecimal digits stand for. -/
def bytes? : List Char → Option (List UInt8)
  | [] => some []
  | [_] => none
  | a :: b :: rest => do
    let high ← digit? a
    let low ← digit? b
    let more ← bytes? rest
    some ((16 * high + low) :: more)

/-- Puts the entry of a line where it belongs; `working` says which directory is the working one. -/
def line? (s : Snapshot) (line : String) : Option Snapshot :=
  match line.splitOn "\t" with
  | [""] => some s
  | ["working", path] =>
    let p := Path.ofString path
    let s := s.insert p (.directory [] true)
    some { s with working := p.segments.filter fun n => !Path.isVoid n }
  | ["directory", path] => some (s.insert (.ofString path) (.directory [] true))
  | ["unreadable", path] => some (s.insert (.ofString path) (.directory [] false))
  | ["closed", path] => some (s.insert (.ofString path) .closed)
  | ["link", path, target] => some (s.insert (.ofString path) (.link (.ofString target)))
  | ["file", path, content] => (bytes? content.toList).map fun bs => s.insert (.ofString path) (.file bs)
  | _ => none

end Listing

/-- The snapshot that a listing describes. -/
def Snapshot.ofListing? (text : String) : Option Snapshot :=
  (text.splitOn "\n").foldlM Listing.line? ⟨.directory [] true, []⟩

end ModuleAtlas
