import ModuleAtlas.Text.CaseTable

/-!
# Lower case

The lower case of a text, by the full rules of the Unicode standard. It differs from the lower case
of the single characters in two points: the dotted capital I becomes two characters, and a capital
sigma at the end of a word becomes a final sigma.
-/

namespace ModuleAtlas.Text

def inRanges (ranges : Array (Nat × Nat)) (c : Char) : Bool :=
  ranges.any fun (first, last) => first ≤ c.toNat && c.toNat ≤ last

/-- Whether the rules for case pass over the character. -/
def isCaseIgnorable (c : Char) : Bool := inRanges caseIgnorableRanges c

/-- Whether the character has a case and is not passed over. -/
def isCased (c : Char) : Bool := inRanges casedRanges c

/-- The lower case of a character by itself, where that is one character. -/
def lowerCaseOf (c : Char) : Char :=
  let n := c.toNat
  match lowerCaseRuns.find? fun (first, last, step, _) =>
      first ≤ n && n ≤ last && (n - first) % step == 0 with
  | some (_, _, _, offset) => Char.ofNat (n + offset).toNat
  | none => c

def capitalSigma : Char := Char.ofNat 0x3a3

def finalSigma : Char := Char.ofNat 0x3c2

/-- Whether the nearest character that counts has a case. -/
def nextIsCased (cs : List Char) : Bool :=
  match cs.dropWhile isCaseIgnorable with
  | c :: _ => isCased c
  | [] => false

/-- The lower case of the characters behind those given, the nearest of them first. -/
def lowerCaseAfter (before : List Char) : List Char → List Char
  | [] => []
  | c :: cs =>
    let here :=
      if c == capitalSigma then
        if nextIsCased before && !nextIsCased cs then [finalSigma] else [lowerCaseOf c]
      else if c.toNat = 0x130 then ['i', Char.ofNat 0x307]
      else [lowerCaseOf c]
    here ++ lowerCaseAfter (c :: before) cs

def lowercase (s : String) : String := String.ofList (lowerCaseAfter [] s.toList)

end ModuleAtlas.Text
