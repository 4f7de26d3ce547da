/-
  Lower-casing.

  A character is lower-cased as it is folded, but for the characters that are in lower case already
  and fold to another one, and the few whose lower case is not their folding.  A capital sigma at
  the end of a word has a form of its own.
-/
import SourceWeb.Text.Alphabet
import SourceWeb.Text.Fold

namespace SourceWeb.Text

def lowerThatFolds : List (Nat × Nat) :=
  [(181, 181), (383, 383), (837, 837), (962, 962), (976, 977), (981, 982), (1008, 1009),
    (1013, 1013), (5112, 5117), (7296, 7304), (7835, 7835), (8126, 8126), (8147, 8147),
    (8163, 8163), (43888, 43967), (64261, 64261)]

/-- The letters that version 17 of the character standard added, with their lower case. -/
def addedLower : List FoldRun :=
  [⟨42958, 42958, 1, 42959⟩, ⟨42962, 42964, 2, 42963⟩, ⟨93856, 93880, 1, 93883⟩]

def lowerCodes (n : Nat) : List Nat :=
  if n = 304 then [105, 775]
  else if 5024 ≤ n ∧ n ≤ 5103 then [n + 38864]
  else if 5104 ≤ n ∧ n ≤ 5109 then [n + 8]
  else if lowerThatFolds.any fun r => r.1 ≤ n && n ≤ r.2 then [n]
  else [((addedLower.findSome? fun r => r.image? n).getD (foldCode n))]

def letterNext (cs : List Char) : Bool :=
  match cs.dropWhile fun c => ignorableRanges.has c.toNat with
  | c :: _ => casedRanges.has c.toNat
  | [] => false

/-- Lower-cases a text, given what stands before it, the last character first. -/
def lowerFrom : List Char → List Char → List Char
  | _, [] => []
  | before, c :: cs =>
    let lowered :=
      if c.toNat = 931 then
        if letterNext before && !letterNext cs then ['ς'] else ['σ']
      else (lowerCodes c.toNat).map Char.ofNat
    lowered ++ lowerFrom (c :: before) cs

def lower (s : String) : String :=
  String.ofList (lowerFrom [] s.toList)

end SourceWeb.Text
