/-
  Sets of characters, written the way patterns write them: lists, ranges, named classes, and
  unions, intersections and complements of these.
-/
import SourceWeb.Text.Alphabet
import SourceWeb.Text.Fold

namespace SourceWeb.Pattern

open SourceWeb.Text

/-- A set of characters.  `caseless s` holds every character that differs from a member of `s` in
    its case only. -/
inductive CharSet
  | oneOf (chars : List Char)
  | range (first last : Char)
  | ranges (rs : Character.Ranges)
  | word
  | blank
  | decimal
  | union (s t : CharSet)
  | inter (s t : CharSet)
  | compl (s : CharSet)
  | caseless (s : CharSet)
  deriving DecidableEq, Repr, Inhabited

namespace CharSet

def has : CharSet → Char → Bool
  | oneOf chars, c => chars.contains c
  | range first last, c => first ≤ c && c ≤ last
  | ranges rs, c => rs.has c.toNat
  | word, c => isWordChar c
  | blank, c => isBlank c
  | decimal, c => isDecimal c
  | union s t, c => s.has c || t.has c
  | inter s t, c => s.has c && t.has c
  | compl s, c => !s.has c
  | caseless s, c => s.has c || (variants c.toNat).any fun n => s.has (Char.ofNat n)

def none : CharSet := oneOf []

def all : CharSet := compl none

def noneOf (chars : List Char) : CharSet := compl (oneOf chars)

def unionAll (sets : List CharSet) : CharSet := sets.foldr union none

@[simp] theorem has_oneOf (chars : List Char) (c : Char) :
    (oneOf chars).has c = chars.contains c := rfl

@[simp] theorem has_noneOf (chars : List Char) (c : Char) :
    (noneOf chars).has c = !chars.contains c := rfl

@[simp] theorem has_all (c : Char) : all.has c = true := rfl

end CharSet

end SourceWeb.Pattern
