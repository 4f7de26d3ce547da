/-
  Cutting texts apart: at a character, at a text, into lines and into words, and trimming their
  ends.  The work is done on lists of characters; the functions on `String` are their images.
-/
import SourceWeb.Text.Alphabet

namespace SourceWeb.Text

/-! ### Trimming -/

def dropEndWhile (p : Char → Bool) (s : List Char) : List Char :=
  (s.reverse.dropWhile p).reverse

def trimWhere (p : Char → Bool) (s : List Char) : List Char :=
  dropEndWhile p (s.dropWhile p)

def trim (s : List Char) : List Char :=
  trimWhere isBlank s

def afterStart? (start s : List Char) : Option (List Char) :=
  start.isPrefixOf? s

def upTo (s rest : List Char) : List Char :=
  s.take (s.length - rest.length)

def beforeEnd? (ending s : List Char) : Option (List Char) :=
  (ending.reverse.isPrefixOf? s.reverse).map List.reverse

/-! ### Cutting -/

/-- The pieces of `s` between the characters that satisfy `p`; there is always at least one. -/
def splitWhere (p : Char → Bool) : List Char → List (List Char)
  | [] => [[]]
  | c :: s =>
    if p c then [] :: splitWhere p s
    else match splitWhere p s with
      | piece :: pieces => (c :: piece) :: pieces
      | [] => [[c]]

/-- The pieces of `s` between occurrences of `sep`, taken from the left.  `skip` counts the
    characters of an occurrence that are still to be passed over. -/
def splitAtText.go (sep : List Char) : Nat → List Char → List Char → List (List Char)
  | _, piece, [] => [piece.reverse]
  | skip + 1, piece, _ :: s => go sep skip piece s
  | 0, piece, c :: s =>
    if sep.isPrefixOf (c :: s) then piece.reverse :: go sep (sep.length - 1) [] s
    else go sep 0 (c :: piece) s

def splitAtText (sep s : List Char) : List (List Char) :=
  splitAtText.go sep 0 [] s

/-- `s` with every occurrence of `old`, taken from the left, replaced by `new`. -/
def replaceText (old new s : List Char) : List Char :=
  new.intercalate (splitAtText old s)

def dropReturn (line : List Char) : List Char :=
  if line.getLast? = some '\r' then line.dropLast else line

/-- The lines of a text.  A line ends at a line feed, with the carriage return before it; the end
    of the text ends a last line that is not empty, and a carriage return there belongs to it. -/
def linesOf (s : List Char) : List (List Char) :=
  match (splitWhere (· == '\n') s).reverse with
  | [] => []
  | last :: ended => (ended.reverse.map dropReturn) ++ if last.isEmpty then [] else [last]

def wordsOf (s : List Char) : List (List Char) :=
  (splitWhere isBlank s).filter fun w => !w.isEmpty

/-! ### On strings -/

def lines (s : String) : List String :=
  (linesOf s.toList).map String.ofList

def trimmed (s : String) : String :=
  String.ofList (trim s.toList)

def splitChar (c : Char) (s : String) : List String :=
  (splitWhere (· == c) s.toList).map String.ofList

def afterStart (start s : String) : Option String :=
  (afterStart? start.toList s.toList).map String.ofList

def beforeEnd (ending s : String) : Option String :=
  (beforeEnd? ending.toList s.toList).map String.ofList

def dropLeading (c : Char) (s : String) : String :=
  String.ofList (s.toList.dropWhile (· == c))

def dropTrailing (c : Char) (s : String) : String :=
  String.ofList (dropEndWhile (· == c) s.toList)

def replaceAll (old new s : String) : String :=
  String.ofList (replaceText old.toList new.toList s.toList)

def startsWith (start s : String) : Bool :=
  start.toList.isPrefixOf s.toList

def endsWith (ending s : String) : Bool :=
  ending.toList.isSuffixOf s.toList

end SourceWeb.Text
