/-
  Sets of characters as ranges of code points.

  The ranges of a set are in increasing order and apart from each other, so that two sets with the
  same members are the same list.  Tables write them as hexadecimal numbers.
-/

namespace SourceWeb.Character

abbrev Ranges := List (Nat × Nat)

def lastCode : Nat := 0x10FFFF

namespace Ranges

/-- The code point `n` lies in one of the ranges.  Behind it no range is looked at. -/
def has : Ranges → Nat → Bool
  | [], _ => false
  | r :: rs, n => r.1 ≤ n && (n ≤ r.2 || has rs n)

/-- Joins ranges that overlap or touch, where they come in the order of their first members. -/
def join : Ranges → Ranges
  | [] => []
  | r :: rs =>
    let rec go : Nat × Nat → Ranges → Ranges
      | r, [] => [r]
      | r, s :: rs => if s.1 ≤ r.2 + 1 then go (r.1, max r.2 s.2) rs else r :: go s rs
    go r rs

def union (a b : Ranges) : Ranges :=
  join (a.merge b fun r s => r.1 ≤ s.1)

def unionAll (sets : List Ranges) : Ranges :=
  join (sets.flatten.mergeSort fun r s => r.1 ≤ s.1)

def gapsFrom : Nat → Ranges → Ranges
  | n, [] => if n ≤ lastCode then [(n, lastCode)] else []
  | n, r :: rs => if n < r.1 then (n, r.1 - 1) :: gapsFrom (r.2 + 1) rs else gapsFrom (r.2 + 1) rs

def compl (a : Ranges) : Ranges :=
  gapsFrom 0 a

def inter (a b : Ranges) : Ranges :=
  compl (union (compl a) (compl b))

def diff (a b : Ranges) : Ranges :=
  inter a (compl b)

def symmDiff (a b : Ranges) : Ranges :=
  union (diff a b) (diff b a)

/-! ### Written tables -/

def digitValue (c : Char) : Nat :=
  if c.isDigit then c.toNat - '0'.toNat else c.toNat - 'A'.toNat + 10

def numberOf (digits : List Char) : Nat :=
  digits.foldl (fun n c => n * 16 + digitValue c) 0

/-- The ranges of an entry: `A` for a code point, `A-B` for those from `A` to `B`, and `A/B` for
    every second one of these. -/
def ofEntry (entry : List Char) : Ranges :=
  let first := numberOf (entry.takeWhile Char.isAlphanum)
  match entry.dropWhile Char.isAlphanum with
  | '-' :: last => [(first, numberOf last)]
  | '/' :: last =>
    (List.range ((numberOf last - first) / 2 + 1)).map fun i => (first + 2 * i, first + 2 * i)
  | _ => [(first, first)]

/-- The words of a text, which spaces and line ends part; `word` is the present one, its last
    character first. -/
def entriesFrom (word : List Char) : List Char → List (List Char)
  | [] => if word.isEmpty then [] else [word.reverse]
  | c :: cs =>
    if c == ' ' || c == '\n' then
      if word.isEmpty then entriesFrom [] cs else word.reverse :: entriesFrom [] cs
    else entriesFrom (c :: word) cs

def ofText (text : String) : Ranges :=
  (entriesFrom [] text.toList).flatMap ofEntry

end Ranges

end SourceWeb.Character
