/-
  Digits, and the numbers that they spell in a base up to sixteen.
-/

namespace SourceWeb.Text

def digitValue? (c : Char) : Option Nat :=
  if c.isDigit then some (c.toNat - '0'.toNat)
  else if 'a' ≤ c ∧ c ≤ 'f' then some (c.toNat - 'a'.toNat + 10)
  else if 'A' ≤ c ∧ c ≤ 'F' then some (c.toNat - 'A'.toNat + 10)
  else none

def isDigitOf (base : Nat) (c : Char) : Bool :=
  (digitValue? c).any (· < base)

/-- The number with one more digit behind it; what is no digit counts as zero. -/
def withDigit (base n : Nat) (c : Char) : Nat :=
  n * base + (digitValue? c).getD 0

def digitsValue (base : Nat) (ds : List Char) : Nat :=
  ds.foldl (withDigit base) 0

def fixedNumber (base width : Nat) (cs : List Char) : Option (Nat × List Char) :=
  let ds := cs.take width
  if ds.length = width && ds.all (isDigitOf base) then some (digitsValue base ds, cs.drop width)
  else none

end SourceWeb.Text
