/-
  Decimal numerals: digits, a point with more digits, and an exponent.

  Formats differ in what may stand between the digits of a run, and agree on the rest: a numeral
  starts with no idle zero, and there are digits on both sides of a point and in an exponent.
-/
import SourceWeb.Text.Digits

namespace SourceWeb

open SourceWeb.Text

structure Numeral where
  whole : List Char
  /-- The digits behind the point, if there is one. -/
  fraction : Option (List Char) := none
  exponent : Option Int := none
  deriving DecidableEq, Repr

namespace Numeral

def isWhole (n : Numeral) : Bool :=
  n.fraction.isNone && n.exponent.isNone

def decimals (n : Numeral) : List Char :=
  n.fraction.getD []

def significand (n : Numeral) : Nat :=
  digitsValue 10 (n.whole ++ n.decimals)

def scale (n : Numeral) : Int :=
  n.exponent.getD 0 - n.decimals.length

/-! ### Reading -/

/-- Reads a run of digits, and gives them without what stands between them. -/
abbrev Run := List Char → Option (List Char × List Char)

def plainRun : Run := fun cs =>
  let ds := cs.takeWhile Char.isDigit
  if ds.isEmpty then none else some (ds, cs.dropWhile Char.isDigit)

def readWhole (run : Run) : Run
  | '0' :: cs => some (['0'], cs)
  | cs => run cs

def readFraction (run : Run) : List Char → Option (Option (List Char) × List Char)
  | '.' :: cs => (run cs).map fun (ds, cs) => (some ds, cs)
  | cs => some (none, cs)

def readExponent (run : Run) (cs : List Char) : Option (Option Int × List Char) :=
  let positive := fun cs => (run cs).map fun (ds, cs) => (some (digitsValue 10 ds : Int), cs)
  match cs with
  | c :: cs =>
    if c = 'e' || c = 'E' then
      match cs with
      | '+' :: cs => positive cs
      | '-' :: cs => (run cs).map fun (ds, cs) => (some (-(digitsValue 10 ds : Int)), cs)
      | cs => positive cs
    else some (none, c :: cs)
  | [] => some (none, [])

def read (run : Run) (cs : List Char) : Option (Numeral × List Char) := do
  let (whole, cs) ← readWhole run cs
  let (fraction, cs) ← readFraction run cs
  let (exponent, cs) ← readExponent run cs
  return (⟨whole, fraction, exponent⟩, cs)

end Numeral

end SourceWeb
