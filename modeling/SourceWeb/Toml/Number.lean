/-
  Numbers in TOML texts: whole ones in four bases, fractional ones, and the two that are none.

  Between two digits there may be an underscore.  Whole numbers have to fit 64 bits with their sign;
  of the fractional ones only those above the range of doubles are refused, not those below it.
-/
import SourceWeb.Number.Double
import SourceWeb.Number.Numeral

namespace SourceWeb.Toml

open SourceWeb.Text

/-- Reads a run of digits of a base, and gives them without the underscores. -/
def digitRun (base : Nat) : Numeral.Run
  | [] => none
  | c :: cs =>
    if !isDigitOf base c then none
    else match cs with
      | '_' :: more => (digitRun base more).map fun (ds, cs) => (c :: ds, cs)
      | cs =>
        match digitRun base cs with
        | some (ds, cs) => some (c :: ds, cs)
        | none => some ([c], cs)

def readBased (base : Nat) (cs : List Char) : Option (List Char) := do
  let (ds, cs) ← digitRun base cs
  if digitsValue base ds < Nat.pow 2 63 then some cs else none

def inRange (negative : Bool) (n : Numeral) : Bool :=
  if n.isWhole then n.significand < Nat.pow 2 63 || (negative && n.significand == Nat.pow 2 63)
  else negative || Double.inRange n.significand n.scale

def readUnsigned (negative : Bool) : List Char → Option (List Char)
  | 'i' :: 'n' :: 'f' :: cs => some cs
  | 'n' :: 'a' :: 'n' :: cs => some cs
  | cs => do
    let (n, cs) ← Numeral.read (digitRun 10) cs
    if inRange negative n then some cs else none

def readNumber : List Char → Option (List Char)
  | '+' :: cs => readUnsigned false cs
  | '-' :: cs => readUnsigned true cs
  | '0' :: 'x' :: cs => readBased 16 cs
  | '0' :: 'o' :: cs => readBased 8 cs
  | '0' :: 'b' :: cs => readBased 2 cs
  | cs => readUnsigned false cs

end SourceWeb.Toml
