/-
  Which numbers are in the range of a double.

  A number stands for the double nearest to it, of two nearest ones for the even one.  From `bound`
  on the nearest would lie beyond the greatest double, and the number is out of range.
-/

namespace SourceWeb.Double

def bound : Nat := Nat.pow 2 1024 - Nat.pow 2 970

/-- How often `unit` goes into a number, to the nearest; a tie goes to the even count. -/
def nearest (n unit : Nat) : Nat :=
  let low := n / unit
  let rest := n % unit
  if 2 * rest < unit then low
  else if unit < 2 * rest then low + 1
  else low + low % 2

def round (n : Nat) : Nat :=
  let unit := Nat.pow 2 (n.log2 - 52)
  nearest n unit * unit

/-- Is `n · 10^e` in range?  No number but zero is with a power above the 400th, and a number has
    fewer digits than bits. -/
def inRange (n : Nat) (e : Int) : Bool :=
  if e < 0 then n < bound * Nat.pow 10 (min e.natAbs (n.log2 + 1))
  else n == 0 || (e ≤ 400 && n * Nat.pow 10 e.toNat < bound)

/-- Is the product of `n` and `10^e` in range, if both are rounded before they are multiplied?
    Powers above the 308th are out of range themselves. -/
def productInRange (n : Nat) (e : Int) : Bool :=
  n == 0 || e < 0 || (e ≤ 308 && round n * round (Nat.pow 10 e.toNat) < bound)

end SourceWeb.Double
