/-
  Sizes in binary units, with the fewest decimals that tell the size from its neighbours.

  A size is divided by the largest unit that it reaches.  The quotient is a binary fraction; it is
  written with the fewest decimals for which the number written is nearer to it than to any other
  binary fraction of 53 digits.
-/

namespace SourceWeb.Size

def units : List String :=
  ["KiB", "MiB", "GiB", "TiB", "PiB", "EiB"]

def bitLength (n : Nat) : Nat :=
  if n = 0 then 0 else n.log2 + 1

/-- Does `a / 10 ^ p` lie so near to `n / 2 ^ s` that no fraction of 53 binary digits is nearer?
    Twice the distance is compared with the value of the last of the 53 digits. -/
def near (n s a p : Nat) : Bool :=
  let scaled := a * Nat.pow 2 s
  let exact := n * Nat.pow 10 p
  let distance := if scaled ≤ exact then exact - scaled else scaled - exact
  -- the last digit of `n` has the value `2 ^ (bitLength n - 53)` in units of `2 ^ (- s)`
  let odd := bitLength n = 53 ∧ n % 2 = 1
  let lhs := 2 * distance * Nat.pow 2 53
  let rhs := Nat.pow 10 p * Nat.pow 2 (bitLength n)
  if odd then lhs < rhs else lhs ≤ rhs

def nearest (n s p : Nat) : Nat :=
  (2 * n * Nat.pow 10 p + Nat.pow 2 s) / (2 * Nat.pow 2 s)

def decimals (n s : Nat) : Nat → Nat → Nat
  | 0, p => p
  | fuel + 1, p => if near n s (nearest n s p) p then p else decimals n s fuel (p + 1)

def quotient (n s : Nat) : String :=
  let p := decimals n s 70 0
  let a := nearest n s p
  let whole := toString (a / Nat.pow 10 p)
  if p = 0 then whole
  else
    let fraction := toString (a % Nat.pow 10 p)
    whole ++ "." ++ String.ofList (List.replicate (p - fraction.length) '0') ++ fraction

def unitOf (n : Nat) : String × Nat :=
  (units.zipIdx 1).foldl (fun best u => if Nat.pow 1024 u.2 ≤ n then u else best) ("B", 0)

def readable (n : Nat) : String :=
  let (unit, power) := unitOf n
  quotient n (10 * power) ++ " " ++ unit

end SourceWeb.Size
