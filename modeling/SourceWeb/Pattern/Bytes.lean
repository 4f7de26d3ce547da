/-
  Sets of characters as sequences of bytes, and how many states an automaton over bytes needs to
  recognise them.

  The encodings of a range of code points are few sequences of byte ranges.  Read forward, sequences
  share what they end with; read backward, they share what they begin with.  A state takes up 32
  units of room, a way out of it 8.
-/
import SourceWeb.Character.Ranges

namespace SourceWeb.Pattern

open SourceWeb.Character (Ranges)

/-! ### Encodings -/

/-- A sequence of byte ranges. -/
abbrev ByteSeq := List (Nat × Nat)

/-- The byte sequences of the numbers from `first` to `last`, written in `n` digits of six bits
    behind a leading one; `base` is the leading byte of zero. -/
def digitSeqs : Nat → Nat → Nat → Nat → List ByteSeq
  | 0, base, first, last => [[(base + first, base + last)]]
  | n + 1, base, first, last =>
    let size := Nat.pow 64 (n + 1)
    let low := first / size
    let high := last / size
    let under (lead from_ to_ : Nat) :=
      (digitSeqs n 0x80 from_ to_).map ((base + lead, base + lead) :: ·)
    if low = high then under low (first % size) (last % size)
    else
      let wholeLow := if first % size = 0 then low else low + 1
      let wholeHigh := if last % size = size - 1 then high + 1 else high
      (if wholeLow = low then [] else under low (first % size) (size - 1)) ++
      (if wholeLow < wholeHigh then
        [(base + wholeLow, base + wholeHigh - 1) :: List.replicate (n + 1) (0x80, 0xBF)] else []) ++
      (if wholeHigh = high then under high 0 (last % size) else [])

/-- The ranges of code points with encodings of one form: the first and the last of them, the number
    of bytes behind the leading one, and the leading byte of zero. -/
def encodingForms : List (Nat × Nat × Nat × Nat) :=
  [(0, 0x7F, 0, 0), (0x80, 0x7FF, 1, 0xC0), (0x800, 0xD7FF, 2, 0xE0), (0xE000, 0xFFFF, 2, 0xE0),
    (0x10000, 0x10FFFF, 3, 0xF0)]

def byteSeqs (rs : Ranges) : List ByteSeq :=
  rs.flatMap fun r => encodingForms.flatMap fun (first, last, n, base) =>
    let low := max r.1 first
    let high := min r.2 last
    if low ≤ high then digitSeqs n base low high else []

/-! ### Forward -/

/-- A state: the byte ranges that lead out of it, and the numbers of the states that they lead
    to. -/
abbrev ByteState := List ((Nat × Nat) × Nat)

def numberOf (states : List ByteState) (s : ByteState) : Nat × List ByteState :=
  match states.findIdx? (· == s) with
  | some i => (i + 1, states)
  | none => (states.length + 1, states ++ [s])

def sameStart (a b : ByteSeq) : Bool :=
  a.head? == b.head?

/-- The state that sequences of at most `n` ranges start from, and all states known with those
    behind it.  The state behind all sequences has the number 0. -/
def startState : Nat → List ByteSeq → List ByteState → ByteState × List ByteState
  | 0, _, states => ([], states)
  | n + 1, seqs, states =>
    (seqs.splitBy sameStart).foldl (fun (ways, states) group =>
      match group with
      | [r] :: _ => (ways ++ [(r, 0)], states)
      | (r :: _) :: _ =>
        let (next, states) := startState n (group.map List.tail) states
        let (number, states) := numberOf states next
        (ways ++ [(r, number)], states)
      | _ => (ways, states)) ([], states)

def forwardRoom (seqs : List ByteSeq) : Nat :=
  let (start, states) := startState 4 seqs []
  32 + (states ++ [start]).foldl (fun room s => room + (32 + 8 * s.length)) 0

/-! ### Backward -/

def sharedStart : ByteSeq → ByteSeq → Nat
  | a :: as, b :: bs => if a = b then sharedStart as bs + 1 else 0
  | _, _ => 0

/-- How many ranges of sequences do not stand in a sequence before, at the same place behind the
    same ranges; `last` is the sequence before the first one. -/
def freshRanges : ByteSeq → List ByteSeq → Nat
  | _, [] => 0
  | last, s :: seqs => (s.length - sharedStart last s) + freshRanges s seqs

/-- The room of the states that recognise one of the sequences backward. -/
def backwardRoom (seqs : List ByteSeq) : Nat :=
  64 + 4 * seqs.length + 32 * freshRanges [] seqs

end SourceWeb.Pattern
