/-
  Pieces of a pattern with what decides whether the whole may be used.

  A pattern is refused if its pieces are nested too deeply or if the automata that read it forward
  and backward, byte by byte, take up too much room.  A draft carries the depth and the room of a
  piece along with the pattern.  Pieces that match nothing but the empty text take up no room in a
  sequence, and alternatives that are single characters, or sets of them, take up that of one set.
-/
import SourceWeb.Pattern.Basic
import SourceWeb.Pattern.Bytes

namespace SourceWeb.Pattern

open SourceWeb.Character (Ranges)

/-- What alternatives look at in a piece. -/
inductive Shape
  | blank
  | char (n : Nat)
  | set (rs : Ranges)
  /-- Alternatives that are not one set. -/
  | choice (n : Nat)
  | other

structure Room where
  forward : Nat
  backward : Nat

/-- A piece of a pattern.  `takesNone` holds if it takes no characters, `takesSome` if it never
    takes none; `fromStart` and `toEnd` hold if it matches only from the start or to the end of the
    text. -/
structure Draft where
  pattern : Pattern
  depth : Nat
  room : Room
  shape : Shape
  takesNone : Bool
  takesSome : Bool
  fromStart : Bool
  toEnd : Bool

namespace Room

instance : Add Room := ⟨fun a b => ⟨a.forward + b.forward, a.backward + b.backward⟩⟩

def both (n : Nat) : Room := ⟨n, n⟩

def times (n : Nat) (r : Room) : Room := ⟨n * r.forward, n * r.backward⟩

def sum (rooms : List Room) : Room := rooms.foldl (· + ·) (both 0)

def state : Room := both 32

def ofCode (n : Nat) : Room :=
  both (32 * (if n < 0x80 then 1 else if n < 0x800 then 2 else if n < 0x10000 then 3 else 4))

def ofSet (rs : Ranges) : Room :=
  match rs with
  | [] => state
  | [(a, b)] => if a = b then ofCode a else ofRanges rs
  | _ => ofRanges rs
where
  /-- The room of a set of several characters. -/
  ofRanges (rs : Ranges) : Room :=
    if rs.all fun r => r.2 < 0x80 then both (64 + 8 * rs.length)
    else
      let seqs := byteSeqs rs
      ⟨forwardRoom seqs, backwardRoom seqs⟩

def fork (n : Nat) : Room := both (32 + 4 * n)

end Room

namespace Draft

def blank : Draft := ⟨.empty, 0, .state, .blank, true, false, false, false⟩

def ofSet (rs : Ranges) : Draft :=
  let shape := match rs with
    | [(a, b)] => if a = b then .char a else .set rs
    | [] => .other
    | _ => .set rs
  ⟨.set (.ranges rs), 0, .ofSet rs, shape, false, !rs.isEmpty, false, false⟩

def ofChar (c : Char) : Draft := ofSet [(c.toNat, c.toNat)]

def ofPlace (p : Place) : Draft :=
  ⟨.place p, 0, .state, .other, true, false, p == .textStart, p == .textEnd⟩

def deeper (d : Draft) : Draft := { d with depth := d.depth + 1 }

def greatestDepth (ds : List Draft) : Nat := ds.foldl (fun n d => max n d.depth) 0

/-- Does one of the pieces match only at the edge of a text that they stand at?  Those behind a
    piece that takes characters do not stand there. -/
def atEdge (bound : Draft → Bool) : List Draft → Bool
  | [] => false
  | d :: ds => bound d || (d.takesNone && atEdge bound ds)

def sequence (ds : List Draft) : Draft :=
  let depth := if ds.length ≤ 1 then greatestDepth ds else greatestDepth ds + 1
  match ds.filter fun d => !(d.shape matches .blank) with
  | [] => { blank with depth := depth }
  | [d] => { d with depth := depth }
  | d :: rest =>
    let parts := d :: rest
    { pattern := rest.foldl (fun p q => .seq p q.pattern) d.pattern
      depth := depth
      room := .sum (parts.map room)
      shape := .other
      takesNone := parts.all takesNone
      takesSome := parts.any takesSome
      fromStart := atEdge fromStart parts
      toEnd := atEdge toEnd parts.reverse }

def chars? (ds : List Draft) : Option Ranges :=
  (ds.mapM fun (d : Draft) => match d.shape with
    | .char n => some [(n, n)]
    | _ => none).map Ranges.unionAll

/-- The characters of the pieces, if each of them is a set of characters. -/
def sets? (ds : List Draft) : Option Ranges :=
  (ds.mapM fun (d : Draft) => match d.shape with
    | .set rs => some rs
    | _ => none).map Ranges.unionAll

def branches (d : Draft) : Nat :=
  match d.shape with
  | .choice n => n
  | _ => 1

def branchRoom (d : Draft) : Room :=
  match d.shape with
  | .choice n => ⟨d.room.forward - (64 + 4 * n), d.room.backward - (64 + 4 * n)⟩
  | _ => d.room

def choice (ds : List Draft) : Draft :=
  let depth := greatestDepth ds + 1
  match (chars? ds).or (sets? ds) with
  | some rs => { ofSet rs with depth := depth }
  | none =>
    let n := (ds.map branches).foldl (· + ·) 0
    { pattern := .choice (ds.map pattern)
      depth := depth
      room := .state + .fork n + .sum (ds.map branchRoom)
      shape := .choice n
      takesNone := ds.all takesNone
      takesSome := ds.all takesSome
      fromStart := ds.all fromStart
      toEnd := ds.all toEnd }

def optionalRoom (d : Draft) : Room :=
  .fork 2 + d.room

def repeatedRoom (d : Draft) (least : Nat) : Option Nat → Room
  | none =>
    if least = 0 then
      if d.takesSome then d.optionalRoom else .fork 2 + .fork 2 + .state + d.room
    else .times least d.room + .fork 2
  | some most =>
    if least = most then .times least d.room
    else if least = 0 ∧ most = 1 then .state + d.optionalRoom
    else
      (if least = 0 then .state else .times least d.room) + .state +
        .times (most - least) d.optionalRoom

/-- The piece, repeated.  A piece that takes no characters is not repeated more than once. -/
def repeated (d : Draft) (least : Nat) (most : Option Nat) (greedy : Bool) : Draft :=
  let least' := if d.takesNone then min least 1 else least
  let most' := if d.takesNone then some (min (most.getD 1) 1) else most
  if most' = some 0 then { blank with depth := d.depth + 1 }
  else if least' = 1 ∧ most' = some 1 then d.deeper
  else
    { pattern := .repeated least' most' greedy d.pattern
      depth := d.depth + 1
      room := d.repeatedRoom least' most'
      shape := .other
      takesNone := d.takesNone
      takesSome := d.takesSome && least' != 0
      fromStart := d.fromStart && least' != 0
      toEnd := d.toEnd && least' != 0 }

def group (d : Draft) (n : Nat) : Draft :=
  { d with
    pattern := .group n d.pattern
    depth := d.depth + 1
    room := ⟨d.room.forward + 64, d.room.backward⟩
    shape := .other }

/-! ### Limits -/

def depthLimit : Nat := 250

def roomLimit : Nat := 10 * 1024 * 1024

/-- The room of the automata of a whole pattern.  They skip what comes before a match, unless a
    match has to begin there, and the one that reads forward keeps the text of the match. -/
def wholeRoom (d : Draft) : Room :=
  let skip (bound : Bool) := if bound then 32 else 112
  ⟨skip d.fromStart + 96 + d.room.forward, skip d.toEnd + 32 + d.room.backward⟩

def isTooLarge (d : Draft) : Bool :=
  d.wholeRoom.forward > roomLimit || d.wholeRoom.backward > roomLimit

end Draft

end SourceWeb.Pattern
