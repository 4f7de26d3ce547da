/-
  Reading classes in brackets.

  A class is the union of its members: characters, ranges of them, named classes, and classes in
  brackets again.  Operators combine what was read before them with what comes after, from the left.
-/
import SourceWeb.Pattern.Draft
import SourceWeb.Pattern.Reader.Escape

namespace SourceWeb.Pattern

open SourceWeb.Text
open SourceWeb.Character (Ranges)

inductive SetOp
  | inter
  | diff
  | symmDiff

def SetOp.apply : SetOp → Ranges → Ranges → Ranges
  | inter, a, b => a.inter b
  | diff, a, b => a.diff b
  | symmDiff, a, b => a.symmDiff b

structure ClassPart where
  ranges : Ranges
  depth : Nat

def ClassPart.ofMembers (members : List ClassPart) : ClassPart :=
  let depth := members.foldl (fun n m => max n m.depth) 0
  ⟨.unionAll (members.map ranges), if members.length ≤ 1 then depth else depth + 1⟩

/-- Combines the part of a class read so far with the part before the last operator. -/
def combine (before : Option (ClassPart × SetOp)) (members : List ClassPart) : Read ClassPart := do
  let right := ClassPart.ofMembers members
  match before with
  | none => return right
  | some (left, op) =>
    let f ← Read.flags
    let rs := op.apply (← f.close false left.ranges) (← f.close false right.ranges)
    return ⟨rs, max left.depth right.depth + 1⟩

/-- One character as a member.  Where only ASCII is allowed, no other character can be one. -/
def charMember (first last : Char) : Read ClassPart := do
  if (← Read.flags).asciiOnly && last.toNat > 0x7F then Read.refuse .beyondAscii
  if first ≤ last then return ⟨[(first.toNat, last.toNat)], 0⟩ else Read.refuse .badRange

def member : Read Escape := do
  match ← Read.peek? with
  | some c =>
    Read.skip
    if c == '\\' then escape else return .char c
  | none => Read.refuse .unclosedClass

/-- The character that comes next behind a hyphen, where the flags say that white space does not
    count.  Of a comment nothing is left out but the sign that starts it. -/
def peekSpaced? (cs : List Char) : Option Char :=
  match cs.filter fun c => !isBlank c with
  | '#' :: c :: _ => some c
  | '#' :: [] => cs.head?
  | c :: _ => some c
  | [] => cs.head?

def memberOrRange : Read ClassPart := do
  let first ← member
  Read.skipSpace
  let s ← get
  let isRange := match s.rest with
    | '-' :: rest =>
      let next := if s.flags.spaced then peekSpaced? rest else rest.head?
      next != some ']' && next != some '-'
    | _ => false
  if s.rest.isEmpty then Read.refuse .unclosedClass
  else if isRange then
    Read.skip
    Read.skipSpace
    match first, ← member with
    | .char a, .char b => charMember a b
    | _, _ => Read.refuse .badRange
  else
    match first with
    | .char c => charMember c c
    | .set rs => return ⟨rs, 0⟩
    | .place _ => Read.refuse .badEscape

/-- Reads a class such as `[:alpha:]`, if one comes next; otherwise reads nothing. -/
def asciiClass : Read (Option ClassPart) := do
  let s ← get
  match afterStart? "[:".toList s.rest with
  | none => return none
  | some rest =>
    let negated := rest.head? = some '^'
    let rest := if negated then rest.drop 1 else rest
    let name := rest.takeWhile (· != ':')
    match afterStart? ":]".toList (rest.dropWhile (· != ':')), asciiClass? (String.ofList name) with
    | some rest, some rs =>
      Read.moveTo rest
      return some ⟨← s.flags.close negated rs, 0⟩
    | _, _ => return none

/-- Reads what comes directly after the opening bracket: the complement sign, and the hyphens or
    the closing bracket that stand for themselves there. -/
def classStart : Read (Bool × List ClassPart) := do
  Read.skipSpace
  let negated ← Read.skipText "^"
  Read.skipSpace
  let hyphens ← Read.takeSpaced (· == '-')
  let members := hyphens.map fun c => ClassPart.mk [(c.toNat, c.toNat)] 0
  if members.isEmpty && (← Read.skipText "]") then
    Read.skipSpace
    return (negated, [⟨[(0x5D, 0x5D)], 0⟩])
  return (negated, members)

/-- Reads a class up to its closing bracket: `before` is the part in front of the last operator,
    `members` those read after it, the last one first; `level` counts the classes around it. -/
def classMembers : Nat → Nat → Bool → Option (ClassPart × SetOp) → List ClassPart → Read ClassPart
  | 0, _, _, _, _ => Read.refuse .tooDeep
  | fuel + 1, level, negated, before, members => do
    Read.skipSpace
    let s ← get
    match s.rest with
    | [] => Read.refuse .unclosedClass
    | ']' :: rest =>
      Read.moveTo rest
      let whole ← combine before members
      return ⟨← s.flags.close negated whole.ranges, whole.depth + 1⟩
    | '[' :: rest =>
      match ← asciiClass with
      | some c => classMembers fuel level negated before (c :: members)
      | none =>
        if level ≥ Draft.depthLimit then Read.refuse .tooDeep
        Read.moveTo rest
        let (innerNegated, start) ← classStart
        let inner ← classMembers fuel (level + 1) innerNegated none start
        classMembers fuel level negated before (inner :: members)
    -- an operator takes all members in front of it, not the last one only
    | '&' :: '&' :: rest =>
      Read.moveTo rest
      classMembers fuel level negated (some (← combine before members, .inter)) []
    | '-' :: '-' :: rest =>
      Read.moveTo rest
      classMembers fuel level negated (some (← combine before members, .diff)) []
    | '~' :: '~' :: rest =>
      Read.moveTo rest
      classMembers fuel level negated (some (← combine before members, .symmDiff)) []
    | _ =>
      let item ← memberOrRange
      classMembers fuel level negated before (item :: members)

def bracketClass : Read Draft := do
  let (negated, start) ← classStart
  let c ← classMembers ((← get).rest.length + 1) 1 negated none start
  return { Draft.ofSet c.ranges with depth := c.depth }

end SourceWeb.Pattern
