/-
  Reading patterns from their written form.

  The notation is the common one of regular expressions: literals, the dot, character classes with
  set operations, groups, alternatives, greedy and lazy repetitions, places, and flags that hold to
  the end of the group they stand in.  References back to a group and conditions on what follows or
  precedes are refused.
-/
import SourceWeb.Pattern.Reader.Bracket

namespace SourceWeb.Pattern

open SourceWeb.Text

/-! ### Flags -/

def Flags.switch? (f : Flags) (on : Bool) : Char → Option Flags
  | 'i' => some { f with caseless := on }
  | 'm' => some { f with manyLines := on }
  | 's' => some { f with dotAll := on }
  | 'U' => some { f with swapGreed := on }
  | 'u' => some { f with asciiOnly := !on }
  | 'x' => some { f with spaced := on }
  | 'R' => some { f with returns := on }
  | _ => none

/-- Reads flags: letters, those after a hyphen being switched off.  None may stand twice, and the
    hyphen not last; `seen` are those read so far, the last one first. -/
def readFlags : List Char → List Char → Flags → Option Flags
  | [], seen, f => if seen.head? = some '-' then none else some f
  | c :: cs, seen, f =>
    if seen.contains c then none
    else if c == '-' then readFlags cs (c :: seen) f
    else (f.switch? (!seen.contains '-') c).bind (readFlags cs (c :: seen))

/-! ### Groups -/

def isNameChar (first : Bool) (c : Char) : Bool :=
  if first then c == '_' || isLetter c
  else c == '_' || c == '.' || c == '[' || c == ']' || isAlnum c

inductive Opening
  | capture (n : Nat)
  | plain (inside : Flags)
  | switch (flags : Flags)

def nextGroup : Read Opening := do
  let s ← get
  modify fun s => { s with groups := s.groups + 1 }
  return .capture (s.groups + 1)

def groupName : Read Opening := do
  let name ← Read.takeWhile (· != '>')
  if !(← Read.skipText ">") then Read.refuse .badGroupName
  let s ← get
  match name with
  | [] => Read.refuse .badGroupName
  | c :: cs =>
    if !isNameChar true c || !cs.all (isNameChar false) || s.names.contains name then
      Read.refuse .badGroupName
    modify fun s => { s with names := name :: s.names }
    nextGroup

/-- Reads what comes after an opening parenthesis and decides what the group is. -/
def opening : Read Opening := do
  Read.skipSpace
  if ← Read.skipText "?=" then Read.refuse .lookaround
  if ← Read.skipText "?!" then Read.refuse .lookaround
  if ← Read.skipText "?<=" then Read.refuse .lookaround
  if ← Read.skipText "?<!" then Read.refuse .lookaround
  if ← Read.skipText "?P<" then return ← groupName
  if ← Read.skipText "?<" then return ← groupName
  if ← Read.skipText "?" then
    let letters ← Read.takeWhile fun c => c != ':' && c != ')'
    match readFlags letters [] (← Read.flags) with
    | none => Read.refuse .badFlags
    | some f =>
      if ← Read.skipText ":" then return .plain f
      if ← Read.skipText ")" then
        if letters.isEmpty then Read.refuse .nothingToRepeat else return .switch f
      Read.refuse .unclosedGroup
  else nextGroup

/-! ### Repetitions -/

/-- Reads a decimal number of at most 32 bits, with white space around it. -/
def number : Read Nat := do
  let _ ← Read.takeWhile isBlank
  let digits ← Read.takeSpaced Char.isDigit
  let blanks ← Read.takeWhile isBlank
  if !blanks.isEmpty then Read.skipSpace
  let n := digits.foldl (fun n c => n * 10 + (c.toNat - '0'.toNat)) 0
  if digits.isEmpty || n ≥ Nat.pow 2 32 then Read.refuse .badCount
  return n

def counts : Read (Nat × Option Nat) := do
  Read.skipSpace
  let least ← number
  let most ← if ← Read.skipText "," then do
      Read.skipSpace
      if (← Read.peek?) == some '\x7d' then pure none else pure (some (← number))
    else pure (some least)
  if !(← Read.skipText "\x7d") then Read.refuse .badCount
  if most.any (· < least) then Read.refuse .badCount
  return (least, most)

/-- An item of a sequence.  Nothing can be repeated where flags were switched. -/
structure Item where
  draft : Draft
  repeatable : Bool := true

/-- Repeats the last of the items; the sign that makes the repetition lazy may come next. -/
def repeatLast (items : List Item) (least : Nat) (most : Option Nat) : Read (List Item) := do
  match items with
  | ⟨d, true⟩ :: items =>
    let isLazy ← Read.skipText "?"
    return ⟨d.repeated least most (isLazy == (← Read.flags).swapGreed), true⟩ :: items
  | _ => Read.refuse .nothingToRepeat

/-! ### Sequences and alternatives -/

def literal (c : Char) : Read Draft := do
  return Draft.ofSet (← (← Read.flags).close false [(c.toNat, c.toNat)])

/-- The dot: any character, but for the line ends if the flags do not say otherwise. -/
def dot : Read Draft := do
  let f ← Read.flags
  if f.asciiOnly then Read.refuse .beyondAscii
  else if f.dotAll then return .ofSet (Character.Ranges.compl [])
  else if f.returns then return .ofSet (Character.Ranges.compl [(10, 10), (13, 13)])
  else return .ofSet (Character.Ranges.compl [(10, 10)])

/-- Reads one piece that is neither a group nor a repetition, its first character being read. -/
def piece (c : Char) : Read Draft := do
  let f ← Read.flags
  match c with
  | '[' => bracketClass
  | '\\' =>
    match ← escape with
    | .char c => literal c
    | .set rs => return .ofSet rs
    | .place p => return .ofPlace p
  | '.' => dot
  | '^' => return .ofPlace (if f.manyLines then .lineStart f.returns else .textStart)
  | '$' => return .ofPlace (if f.manyLines then .lineEnd f.returns else .textEnd)
  | c => literal c

/-- The alternatives, the last of them first, and the items of the last one, the last of them
    first. -/
def joinBranches (branches : List Draft) (items : List Item) : Draft :=
  match Draft.sequence (items.reverse.map Item.draft) :: branches with
  | [d] => d
  | ds => .choice ds.reverse

/-- Reads alternatives up to the end of the pattern, or to the end of the group if `level` is not
    zero: `branches` are the alternatives before the present one, `items` its items so far. -/
def alternatives : Nat → Nat → List Draft → List Item → Read Draft
  | 0, _, _, _ => Read.refuse .tooDeep
  | fuel + 1, level, branches, items => do
    Read.skipSpace
    let s ← get
    match s.rest with
    | [] => if level = 0 then return joinBranches branches items else Read.refuse .unclosedGroup
    | c :: rest =>
      Read.moveTo rest
      match c with
      | '|' =>
        let branch := Draft.sequence (items.reverse.map Item.draft)
        alternatives fuel level (branch :: branches) []
      | ')' =>
        if level = 0 then Read.refuse .unopenedGroup else return joinBranches branches items
      | '(' =>
        match ← opening with
        -- flags switched here hold to the end of the group, those of a plain group within it
        | .switch f =>
          modify fun s => { s with flags := f }
          alternatives fuel level branches (⟨.blank, false⟩ :: items)
        | .plain f =>
          if level ≥ Draft.depthLimit then Read.refuse .tooDeep
          modify fun s => { s with flags := f }
          let inner ← alternatives fuel (level + 1) [] []
          modify fun now => { now with flags := s.flags }
          alternatives fuel level branches (⟨inner.deeper, true⟩ :: items)
        | .capture n =>
          if level ≥ Draft.depthLimit then Read.refuse .tooDeep
          let inner ← alternatives fuel (level + 1) [] []
          modify fun now => { now with flags := s.flags }
          alternatives fuel level branches (⟨inner.group n, true⟩ :: items)
      | '*' => alternatives fuel level branches (← repeatLast items 0 none)
      | '+' => alternatives fuel level branches (← repeatLast items 1 none)
      | '?' => alternatives fuel level branches (← repeatLast items 0 (some 1))
      | '\x7b' =>
        let (least, most) ← counts
        Read.skipSpace
        alternatives fuel level branches (← repeatLast items least most)
      | c =>
        let d ← piece c
        alternatives fuel level branches (⟨d, true⟩ :: items)

/-- Reads a pattern that ignores case, or not, unless it says otherwise itself. -/
def ofText (text : String) (caseless : Bool) : Except Defect Pattern :=
  let source : Source :=
    { rest := text.toList, flags := { caseless := caseless }, groups := 0, names := [] }
  match (alternatives (2 * text.length + 2) 0 [] []).run source with
  | .ok (d, _) =>
    if d.depth > Draft.depthLimit then .error .tooDeep
    else if d.isTooLarge then .error .tooLarge
    else .ok d.pattern
  | .error d => .error d

end SourceWeb.Pattern
