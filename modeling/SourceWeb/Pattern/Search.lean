/-
  Looking for the matches of a pattern in a text.
-/
import SourceWeb.Pattern.Course

namespace SourceWeb.Pattern

/-- A match found in a text: what was passed over, what matched, what is left behind it, and what it
    passed on its way. -/
structure Match where
  skipped : List Char
  text : List Char
  rest : List Char
  events : List Event

/-- The text between the last two events that open and close the group `n`, if there are such.
    `opened` is the place where the group was opened last, `found` the text of the group so far. -/
def groupText (n : Nat) : Option Head → Option (List Char) → List Event → Option (List Char)
  | _, found, [] => found
  | opened, found, .opens k h :: events =>
    groupText n (if k = n then some h else opened) found events
  | opened, found, .closes k h :: events =>
    groupText n opened
      (if k = n then opened.map fun o => o.rest.take (h.pos - o.pos) else found) events

/-- The text that a match kept under the number `n`, if that group took part. -/
def Match.group? (m : Match) (n : Nat) : Option (List Char) :=
  groupText n none none m.events

/-- The text that a match kept under the number `n`, empty if that group took no part. -/
def Match.group (m : Match) (n : Nat) : List Char :=
  (m.group? n).getD []

/-- The match from one head to an end, where `done` is the head behind the match before it. -/
def Match.between (done start : Head) (e : End) : Match :=
  { skipped := done.rest.take (start.pos - done.pos)
    text := start.rest.take (e.head.pos - start.pos)
    rest := e.head.rest
    events := e.events }

def ends (p : Pattern) (text : List Char) : List (Head × Option End) :=
  (Course.ofPattern text.length p).sweep (heads text)

/-- Does the pattern match anywhere in the text?  No group has to be kept for that. -/
def isMatch (p : Pattern) (text : List Char) : Bool :=
  (p.ungrouped.ends text).any fun found => found.2.isSome

def matchStart? (p : Pattern) (text : List Char) : Option Match :=
  match p.ends text with
  | (h, some e) :: _ => some (.between h h e)
  | _ => none

def find? (p : Pattern) (text : List Char) : Option Match :=
  (p.ends text).findSome? fun (h, e) => e.map (Match.between ⟨none, text, 0⟩ h)

/-- The matches that take some text, from left to right, each behind the one before it; `done` is
    the head behind the last one. -/
def disjoint (done : Head) : List (Head × Option End) → List Match
  | [] => []
  | (h, some e) :: found =>
    if done.pos ≤ h.pos && h.pos < e.head.pos then .between done h e :: disjoint e.head found
    else disjoint done found
  | (_, none) :: found => disjoint done found

/-- The matches in a text from left to right.  Each begins where the one before it ends or later;
    those without any text are left out. -/
def findAll (p : Pattern) (text : List Char) : List Match :=
  disjoint ⟨none, text, 0⟩ (p.ends text)

def replaceAll (p : Pattern) (f : Match → List Char) (text : List Char) : List Char :=
  let found := p.findAll text
  let tail := match found.getLast? with
    | some m => m.rest
    | none => text
  (found.flatMap fun m => m.skipped ++ f m) ++ tail

end SourceWeb.Pattern
