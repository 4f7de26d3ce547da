/-
  The course of a pattern through a text.

  A course is a pattern whose sets carry a mark.  The mark of a set says how the match ends if the
  set has just taken a character: it is the end that the first way of going on leads to, or nothing
  if there is no way.  The text is gone through from its last place to its first.  At each place the
  marks, which were made for the place behind, tell where every part of the pattern leads from here;
  and what follows each set from here is its new mark.

  So every part is looked at once for every place, however many ways of matching there are.
-/
import SourceWeb.Pattern.Basic

namespace SourceWeb.Pattern

/-! ### Places and ends -/

/-- A place in a text: the character before it, the text behind it, and its distance from the start
    of the text. -/
structure Head where
  last : Option Char
  rest : List Char
  pos : Nat

def Head.satisfies (h : Head) (p : Place) : Bool :=
  p.holds h.last h.rest.head?

def Head.meets (h : Head) (s : CharSet) : Bool :=
  match h.rest with
  | c :: _ => s.has c
  | [] => false

/-- All places of a text from its rest on, the place before it being given. -/
def headsFrom (last : Option Char) (pos : Nat) : List Char → List Head
  | [] => [⟨last, [], pos⟩]
  | c :: rest => ⟨last, c :: rest, pos⟩ :: headsFrom (some c) (pos + 1) rest

def heads (text : List Char) : List Head :=
  headsFrom none 0 text

inductive Event
  | opens (group : Nat) (head : Head)
  | closes (group : Nat) (head : Head)

/-- How a match ends: the place, and what it passes up to there, in order. -/
structure End where
  head : Head
  events : List Event

def End.after (events : List Event) (e : End) : End :=
  { e with events := events ++ e.events }

/-! ### Where a part leads -/

/-- Where a part of a pattern leads from a place, depending on where what follows it leads. -/
inductive Lead
  /-- To an end or nowhere, whatever follows. -/
  | ends (e : Option End)
  /-- Past some events to what follows; or, if that leads nowhere, to an end or nowhere. -/
  | past (events : List Event) (e : Option End)

namespace Lead

def ending (next : Option End) : Lead → Option End
  | ends e => e
  | past events e => (next.map (End.after events)).or e

def andThen : Lead → Lead → Lead
  | ends e, _ => ends e
  | past events e, ends e' => ends ((e'.map (End.after events)).or e)
  | past events e, past events' e' =>
    past (events ++ events') ((e'.map (End.after events)).or e)

def orElse : Lead → Lead → Lead
  | ends (some e), _ => ends (some e)
  | ends none, l => l
  | past events e, l => past events (e.or (l.ending none))

/-- A part that is repeated, as often as possible or as rarely as possible.  It is not repeated
    where it takes nothing. -/
def loop (greedy : Bool) (l : Lead) : Lead :=
  if greedy then orElse (ends (l.ending none)) (past [] none) else past [] (l.ending none)

def between (first last : Event) : Lead → Lead
  | ends e => ends (e.map (End.after [first]))
  | past events e => past (first :: (events ++ [last])) (e.map (End.after [first]))

end Lead

/-! ### Courses -/

/-- A course: the parts of a pattern, its sets marked.  Repetitions with a count are written out;
    `loop once greedy c` is any number of times `c`, but at least once if `once`. -/
inductive Course
  | pass
  | set (s : CharSet) (mark : Option End)
  | place (p : Place)
  | seq (c d : Course)
  | alt (c d : Course)
  | loop (once greedy : Bool) (c : Course)
  | group (n : Nat) (c : Course)

namespace Course

def times (c : Course) (next : Course) : Nat → Course
  | 0 => next
  | n + 1 => seq c (times c next n)

def upTo (greedy : Bool) (c : Course) : Nat → Course
  | 0 => pass
  | n + 1 => if greedy then alt (seq c (upTo greedy c n)) pass else alt pass (seq c (upTo greedy c n))

/-- The course of a pattern through a text of `n` characters.  No part has to be repeated more
    often than there are places; from there on a repetition takes nothing that it could not take
    before. -/
def ofPattern (n : Nat) : Pattern → Course
  | .empty => pass
  | .set s => set s none
  | .place p => place p
  | .seq p q => seq (ofPattern n p) (ofPattern n q)
  | .alt p q => alt (ofPattern n p) (ofPattern n q)
  | .repeated least most greedy p =>
    let c := ofPattern n p
    match most with
    | some m => times c (upTo greedy c (min (m - least) (n + 1))) (min least (n + 1))
    | none => times c (loop (least != 0) greedy c) (min (least - 1) (n + 1))
  | .group k p => group k (ofPattern n p)

/-- Where the course leads from a place, its marks being made for the place behind; and the course
    marked for this place, given the end that what follows it leads to. -/
def step (h : Head) : Course → Lead × (Option End → Course)
  | pass => (.past [] none, fun _ => pass)
  | set s mark => (.ends (if h.meets s then mark else none), fun next => set s next)
  | place p => (if h.satisfies p then .past [] none else .ends none, fun _ => place p)
  | seq c d =>
    let (lead, close) := step h c
    let (lead', close') := step h d
    (lead.andThen lead', fun next => seq (close (lead'.ending next)) (close' next))
  | alt c d =>
    let (lead, close) := step h c
    let (lead', close') := step h d
    (lead.orElse lead', fun next => alt (close next) (close' next))
  | loop once greedy c =>
    let (lead, close) := step h c
    let again := lead.loop greedy
    (if once then lead.andThen again else again,
      fun next => loop once greedy (close (again.ending next)))
  | group n c =>
    let (lead, close) := step h c
    (lead.between (.opens n h) (.closes n h),
      fun next => group n (close (next.map (End.after [.closes n h]))))

/-- One place of a text: the end of the match from there, if there is one, before those of the
    places behind it. -/
def sweepStep (h : Head) (state : Course × List (Head × Option End)) :
    Course × List (Head × Option End) :=
  let (course, found) := state
  let here : Option End := some ⟨h, []⟩
  let (lead, close) := course.step h
  (close here, (h, lead.ending here) :: found)

/-- The ends of the matches from all places of a text. -/
def sweep (c : Course) (hs : List Head) : List (Head × Option End) :=
  (hs.foldr sweepStep (c, [])).2

end Course

end SourceWeb.Pattern
