/-
  The rules of an ignore file.

  A rule is written in a directory and speaks of the paths below it.  It covers what its glob
  matches and everything beneath that; a rule for directories covers plain files only where they
  lie beneath a match.  Rules that take others back are kept, but cover nothing.
-/
import SourceWeb.Ignore.Glob
import SourceWeb.Pattern.Search
import SourceWeb.Text.Split

namespace SourceWeb.Ignore

open SourceWeb.Text

/-- A rule: the line it was written as, what the line says, and the pattern that whole paths from
    the project root have to match, which keeps under the number 1 what lies beneath the match. -/
structure Rule where
  source : String
  dirOnly : Bool
  negated : Bool
  pattern : Pattern
  deriving DecidableEq, Repr

namespace Rule

/-- Does the rule cover the path, which is given from the project root and may be a directory? -/
def covers (r : Rule) (relative : String) (isDir : Bool) : Bool :=
  if r.negated then false
  else match r.pattern.matchStart? relative.toList with
    | none => false
    | some m => !r.dirOnly || isDir || (m.group? 1).isSome

/-! ### Reading lines -/

/-- What a line says: whether it takes others back, whether it is for directories, whether it is
    bound to its own directory, and the glob. -/
structure Line where
  negated : Bool
  dirOnly : Bool
  rooted : Bool
  body : List Char
  deriving DecidableEq, Repr

def takeStart (c : Char) : List Char → Bool × List Char
  | d :: cs => if d = c then (true, cs) else (false, d :: cs)
  | [] => (false, [])

def takeEnd (c : Char) (cs : List Char) : Bool × List Char :=
  if cs.getLast? = some c then (true, cs.dropLast) else (false, cs)

/-- Reads a line without white space around it; comments and lines without a glob say nothing. -/
def Line.ofChars? (cs : List Char) : Option Line :=
  if cs.isEmpty || cs.head? = some '#' then none
  else
    let (negated, cs) := takeStart '!' cs
    let (dirOnly, cs) := takeEnd '/' cs
    let (rooted, cs) := takeStart '/' cs
    if cs.isEmpty then none else some ⟨negated, dirOnly, rooted, cs⟩

/-- The pattern of a line in a directory, which is given from the project root. -/
def Line.pattern (l : Line) (dir : String) : Pattern :=
  let glob := (Glob.ofChars l.body).pattern
  .all [
    if dir = "" then .empty else .text (dir ++ "/"),
    if l.rooted then .empty else .optional (.seq Glob.anyText (.text "/")),
    glob,
    .optional (.group 1 (.seq (.text "/") Glob.anyText)),
    .place .textEnd]

def ofLine? (line dir : String) : Option Rule :=
  let cs := trim line.toList
  (Line.ofChars? cs).map fun l => ⟨String.ofList cs, l.dirOnly, l.negated, l.pattern dir⟩

def ofFile (content dir : String) : List Rule :=
  (lines content).filterMap fun line => ofLine? line dir

end Rule

end SourceWeb.Ignore
