/-
  Conditions on a place in a text, which stands between two characters or at an end.
-/
import SourceWeb.Text.Alphabet

namespace SourceWeb.Pattern

open SourceWeb.Text

inductive WordEdge
  | edge
  | notEdge
  | start
  | stop
  | startHalf
  | stopHalf
  deriving DecidableEq, Repr

/-- Does the edge stand between what is a word or not before it and behind it? -/
def WordEdge.holds (before behind : Bool) : WordEdge → Bool
  | edge => before != behind
  | notEdge => before == behind
  | start => !before && behind
  | stop => before && !behind
  | startHalf => !before
  | stopHalf => !behind

/-- Conditions on a place, which consume nothing.  Lines end at a line feed; where `returns` is
    set, they end at a carriage return and at a line feed, and the two together are one end. -/
inductive Place
  | textStart
  | textEnd
  | lineStart (returns : Bool)
  | lineEnd (returns : Bool)
  | word (e : WordEdge)
  | asciiWord (e : WordEdge)
  deriving DecidableEq, Repr

namespace Place

def holds (last next : Option Char) : Place → Bool
  | textStart => last.isNone
  | textEnd => next.isNone
  | lineStart false => last.isNone || last == some '\n'
  | lineEnd false => next.isNone || next == some '\n'
  | lineStart true =>
    last.isNone || last == some '\n' || (last == some '\r' && next != some '\n')
  | lineEnd true =>
    next.isNone || next == some '\r' || (next == some '\n' && last != some '\r')
  | word e => e.holds (last.any isWordChar) (next.any isWordChar)
  | asciiWord e => e.holds (last.any isAsciiWordChar) (next.any isAsciiWordChar)

end Place

end SourceWeb.Pattern
