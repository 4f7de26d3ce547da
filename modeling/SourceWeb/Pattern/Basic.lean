/-
  Patterns over text.

  A pattern is matched at a place of a text, and the match ends at a later place or at the same one.
  Where a pattern can match in several ways the first way counts: the left alternative before the
  right one, more repetitions before fewer (or fewer before more, for a lazy repetition).
-/
import SourceWeb.Pattern.CharSet
import SourceWeb.Pattern.Place

namespace SourceWeb

open SourceWeb.Pattern (CharSet)

/-- A pattern.  `repeated least most greedy p` is `p` at least `least` times and, if `most` is
    given, at most that often; `group n p` keeps the text that `p` matches under the number `n`. -/
inductive Pattern
  | empty
  | set (s : CharSet)
  | place (p : Pattern.Place)
  | seq (p q : Pattern)
  | alt (p q : Pattern)
  | repeated (least : Nat) (most : Option Nat) (greedy : Bool) (p : Pattern)
  | group (n : Nat) (p : Pattern)
  deriving DecidableEq, Repr, Inhabited

namespace Pattern

/-- The pattern without its groups, which keep text and do not decide what matches. -/
def ungrouped : Pattern → Pattern
  | empty => empty
  | set s => set s
  | place p => place p
  | seq p q => seq p.ungrouped q.ungrouped
  | alt p q => alt p.ungrouped q.ungrouped
  | repeated least most greedy p => repeated least most greedy p.ungrouped
  | group _ p => p.ungrouped

/-! ### Building patterns -/

def oneOf (chars : String) : Pattern :=
  set (.oneOf chars.toList)

def noneOf (chars : String) : Pattern :=
  set (.noneOf chars.toList)

def all (ps : List Pattern) : Pattern :=
  ps.foldr seq empty

def text (s : String) : Pattern :=
  all (s.toList.map fun c => set (.oneOf [c]))

def caselessText (s : String) : Pattern :=
  all (s.toList.map fun c => set (.caseless (.oneOf [c])))

def choice : List Pattern → Pattern
  | [] => set .none
  | [p] => p
  | p :: ps => alt p (choice ps)

def many (p : Pattern) : Pattern := repeated 0 none true p

def many1 (p : Pattern) : Pattern := repeated 1 none true p

def manyLazy (p : Pattern) : Pattern := repeated 0 none false p

def many1Lazy (p : Pattern) : Pattern := repeated 1 none false p

def optional (p : Pattern) : Pattern := repeated 0 (some 1) true p

def lineStart : Pattern := place (.lineStart false)

def lineEnd : Pattern := place (.lineEnd false)

def wordEdge : Pattern := place (.word .edge)

def gap : Pattern := many (oneOf " \t")

def gap1 : Pattern := many1 (oneOf " \t")

def wordOr (chars : String) : Pattern :=
  set (.union .word (.oneOf chars.toList))

def quote : Pattern := oneOf "\"'"

def blanks : Pattern := many (set .blank)

def blanks1 : Pattern := many1 (set .blank)

end Pattern

end SourceWeb
