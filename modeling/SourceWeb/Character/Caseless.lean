/-
  Sets of characters without regard to case.

  A set is widened by every character that has the folded form of a member.  The folded forms come
  from runs of code points that fold alike, so whole ranges are folded at a time.
-/
import SourceWeb.Character.Ranges
import SourceWeb.Text.Fold

namespace SourceWeb.Character

open SourceWeb.Text (FoldRun foldRuns)

def everyFrom (first last step : Nat) : Ranges :=
  if step = 1 then [(first, last)]
  else (List.range ((last - first) / step + 1)).map fun i => (first + step * i, first + step * i)

/-- The images of the code points from `first` to `last` that the run covers. -/
def imagesIn (r : FoldRun) (first last : Nat) : Ranges :=
  let low := max first r.first
  -- the first covered code point from there on
  let low := low + (r.step - (low - r.first) % r.step) % r.step
  let high := min last r.last
  if low ≤ high then everyFrom (r.target + (low - r.first)) (r.target + (high - r.first)) r.step
  else []

def inverseRun (r : FoldRun) : FoldRun :=
  ⟨r.target, r.target + (r.last - r.first), r.step, r.first⟩

namespace Ranges

def withImages (runs : List FoldRun) (rs : Ranges) : Ranges :=
  let images := rs.flatMap fun r => runs.flatMap fun run => imagesIn run r.1 r.2
  unionAll [rs, images]

def caseless (rs : Ranges) : Ranges :=
  (rs.withImages foldRuns).withImages (foldRuns.map inverseRun)

def asciiRun : FoldRun := ⟨65, 90, 1, 97⟩

/-- The characters that differ from a member only by the case of an ASCII letter. -/
def asciiCaseless (rs : Ranges) : Ranges :=
  (rs.withImages [asciiRun]).withImages [inverseRun asciiRun]

end Ranges

end SourceWeb.Character
