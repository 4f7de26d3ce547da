/-
  Globs: file name patterns with stars and question marks, as lines of ignore files write them.
-/
import SourceWeb.Pattern.Basic

namespace SourceWeb.Ignore

inductive GlobPart
  /-- A double star and a slash: nothing, or any directories. -/
  | anyDirs
  /-- A double star: anything. -/
  | anything
  /-- A star: anything within one name. -/
  | anyName
  /-- A question mark: one character of a name. -/
  | anyChar
  /-- Any other character, which stands for itself. -/
  | char (c : Char)
  deriving DecidableEq, Repr

abbrev Glob := List GlobPart

namespace Glob

/-- Reads a glob.  In a run of stars the last two belong to a slash behind the run; the others pair
    up from the left. -/
def ofChars : List Char → Glob
  | '*' :: '*' :: '/' :: cs => .anyDirs :: ofChars cs
  | '*' :: '*' :: '*' :: '/' :: cs => .anyName :: .anyDirs :: ofChars cs
  | '*' :: '*' :: cs => .anything :: ofChars cs
  | '*' :: cs => .anyName :: ofChars cs
  | '?' :: cs => .anyChar :: ofChars cs
  | c :: cs => .char c :: ofChars cs
  | [] => []

def anyText : Pattern := .many (.noneOf "\n")

def partPattern : GlobPart → Pattern
  | .anyDirs => .optional (.seq anyText (.text "/"))
  | .anything => anyText
  | .anyName => .many (.noneOf "/")
  | .anyChar => .noneOf "/"
  | .char c => .set (.oneOf [c])

def pattern (g : Glob) : Pattern :=
  .all (g.map partPattern)

end Glob

end SourceWeb.Ignore
