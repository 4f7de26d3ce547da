/-
  The languages of a run, and which of them a file belongs to.

  Where several languages claim one ending, the last of them has it.  A file belongs to the longest
  dotted ending of its name, and only for want of one to a whole name.
-/
import SourceWeb.Language.C
import SourceWeb.Language.Css
import SourceWeb.Language.Docker
import SourceWeb.Language.Go
import SourceWeb.Language.Html
import SourceWeb.Language.Java
import SourceWeb.Language.JavaScript
import SourceWeb.Language.Php
import SourceWeb.Language.Python
import SourceWeb.Language.Ruby
import SourceWeb.Language.Rust
import SourceWeb.Language.Shell

namespace SourceWeb

open SourceWeb.Text

/-- The languages in the order of their registration. -/
structure Registry where
  languages : List Language
  deriving Inhabited

namespace Registry

/-- The languages known from the start, in the order in which their endings and their ways of
    looking up are tried. -/
def builtinLanguages : List Language :=
  [Language.javaScript, Language.typeScript, Language.python, Language.ruby, Language.rust,
    Language.go, Language.cFamily, Language.css, Language.java, Language.php, Language.html,
    Language.shell, Language.docker]

def builtin : Registry :=
  ⟨builtinLanguages⟩

/-- The languages known from the start, without those named, in whatever case. -/
def builtinWithout (disabled : List String) : Registry :=
  ⟨builtinLanguages.filter fun l =>
    !disabled.any fun name => lowerAscii name == lowerAscii l.name⟩

/-! ### Registration -/

/-- What is known of the languages registered so far: the language of each ending, the latest claim
    first; the endings, in the order in which they were first claimed; and the languages that can
    look up references. -/
structure Table where
  owners : List (String × Language)
  endings : List String
  resolvers : List Language

namespace Table

def empty : Table :=
  ⟨[], [], []⟩

def owner? (t : Table) (ending : String) : Option Language :=
  t.owners.lookup ending

/-- The table once a language has claimed an ending, which is its own from then on. -/
def claim (l : Language) (t : Table) (ending : String) : Table :=
  { t with
    owners := (ending, l) :: t.owners
    endings := if (t.owner? ending).isSome then t.endings else t.endings ++ [ending] }

def register (t : Table) (l : Language) : Table :=
  let claimed := l.endings.foldl (claim l) t
  if l.resolver.isSome then { claimed with resolvers := claimed.resolvers ++ [l] } else claimed

end Table

def table (r : Registry) : Table :=
  r.languages.foldl Table.register .empty

def owner? (r : Registry) (ending : String) : Option Language :=
  r.table.owner? ending

/-- All endings, in the order in which they were first claimed. -/
def endings (r : Registry) : List String :=
  r.table.endings

def resolvers (r : Registry) : List Language :=
  r.table.resolvers

/-! ### File names -/

def probeEndings (r : Registry) : List String :=
  r.endings.filter fun e => !isWholeName e

/-- The endings in the order in which file names are compared with them. -/
def matchOrder (r : Registry) : List String :=
  r.probeEndings.mergeSort (fun a b => a.utf8ByteSize ≥ b.utf8ByteSize) ++
    r.endings.filter isWholeName

def endingOf? (r : Registry) (p : Path) : Option String :=
  p.fileName?.bind fun name => r.matchOrder.find? (hasEnding name)

def languageOf? (r : Registry) (p : Path) : Option Language :=
  (r.endingOf? p).bind r.owner?

def isRecognized (r : Registry) (p : Path) : Bool :=
  (r.endingOf? p).isSome

end Registry

end SourceWeb
