/-
  What a language contributes: the file names it claims, how references are found in its files, and
  how they are looked up.
-/
import SourceWeb.Alias.Basic
import SourceWeb.Disk.Basic
import SourceWeb.Pattern.Search
import SourceWeb.Reference

namespace SourceWeb

open SourceWeb.Text

/-! ### File name endings -/

/-- An ending without a dot at its start names whole files that have no dot in their names. -/
def isWholeName (ending : String) : Bool :=
  !startsWith "." ending

/-- Does a file of this name have the ending?  A dotted ending has to have something before it; a
    name without a dot has only to begin with the whole name. -/
def hasEnding (fileName ending : String) : Bool :=
  if isWholeName ending then !fileName.toList.contains '.' && startsWith ending fileName
  else ending.utf8ByteSize < fileName.utf8ByteSize && endsWith ending fileName

/-! ### Looking up references -/

/-- Where a reference is looked up from: the project, the file it stands in, the aliases in force
    there, and the directory their targets are read from if it is not the aliases' own. -/
structure Site where
  projectRoot : Path
  aliases : Option AliasMap
  aliasBase : Option Path
  file : Path

namespace Site

def dir (s : Site) : Path :=
  s.file.parent?.getD s.projectRoot

def hasAnyEnding (s : Site) (endings : List String) : Bool :=
  match s.file.fileName? with
  | some name => endings.any (hasEnding name)
  | none => false

end Site

abbrev Resolver := Disk → Site → Reference → Option Path

/-- A language.  A file is scanned by its path and its text. -/
structure Language where
  name : String
  endings : List String
  scan : Path → String → List Reference
  resolver : Option Resolver

instance : Inhabited Language := ⟨⟨"", [], fun _ _ => [], none⟩⟩

namespace Language

def resolverFor (endings : List String) (resolve : Resolver) : Resolver :=
  fun disk site reference =>
    if site.hasAnyEnding endings then resolve disk site reference else none

def resolverOfKind (kind : String) (resolve : Disk → Site → String → Option Path) : Resolver :=
  fun disk site reference =>
    if reference.isKind kind then resolve disk site reference.value else none

/-- What the matches of a pattern keep under the number 1, without white space around it and
    without repetition; nothing is not kept. -/
def captured (p : Pattern) (text : List Char) : List String :=
  let found := (p.findAll text).filterMap fun m => m.group? 1
  (((found.map trim).filter fun t => !t.isEmpty).map String.ofList).eraseDups

def isRemote (target : String) : Bool :=
  let t := lowerAscii target
  ["http://", "https://", "//", "data:", "mailto:"].any fun start => startsWith start t

end Language

end SourceWeb
