/-
  Aliases: names under which a project lets its files be referred to.

  A pattern may end in a star, and then it covers every reference that begins like it; what the
  star stands for is put in the place of a star at the end of a target.
-/
import SourceWeb.Path.Basic

namespace SourceWeb

open SourceWeb.Text

/-- The aliases that a configuration file declares, and the base directory it names. -/
structure AliasMap where
  configPath : Path
  baseUrl : Option Path
  mappings : List (String × List String)
  deriving DecidableEq, Repr

namespace AliasMap

def configDir (a : AliasMap) : Path :=
  a.configPath.parent?.getD ⟨"."⟩

/-- The directory that targets are read from: the base directory if one is named, else that of the
    configuration file. -/
def targetBase (a : AliasMap) : Path :=
  a.baseUrl.getD a.configDir

/-- What the star of a pattern stands for in a reference, if the pattern covers it; a pattern
    without a star covers itself alone. -/
inductive Cover
  | rest (text : String)
  | exact

def cover? (pattern reference : String) : Option Cover :=
  match beforeEnd "*" pattern with
  | some start => (afterStart start reference).map Cover.rest
  | none => if reference = pattern then some .exact else none

def Cover.fill : Cover → String → String
  | rest text, target =>
    match beforeEnd "*" target with
    | some start => start ++ text
    | none => target
  | exact, target => target

/-- The targets of a reference under all patterns that cover it, in the order of the mappings. -/
def expand (a : AliasMap) (reference : String) : List String :=
  a.mappings.flatMap fun (pattern, targets) =>
    match cover? pattern reference with
    | some c => targets.map c.fill
    | none => []

end AliasMap

end SourceWeb
