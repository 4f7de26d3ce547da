/-
  Finding a set of characters by the name of a property.

  A name is compared without regard to case, spaces, hyphens and underscores, and an `is` in front
  of it does not count.  It stands alone, for a property, a category or a script, or it asks for a
  value of the property that is named before it.
-/
import SourceWeb.Character.Age
import SourceWeb.Character.Break

namespace SourceWeb.Character

def countsInName (c : Char) : Bool :=
  c.toNat < 128 && c != ' ' && c != '_' && c != '-'

/-- A name as the tables spell it.  Nothing but a `c` behind `is` is the name `isc`, which no table
    holds. -/
def plainName (name : List Char) : String :=
  let plain (cs : List Char) := String.ofList ((cs.filter countsInName).map Char.toLower)
  match name with
  | i :: s :: rest =>
    if i.toLower == 'i' && s.toLower == 's' then
      if plain rest == "c" then "isc" else plain rest
    else plain name
  | _ => plain name

def namedRanges? (name : List Char) : Option Ranges :=
  let name := plainName name
  match propertyRanges? name with
  | some rs => some rs
  | none =>
    match Category.namedRanges? name with
    | some rs => some rs
    | none => Script.ownRanges? name

def valueRanges? (property value : List Char) : Option Ranges :=
  let value := plainName value
  match plainName property with
  | "gc" | "generalcategory" => Category.namedRanges? value
  | "sc" | "script" => Script.ownRanges? value
  | "scx" | "scriptextensions" => Script.extendedRanges? value
  | "age" => Age.namedRanges? value
  | "gcb" | "graphemeclusterbreak" => Break.clusterRanges? value
  | "wb" | "wordbreak" => Break.wordRanges? value
  | "sb" | "sentencebreak" => Break.sentenceRanges? value
  | _ => none

end SourceWeb.Character
