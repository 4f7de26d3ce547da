/-
  Reading aliases from a configuration file.

  A file that is no JSON even without comments and superfluous commas may still hold a readable
  object of mappings; then that alone is taken, with the base directory if one can be seen.
-/
import SourceWeb.Alias.Basic
import SourceWeb.Alias.Lenient
import SourceWeb.Json.Reader
import SourceWeb.Pattern.Search

namespace SourceWeb.Alias

open SourceWeb.Text
open SourceWeb.Pattern

/-! ### Mappings -/

def targetsOf : Json → List String
  | .arr items => items.filterMap Json.str?
  | .str s => [s]
  | _ => []

def mappingsOf (v : Json) : List (String × List String) :=
  let members := v.members?.getD []
  (members.map fun (pattern, targets) => (pattern, targetsOf targets)).filter
    fun m => !m.2.isEmpty

/-! ### What a file declares -/

structure Declared where
  baseUrl : Option String
  mappings : Option Json

def declaredIn (root : Json) : Option Declared :=
  (root.get? "compilerOptions").map fun options =>
    ⟨(options.get? "baseUrl").bind Json.str?, options.get? "paths"⟩

def mappingsKey : Pattern :=
  all [text "\"paths\"", blanks, text ":", blanks, text "\x7b"]

def baseUrlEntry : Pattern :=
  all [text "\"baseUrl\"", blanks, text ":", blanks, text "\"", group 1 (many (noneOf "\"")),
    text "\""]

def salvage (cs : List Char) : Option Declared := do
  let key ← mappingsKey.find? cs
  -- the last character of the key is the brace
  let start := key.skipped.length + key.text.length - 1
  let close ← closingBrace? cs start
  let mappings ← Json.ofChars? (dropLastCommas ((cs.drop start).take (close + 1 - start)))
  let baseUrl := (baseUrlEntry.find? cs).map fun m => String.ofList (m.group 1)
  return ⟨baseUrl, some mappings⟩

def declared (content : String) : Option Declared :=
  let cs := stripFrom .code content.toList
  match (Json.ofChars? cs).orElse fun _ => Json.ofChars? (dropLastCommas cs) with
  | some root => declaredIn root
  | none => salvage cs

/-- The aliases of a configuration file, if it names a base directory or declares mappings. -/
def ofText? (content : String) (configPath : Path) : Option AliasMap := do
  let d ← declared content
  let mappings := (d.mappings.map mappingsOf).getD []
  if d.baseUrl.isNone && mappings.isEmpty then none
  else
    let dir := configPath.parent?.getD ⟨"."⟩
    some ⟨configPath, d.baseUrl.map dir.child, mappings⟩

end SourceWeb.Alias
