/-
  HTML: scripts and linked resources.
-/
import SourceWeb.Language.Basic

namespace SourceWeb.Language.Html

open SourceWeb.Text
open SourceWeb.Pattern

def attributeOf (element key : String) : Pattern :=
  all [text "<", caselessText element, wordEdge, manyLazy (noneOf ">"), wordEdge,
    caselessText key, blanks, text "=", blanks, quote,
    group 1 (many1 (noneOf "\"'")), quote]

/-- The references of a file, scripts first, without remote addresses and fragments. -/
def scan (content : String) : List Reference :=
  let cs := content.toList
  let targets := captured (attributeOf "script" "src") cs ++ captured (attributeOf "link" "href") cs
  Reference.distinct <|
    (targets.filter fun t => !isRemote t && !startsWith "#" t).map (.kinded "asset")

/-- Looks up a resource by the part of its address before a query or a fragment. -/
def resolve (disk : Disk) (site : Site) (target : String) : Option Path :=
  let path := String.ofList (target.toList.takeWhile fun c => c != '?' && c != '#')
  if path = "" then none
  else match afterStart "/" path with
    | some rooted => disk.existingFile (site.projectRoot.child rooted)
    | none => disk.existingFile (site.dir.child path)

end Html

def html : Language where
  name := "html"
  endings := [".html", ".htm"]
  scan := fun _ => Html.scan
  resolver := some <| resolverFor [".html", ".htm"] <| resolverOfKind "asset" Html.resolve

end SourceWeb.Language
