/-
  Dockerfiles: the files that `COPY` and `ADD` take from the build context, which is the directory
  of the Dockerfile.
-/
import SourceWeb.Language.Basic

namespace SourceWeb.Language.Docker

open SourceWeb.Text
open SourceWeb.Pattern

def copyLine : Pattern :=
  all [lineStart, gap, choice [caselessText "COPY", caselessText "ADD"], gap1,
    group 1 (many1 (noneOf "\n")), lineEnd]

/-- A quote, a bracket or a comma, which the list form writes around its operands. -/
def isListMark (c : Char) : Bool :=
  ['"', '\'', '[', ']', ','].contains c

def isSource (s : List Char) : Bool :=
  !s.isEmpty && !s.any (fun c => c == '*' || c == '?' || c == '$') && !isRemote (String.ofList s)

/-- The sources of an instruction: all operands but the last, unless they come from another stage
    of the build. -/
def sourcesOf (operands : List Char) : List (List Char) :=
  let words := wordsOf operands
  if words.any fun w => "--from".toList.isPrefixOf w then []
  else
    let named := words.filter fun w => !"--".toList.isPrefixOf w
    (named.dropLast.map (trimWhere isListMark)).filter isSource

def scan (content : String) : List Reference :=
  Reference.distinct <|
    ((copyLine.findAll content.toList).flatMap fun m => sourcesOf (m.group 1)).map
      fun s => .kinded "copy" (String.ofList s)

def resolve (disk : Disk) (site : Site) (target : String) : Option Path :=
  disk.existingFile (site.dir.child (dropLeading '/' target))

end Docker

def docker : Language where
  name := "dockerfile"
  endings := ["Dockerfile"]
  scan := fun _ => Docker.scan
  resolver := some <| resolverFor ["Dockerfile"] <| resolverOfKind "copy" Docker.resolve

end SourceWeb.Language
