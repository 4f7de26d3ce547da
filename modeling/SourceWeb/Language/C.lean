/-
  C and C++: headers included in double quotes.  Headers in angle brackets belong to the system.
-/
import SourceWeb.Language.Basic

namespace SourceWeb.Language.C

open SourceWeb.Pattern

def localInclude : Pattern :=
  all [lineStart, gap, text "#", gap, text "include", gap, text "\"",
    group 1 (many1 (noneOf "\"\n")), text "\""]

def scan (content : String) : List Reference :=
  (captured localInclude content.toList).map (.kinded "include")

/-- Looks up a header: beside the file, at the project root, in its `include`, in its `src`. -/
def resolve (disk : Disk) (site : Site) (header : String) : Option Path :=
  let root := site.projectRoot
  [site.dir, root, root.child "include", root.child "src"].findSome? fun dir =>
    disk.existingFile (dir.child header)

end C

def cFamily : Language where
  name := "c_family"
  endings := [".c", ".h", ".cc", ".cpp", ".cxx", ".hpp", ".hh", ".hxx"]
  scan := fun _ => C.scan
  resolver := some <|
    resolverFor [".c", ".h", ".cc", ".cpp", ".cxx", ".hpp", ".hh", ".hxx"] <|
      resolverOfKind "include" C.resolve

end SourceWeb.Language
