/-
  Java and Kotlin: imports of classes, and of members of classes.
-/
import SourceWeb.Language.Basic

namespace SourceWeb.Language.Java

open SourceWeb.Text
open SourceWeb.Pattern

def importLine : Pattern :=
  all [lineStart, gap, text "import", gap1, optional (all [text "static", gap1]),
    group 1 (many1 (wordOr "."))]

def scan (content : String) : List Reference :=
  Reference.distinct <| (captured importLine content.toList).map fun name =>
    .kinded "import" (dropTrailing '.' name)

/-- The directories of the project that hold the sources of its packages. -/
def sourceRoots : List String := ["src/main/java", "src/main/kotlin", "src", "."]

def classFile (disk : Disk) (site : Site) (parts : List String) : Option Path :=
  let relative := "/".intercalate parts
  sourceRoots.findSome? fun root =>
    let base := (site.projectRoot.child root).child relative
    [base.withSuffix ".java", base.withSuffix ".kt"].findSome? disk.existingFile

def resolve (disk : Disk) (site : Site) (target : String) : Option Path :=
  let segments := splitChar '.' target
  ([segments, segments.dropLast].filter fun parts => !parts.isEmpty).findSome?
    (classFile disk site)

end Java

def java : Language where
  name := "java"
  endings := [".java", ".kt"]
  scan := fun _ => Java.scan
  resolver := some <| resolverFor [".java", ".kt"] <| resolverOfKind "import" Java.resolve

end SourceWeb.Language
